import Ckb.Types.SerializedSize
import Ckb.Cell.Check
import Ckb.TxPool.PoolMap

/-!
`BlockAssembler` (`tx-pool/src/block_assembler/mod.rs`): the block template it keeps, the sizes it
records of the template's parts, and the calls that rebuild it. Of a snapshot only what the calls
read is kept; the cellbase, the extension and the DAO field are what `build_cellbase`,
`build_extension` and `DaoCalculator` compute from it, and the uncles are what `prepare_uncles`
returns. The tx-pool is what a call reads of it: the tip of its snapshot, `package_proposals` and
`package_txs`. The header fields of the template that no call reads, the work id and the clock are
left out, and `usize` is 64 bits wide.
-/

namespace Ckb.BlockAssembler

open Cell TxPool Molecule

variable {H I : Type}

structure Snapshot (H : Type) where
  tipHash : H
  /-- `consensus.max_block_bytes()`, a `u64`. -/
  maxBlockBytes : Nat
  maxBlockBytes_le : maxBlockBytes ≤ u64Max
  maxBlockCycles : Nat
  maxBlockProposalsLimit : Nat
  maxUnclesNum : Nat
  /-- The snapshot as the `CellChecker` and `HeaderChecker` of `calc_dao`. -/
  cellChecker : CellChecker H
  headerChecker : HeaderChecker H

/-- What the assembler computes from a snapshot outside this model; `none` is an error. -/
structure AssemblerEnv (H : Type) where
  /-- `build_cellbase` under the assembler's configuration. -/
  buildCellbase : Snapshot H → Option (TransactionView H)
  buildExtension : Snapshot H → Option (Option (List UInt8))
  /-- `dao_field_with_current_epoch` over the resolved transactions of the block. -/
  daoField : Snapshot H → List (ResolvedTransaction H) → Option H
  /-- The global `SYSTEM_CELL`. -/
  systemCell : Option (SystemCellMap H)

/-- What a call reads of the tx-pool. The entries `package_txs` returns fit in the size limit it is
given, and an entry's size is its transaction's `serialized_size_in_block`, which is how `process`
sizes an entry. -/
structure PoolView (H : Type) where
  tipHash : H
  /-- `package_proposals` with a proposals limit and the template's uncles. -/
  packageProposals : Nat → List (UncleBlock H) → List ProposalShortId
  /-- The entries of `package_txs` with a cycles limit and a size limit. -/
  packageTxs : Nat → Nat → List (TxEntry H)
  packageTxs_size_le : ∀ maxBlockCycles txsSizeLimit,
    ((packageTxs maxBlockCycles txsSizeLimit).map (·.size)).sum ≤ txsSizeLimit
  size_eq : ∀ maxBlockCycles txsSizeLimit, ∀ entry ∈ packageTxs maxBlockCycles txsSizeLimit,
    entry.size = entry.transaction.serializedSizeInBlock

structure BlockTemplate (H : Type) where
  uncles : List (UncleBlock H)
  transactions : List (TxEntry H)
  proposals : List ProposalShortId
  cellbase : TransactionView H
  dao : H
  extension : Option (List UInt8)

namespace BlockTemplate

/-- The block the template describes, under the header a miner gives it. -/
def toBlock (header : Header H) (template : BlockTemplate H) : Block H :=
  ⟨header, template.uncles, template.cellbase :: template.transactions.map (·.transaction), template.proposals⟩

/-- `serialized_size_without_uncle_proposals` of the template's block. -/
def serializedSize (template : BlockTemplate H) : Nat :=
  serializedSizeWithoutUncleProposals template.uncles
    (template.cellbase :: template.transactions.map (·.transaction)) template.proposals template.extension

end BlockTemplate

structure TemplateSize where
  txs : Nat
  proposals : Nat
  uncles : Nat
  total : Nat
deriving DecidableEq, Repr

/-- The `calc_total_by_*` methods: the total with a part of `size` bytes replaced by one of
`newSize`, saturating. -/
def calcTotalBy (total size newSize : Nat) : Nat :=
  if newSize > size then saturatingAdd total (newSize - size) else total - (size - newSize)

namespace TemplateSize

def calcTotalByProposals (self : TemplateSize) (newProposalsSize : Nat) : Nat :=
  calcTotalBy self.total self.proposals newProposalsSize

def calcTotalByUncles (self : TemplateSize) (newUnclesSize : Nat) : Nat :=
  calcTotalBy self.total self.uncles newUnclesSize

def calcTotalByTxs (self : TemplateSize) (newTxsSize : Nat) : Nat :=
  calcTotalBy self.total self.txs newTxsSize

end TemplateSize

structure CurrentTemplate (H : Type) where
  template : BlockTemplate H
  size : TemplateSize
  snapshot : Snapshot H

/-- `TransactionsChecker`: the outputs of the transactions it holds, by hash. -/
structure TransactionsChecker (H : Type) where
  inner : FiniteMap H (List (CellOutput H))

namespace TransactionsChecker

variable [DecidableEq H]

def insert (self : TransactionsChecker H) (tx : TransactionView H) : TransactionsChecker H :=
  ⟨self.inner.insert tx.hash tx.outputs⟩

def new (txs : List (TransactionView H)) : TransactionsChecker H := txs.foldl insert ⟨∅⟩

/-- An output of a transaction it holds is live; it knows nothing of other out points. -/
def cellChecker (self : TransactionsChecker H) : CellChecker H :=
  ⟨fun outPoint => (self.inner.lookup outPoint.txHash).bind fun outputs =>
    if outPoint.index < outputs.length then some true else none⟩

end TransactionsChecker

/-- `OverlayCellChecker`: what the overlay knows, and otherwise what the cell checker says. -/
def overlayCellChecker (overlay cellChecker : CellChecker H) : CellChecker H :=
  ⟨fun outPoint => (overlay.isLive outPoint).or (cellChecker.isLive outPoint)⟩

/-- Why a call fails. -/
inductive AssemblerError where
  /-- `BlockAssemblerError::Overflow`. -/
  | overflow
  /-- An error of `build_cellbase`, `build_extension` or `calc_dao`, passed on as `AnyError`. -/
  | anyError
deriving DecidableEq, Repr

variable [DecidableEq H] (env : PoolEnv H I) (assembler : AssemblerEnv H)

/-- The `filter_map` of `calc_dao`: each entry is checked on the snapshot overlaid with the
transactions kept before it, and against the inputs seen so far. An entry that passes is kept and
joins the overlay; one that fails is reported by its short id. -/
def checkEntries (snapshot : Snapshot H) :
    Finset (OutPoint H) → TransactionsChecker H → List (TxEntry H) → List (TxEntry H) × List I
  | _, _, [] => ([], [])
  | seenInputs, transactionsChecker, entry :: entries =>
    let overlay := overlayCellChecker transactionsChecker.cellChecker snapshot.cellChecker
    match entry.rtx.check assembler.systemCell seenInputs overlay snapshot.headerChecker with
    | (.ok (), seenInputs) =>
      let rest := checkEntries snapshot seenInputs (transactionsChecker.insert entry.transaction) entries
      (entry :: rest.1, rest.2)
    | (.error _, seenInputs) =>
      let rest := checkEntries snapshot seenInputs transactionsChecker entries
      (rest.1, entry.proposalShortId env :: rest.2)

/-- `calc_dao`: the DAO field of the block of the cellbase and the entries that pass their check,
those entries, and the short ids of the others. -/
def calcDao (snapshot : Snapshot H) (cellbase : TransactionView H) (entries : List (TxEntry H)) :
    Option (H × List (TxEntry H) × List I) :=
  let checked := checkEntries env assembler snapshot ∅ (TransactionsChecker.new [cellbase]) entries
  -- `TxEntry::dummy_resolve` resolves the cellbase to no cells
  (assembler.daoField snapshot (⟨cellbase, [], [], []⟩ :: checked.1.map (·.rtx))).map
    fun dao => (dao, checked.1, checked.2)

/-- `basic_block_size`: the block of the cellbase, the uncles, the proposals and the extension. -/
def basicBlockSize (cellbase : TransactionView H) (uncles : List (UncleBlock H))
    (proposals : List ProposalShortId) (extension : Option (List UInt8)) : Nat :=
  serializedSizeWithoutUncleProposals uncles [cellbase] proposals extension

/-- The blank template `new` and `update_blank` build: the snapshot's cellbase and extension, the
uncles, and no proposals or transactions. `none` is an error of `build_cellbase`,
`build_extension` or `calc_dao`. -/
def blank (snapshot : Snapshot H) (uncles : List (UncleBlock H)) : Option (CurrentTemplate H) := do
  let cellbase ← assembler.buildCellbase snapshot
  let extension ← assembler.buildExtension snapshot
  let calculated ← calcDao env assembler snapshot cellbase []
  pure
    { template := { uncles, transactions := [], proposals := [], cellbase, dao := calculated.1, extension }
      size := { txs := 0, proposals := 0, uncles := uncles.length * UncleBlock.serializedSizeInBlock,
                total := basicBlockSize cellbase uncles [] extension }
      snapshot }

/-- `BlockAssembler::new`, which has no uncles yet. `none` is the panic of an `expect`. -/
def new (snapshot : Snapshot H) : Option (CurrentTemplate H) := blank env assembler snapshot []

def updateBlank (snapshot : Snapshot H) (uncles : List (UncleBlock H)) :
    Except AssemblerError (CurrentTemplate H) :=
  match blank env assembler snapshot uncles with
  | none => .error .anyError
  | some template => .ok template

/-- `update_full`: new proposals and transactions, the transactions packaged within what the block
has left after the cellbase, the uncles, the new proposals and the extension. It also returns the
short ids of the entries that failed their check, which the source removes from the tx-pool. -/
def updateFull (pool : PoolView H) (current : CurrentTemplate H) :
    Except AssemblerError (CurrentTemplate H × List I) :=
  let template := current.template
  if current.snapshot.tipHash ≠ pool.tipHash then .ok (current, []) else
  let proposals := pool.packageProposals current.snapshot.maxBlockProposalsLimit template.uncles
  let basicSize := basicBlockSize template.cellbase template.uncles proposals template.extension
  match checkedSub current.snapshot.maxBlockBytes basicSize with
  | none => .error .overflow
  | some txsSizeLimit =>
    let txs := pool.packageTxs current.snapshot.maxBlockCycles txsSizeLimit
    let proposalsSize := proposals.length * ProposalShortId.serializedSize
    match calcDao env assembler current.snapshot template.cellbase txs with
    | none => .error .anyError
    | some calculated =>
      let txsSize := (calculated.2.1.map (·.size)).sum
      .ok ({ current with
          template := { template with proposals, transactions := calculated.2.1, dao := calculated.1 }
          size := { current.size with txs := txsSize, total := basicSize + txsSize, proposals := proposalsSize } },
        calculated.2.2)

/-- `update_uncles`: the uncles `prepare_uncles` returns, taken while the template has fewer than
`max_uncles_num`, room for one more, and the new total stays below `max_block_bytes`. -/
def updateUncles (uncles : List (UncleBlock H)) (current : CurrentTemplate H) : CurrentTemplate H :=
  let maxBlockBytes := current.snapshot.maxBlockBytes
  if current.template.uncles.length < current.snapshot.maxUnclesNum then
    let remainSize := maxBlockBytes - current.size.total
    if remainSize > UncleBlock.serializedSizeInBlock then
      let newUncleSize := uncles.length * UncleBlock.serializedSizeInBlock
      let newTotalSize := current.size.calcTotalByUncles newUncleSize
      if newTotalSize < maxBlockBytes then
        { current with
          template := { current.template with uncles }
          size := { current.size with uncles := newUncleSize, total := newTotalSize } }
      else current
    else current
  else current

/-- `update_proposals`: the proposals of `package_proposals`, taken while the new total stays below
`max_block_bytes`. -/
def updateProposals (pool : PoolView H) (current : CurrentTemplate H) : CurrentTemplate H :=
  if current.snapshot.tipHash ≠ pool.tipHash then current else
  let proposals := pool.packageProposals current.snapshot.maxBlockProposalsLimit current.template.uncles
  let newProposalsSize := proposals.length * ProposalShortId.serializedSize
  let newTotalSize := current.size.calcTotalByProposals newProposalsSize
  if newTotalSize < current.snapshot.maxBlockBytes then
    { current with
      template := { current.template with proposals }
      size := { current.size with proposals := newProposalsSize, total := newTotalSize } }
  else current

/-- `update_transactions`: the transactions packaged within what the block has left after the
cellbase, the uncles, the proposals and a freshly built extension. The extension replaces the
template's only when there is one. -/
def updateTransactions (pool : PoolView H) (current : CurrentTemplate H) :
    Except AssemblerError (CurrentTemplate H) :=
  let template := current.template
  match assembler.buildExtension current.snapshot with
  | none => .error .anyError
  | some extension =>
    if current.snapshot.tipHash ≠ pool.tipHash then .ok current else
    let basicBlockSize := basicBlockSize template.cellbase template.uncles template.proposals extension
    match checkedSub current.snapshot.maxBlockBytes basicBlockSize with
    | none => .ok current
    | some txsSizeLimit =>
      let txs := pool.packageTxs current.snapshot.maxBlockCycles txsSizeLimit
      match calcDao env assembler current.snapshot template.cellbase txs with
      | none => .ok current
      | some calculated =>
        let newTxsSize := (calculated.2.1.map (·.size)).sum
        .ok { current with
          template := { template with
            transactions := calculated.2.1, dao := calculated.1, extension := extension.or template.extension }
          size := { current.size with txs := newTxsSize, total := current.size.calcTotalByTxs newTxsSize } }

/-- The calls on a block assembler after `new`, each with what it reads from outside: the snapshot
of a new tip and its uncles, the uncles of `prepare_uncles`, or the tx-pool. -/
inductive AssemblerOp (H : Type) where
  | updateBlank (snapshot : Snapshot H) (uncles : List (UncleBlock H))
  | updateFull (pool : PoolView H)
  | updateUncles (uncles : List (UncleBlock H))
  | updateProposals (pool : PoolView H)
  | updateTransactions (pool : PoolView H)

/-- One call on the current template; a call that fails leaves it as it was. -/
def AssemblerOp.run (current : CurrentTemplate H) : AssemblerOp H → CurrentTemplate H
  | .updateBlank snapshot uncles =>
    match BlockAssembler.updateBlank env assembler snapshot uncles with
    | .ok next => next
    | .error _ => current
  | .updateFull pool =>
    match BlockAssembler.updateFull env assembler pool current with
    | .ok next => next.1
    | .error _ => current
  | .updateUncles uncles => BlockAssembler.updateUncles uncles current
  | .updateProposals pool => BlockAssembler.updateProposals pool current
  | .updateTransactions pool =>
    match BlockAssembler.updateTransactions env assembler pool current with
    | .ok next => next
    | .error _ => current

def AssemblerOp.runAll (current : CurrentTemplate H) (ops : List (AssemblerOp H)) : CurrentTemplate H :=
  ops.foldl (AssemblerOp.run env assembler) current

end Ckb.BlockAssembler
