import Ckb.Types.MoleculeTable
import Ckb.Types.SerializedSize
import Ckb.Support.SeenSet
import Ckb.Support.FiniteMap
import Ckb.Support.ExceptOption

/-!
The verification a block gets before its context is known: `BlockVerifier` and
`NonContextualBlockTxsVerifier` of `ckb-verification`, which `ChainService::non_contextual_verify`
runs one after the other on every block it receives, and `NonContextualTransactionVerifier`, run on
each transaction of the block. Every verifier is a sequence of checks that stops at the first that
fails, with the error of that check.

The transaction's `version` field, which `TransactionView` does not carry, is read by `versionOf`.
The merkle roots a header commits to and the roots `calc_transactions_root` and
`calc_proposals_hash` compute from the block's data are the functions of `BlockRoots`. Indexing the
transactions and the `expect` on the cellbase's input panic, which is `none`.
-/

namespace Ckb

/-- `ScriptHashType::try_from` of the byte `hash_type` holds. -/
def ScriptHashType.tryFrom (byte : UInt8) : Option ScriptHashType :=
  match byte.toNat with
  | 0 => some .data
  | 1 => some .type
  | 2 => some .data1
  | 4 => some .data2
  | _ => none

/-- `CellInput::new_cellbase_input`: the null out point, with the block number as `since`. -/
def CellInput.newCellbaseInput {H : Type} [Inhabited H] (blockNumber : Nat) : CellInput H :=
  ⟨OutPoint.null, blockNumber⟩

end Ckb

namespace Ckb.Verification

inductive BlockErrorKind where
  | exceededMaximumProposalsLimit
  | exceededMaximumBlockBytes
  | commitTransactionDuplicate
  | proposalTransactionDuplicate
  | transactionsRoot
  | proposalTransactionsHash
deriving DecidableEq, Repr

/-- The one error of the block bytes verifier as `ckb_error::Error` carries it. -/
def BlockErrorKind.ofBlockBytes : Ckb.BlockErrorKind → BlockErrorKind
  | .exceededMaximumBlockBytes => .exceededMaximumBlockBytes

inductive CellbaseError where
  | invalidInput
  | invalidWitness
  | invalidTypeScript
  | invalidOutputQuantity
  | invalidQuantity
  | invalidPosition
  | invalidOutputData
deriving DecidableEq, Repr

inductive TransactionErrorSource where
  | inputs
  | outputs
deriving DecidableEq, Repr

inductive TransactionError (H : Type) where
  | mismatchedVersion (expected actual : Nat)
  | exceededMaximumBlockBytes (actual limit : Nat)
  | empty (inner : TransactionErrorSource)
  | duplicateCellDeps (outPoint : OutPoint H)
  | duplicateHeaderDeps (hash : H)
  | outputsDataLengthMismatch (outputsLen outputsDataLen : Nat)
deriving DecidableEq, Repr

/-- The `ckb_error::Error`s non-contextual verification returns. -/
inductive Error (H : Type) where
  | block (kind : BlockErrorKind)
  | cellbase (error : CellbaseError)
  | transaction (error : TransactionError H)
deriving DecidableEq, Repr

/-- What non-contextual verification reads of `Consensus`. -/
structure NonContextualConsensus where
  maxBlockProposalsLimit : Nat
  maxBlockBytes : Nat
  txVersion : Nat
deriving DecidableEq, Repr

/-- The roots a block's header commits to, and the roots its transactions and proposals hash to. -/
structure BlockRoots (H : Type) where
  transactionsRoot : Block H → H
  calcTransactionsRoot : Block H → H
  proposalsHash : Block H → H
  calcProposalsHash : Block H → H

variable {H : Type} [DecidableEq H] [Inhabited H]

/-! Transactions -/

def VersionVerifier.verify (txVersion version : Nat) : Except (TransactionError H) Unit :=
  if version ≠ txVersion then .error (.mismatchedVersion txVersion version) else .ok ()

def SizeVerifier.verify (blockBytesLimit : Nat) (transaction : TransactionView H) : Except (TransactionError H) Unit :=
  let size := transaction.serializedSizeInBlock
  if size ≤ blockBytesLimit then .ok () else .error (.exceededMaximumBlockBytes size blockBytesLimit)

def EmptyVerifier.verify (transaction : TransactionView H) : Except (TransactionError H) Unit :=
  if transaction.inputs.isEmpty then .error (.empty .inputs)
  else if transaction.outputs.isEmpty && !transaction.isCellbase then .error (.empty .outputs)
  else .ok ()

def DuplicateDepsVerifier.verify (transaction : TransactionView H) : Except (TransactionError H) Unit :=
  match SeenSet.findReplaced ∅ transaction.cellDeps with
  | some dep => .error (.duplicateCellDeps dep.outPoint)
  | none =>
    match SeenSet.findReplaced ∅ transaction.headerDeps with
    | some hash => .error (.duplicateHeaderDeps hash)
    | none => .ok ()

def OutputsDataVerifier.verify (transaction : TransactionView H) : Except (TransactionError H) Unit :=
  let outputsLen := transaction.outputs.length
  let outputsDataLen := transaction.outputsData.length
  if outputsLen ≠ outputsDataLen then .error (.outputsDataLengthMismatch outputsLen outputsDataLen) else .ok ()

/-- `NonContextualTransactionVerifier::verify` of a transaction whose `version` field is `version`. -/
def NonContextualTransactionVerifier.verify (consensus : NonContextualConsensus) (version : Nat)
    (transaction : TransactionView H) : Except (TransactionError H) Unit := do
  VersionVerifier.verify consensus.txVersion version
  SizeVerifier.verify consensus.maxBlockBytes transaction
  EmptyVerifier.verify transaction
  DuplicateDepsVerifier.verify transaction
  OutputsDataVerifier.verify transaction

/-! Blocks -/

def BlockProposalsLimitVerifier.verify (blockProposalsLimit : Nat) (block : Block H) : Except BlockErrorKind Unit :=
  if block.proposals.length ≤ blockProposalsLimit then .ok () else .error .exceededMaximumProposalsLimit

/-- `CellbaseVerifier::verify`: the first transaction is the only cellbase, with at most one output,
no output data, no type script, a cellbase witness whose lock has a known hash type, and the
cellbase input of the block's number. -/
def CellbaseVerifier.verify (block : Block H) : ExceptT CellbaseError Option Unit :=
  if block.number = 0 then pure ()
  else if (block.transactions.filter (·.isCellbase)).length ≠ 1 then throw .invalidQuantity
  else do
    let cellbaseTransaction ← ExceptT.lift block.transactions.head?
    if !cellbaseTransaction.isCellbase then throw .invalidPosition
    else if cellbaseTransaction.outputs.length > 1 || cellbaseTransaction.outputsData.length > 1 ||
        cellbaseTransaction.outputs.length ≠ cellbaseTransaction.outputsData.length then
      throw .invalidOutputQuantity
    else if !((cellbaseTransaction.outputsData.head?.map (·.isEmpty)).getD true) then throw .invalidOutputData
    else if (cellbaseTransaction.witnesses.head?.bind fun witness =>
        (Molecule.CellbaseWitness.fromSlice witness).bind fun cellbaseWitness =>
          ScriptHashType.tryFrom cellbaseWitness.lock.hashType).isNone then
      throw .invalidWitness
    else if cellbaseTransaction.outputs.any (·.type.isSome) then throw .invalidTypeScript
    else do
      let cellbaseInput ← ExceptT.lift cellbaseTransaction.inputs.head?
      if cellbaseInput ≠ CellInput.newCellbaseInput block.number then throw .invalidInput else pure ()

def DuplicateVerifier.verify (block : Block H) : Except BlockErrorKind Unit :=
  if !allInsert ∅ (block.transactions.map (·.hash)) then .error .commitTransactionDuplicate
  else if !allInsert ∅ block.proposals then .error .proposalTransactionDuplicate
  else .ok ()

def MerkleRootVerifier.verify (roots : BlockRoots H) (block : Block H) : Except BlockErrorKind Unit :=
  if roots.transactionsRoot block ≠ roots.calcTransactionsRoot block then .error .transactionsRoot
  else if roots.proposalsHash block ≠ roots.calcProposalsHash block then .error .proposalTransactionsHash
  else .ok ()

def BlockVerifier.verify (consensus : NonContextualConsensus) (roots : BlockRoots H)
    (extension : Option (List UInt8)) (block : Block H) : ExceptT (Error H) Option Unit := do
  liftExcept ((BlockProposalsLimitVerifier.verify consensus.maxBlockProposalsLimit block).mapError (Error.block (H := H)))
  liftExcept ((BlockBytesVerifier.verify consensus.maxBlockBytes block extension).mapError
    (Error.block (H := H) ∘ BlockErrorKind.ofBlockBytes))
  (CellbaseVerifier.verify block).adapt Error.cellbase
  liftExcept ((DuplicateVerifier.verify block).mapError (Error.block (H := H)))
  liftExcept ((MerkleRootVerifier.verify roots block).mapError (Error.block (H := H)))

/-- `NonContextualBlockTxsVerifier::verify`: the transactions in order, up to the first that fails. -/
def NonContextualBlockTxsVerifier.verify (consensus : NonContextualConsensus) (versionOf : TransactionView H → Nat)
    (block : Block H) : Except (Error H) (List Unit) :=
  block.transactions.mapM fun transaction =>
    (NonContextualTransactionVerifier.verify consensus (versionOf transaction) transaction).mapError Error.transaction

def nonContextualVerify (consensus : NonContextualConsensus) (roots : BlockRoots H) (versionOf : TransactionView H → Nat)
    (extension : Option (List UInt8)) (block : Block H) : ExceptT (Error H) Option Unit := do
  BlockVerifier.verify consensus roots extension block
  let _ ← liftExcept (NonContextualBlockTxsVerifier.verify consensus versionOf block)
  pure ()

end Ckb.Verification
