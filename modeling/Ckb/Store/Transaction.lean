import Ckb.Types.HeaderDigest
import Ckb.Support.FiniteMap

/-!
The chain store (`ckb-store`) as the columns the modelled code reads and writes, each a finite map
from the column's key to its decoded value. `StoreTransaction` writes them; reads go through the
same maps, as a store transaction sees its own writes. The freezer and the caches are left out: they
return what the columns hold.
-/

namespace Ckb

/-- `CellEntry`: a live cell's output and where it was created. -/
structure CellEntry (H : Type) where
  output : CellOutput H
  blockHash : H
  blockNumber : Nat
  blockEpoch : Nat
  index : Nat
  dataSize : Nat
deriving DecidableEq, Repr

structure CellDataEntry (H : Type) where
  outputData : List UInt8
  outputDataHash : H
deriving DecidableEq, Repr

/-- `COLUMN_CELL`, `COLUMN_CELL_DATA` and `COLUMN_CELL_DATA_HASH`, keyed by out point. A cell
without data has the empty value in both data columns, which is `none` here. -/
structure CellColumns (H : Type) where
  cell : FiniteMap (OutPoint H) (CellEntry H) := ∅
  cellData : FiniteMap (OutPoint H) (Option (CellDataEntry H)) := ∅
  cellDataHash : FiniteMap (OutPoint H) (Option H) := ∅

/-- The columns of the store. `COLUMN_INDEX` holds two maps, from number to hash and back. -/
structure Store (H : Type) where
  cells : CellColumns H := {}
  transactionInfo : FiniteMap H (TransactionInfo H) := ∅
  blockHeader : FiniteMap H (Header H) := ∅
  blockUncle : FiniteMap H (List (UncleBlock H)) := ∅
  blockProposalIds : FiniteMap H (List ProposalShortId) := ∅
  blockBody : FiniteMap (H × Nat) (TransactionView H) := ∅
  indexByNumber : FiniteMap Nat H := ∅
  indexByHash : FiniteMap H Nat := ∅
  uncles : FiniteMap H (Header H) := ∅
  blockExt : FiniteMap H BlockExt := ∅
  /-- `META_TIP_HEADER_KEY`: the hash of the tip. -/
  tipHash : Option H := none
  chainRootMMR : FiniteMap Nat (HeaderDigest H) := ∅

variable {H : Type} [DecidableEq H]

namespace CellColumns

def insertCells (cells : CellColumns H) (items : List (OutPoint H × CellEntry H × Option (CellDataEntry H))) :
    CellColumns H :=
  items.foldl (fun cells item =>
    { cell := cells.cell.insert item.1 item.2.1
      cellData := cells.cellData.insert item.1 item.2.2
      cellDataHash := cells.cellDataHash.insert item.1 (item.2.2.map (·.outputDataHash)) }) cells

def deleteCells (cells : CellColumns H) (outPoints : List (OutPoint H)) : CellColumns H :=
  outPoints.foldl (fun cells outPoint =>
    { cell := cells.cell.erase outPoint
      cellData := cells.cellData.erase outPoint
      cellDataHash := cells.cellDataHash.erase outPoint }) cells

end CellColumns

namespace Store

def insertCells (store : Store H) (items : List (OutPoint H × CellEntry H × Option (CellDataEntry H))) :
    Store H :=
  { store with cells := store.cells.insertCells items }

def deleteCells (store : Store H) (outPoints : List (OutPoint H)) : Store H :=
  { store with cells := store.cells.deleteCells outPoints }

/-- `insert_block`: the header, uncles, proposals and transactions under the block's hash. -/
def insertBlock (store : Store H) (block : Block H) : Store H :=
  { store with
    blockHeader := store.blockHeader.insert block.hash block.header
    blockUncle := store.blockUncle.insert block.hash block.uncles
    blockProposalIds := store.blockProposalIds.insert block.hash block.proposals
    blockBody := block.transactions.zipIdx.foldl (fun body entry => body.insert (block.hash, entry.2) entry.1)
      store.blockBody }

/-- `attach_block`: index the block's transactions, its number and its uncles. -/
def attachBlock (store : Store H) (block : Block H) : Store H :=
  { store with
    transactionInfo := block.txHashes.zipIdx.foldl (fun infos entry =>
      infos.insert entry.1 ⟨block.hash, block.number, block.header.epoch.fullValue, entry.2⟩) store.transactionInfo
    indexByNumber := store.indexByNumber.insert block.number block.hash
    uncles := block.uncles.foldl (fun uncles uncle => uncles.insert uncle.header.hash uncle.header) store.uncles
    indexByHash := store.indexByHash.insert block.hash block.number }

/-- `detach_block`: drop what `attach_block` indexed. -/
def detachBlock (store : Store H) (block : Block H) : Store H :=
  { store with
    transactionInfo := block.txHashes.foldl (fun infos txHash => infos.erase txHash) store.transactionInfo
    uncles := block.uncles.foldl (fun uncles uncle => uncles.erase uncle.header.hash) store.uncles
    indexByNumber := store.indexByNumber.erase block.number
    indexByHash := store.indexByHash.erase block.hash }

def getTransactionInfo (store : Store H) (hash : H) : Option (TransactionInfo H) :=
  store.transactionInfo.lookup hash

def getTransactionWithInfo (store : Store H) (hash : H) : Option (TransactionView H × TransactionInfo H) := do
  let txInfo ← store.getTransactionInfo hash
  let tx ← store.blockBody.lookup (txInfo.blockHash, txInfo.index)
  pure (tx, txInfo)

/-- `get_block_hash`: the main-chain block at a number. -/
def getBlockHash (store : Store H) (number : Nat) : Option H := store.indexByNumber.lookup number

def insertBlockExt (store : Store H) (hash : H) (ext : BlockExt) : Store H :=
  { store with blockExt := store.blockExt.insert hash ext }

def getBlockExt (store : Store H) (hash : H) : Option BlockExt := store.blockExt.lookup hash

def insertTipHeader (store : Store H) (header : Header H) : Store H :=
  { store with tipHash := some header.hash }

def getBlockHeader (store : Store H) (hash : H) : Option (Header H) := store.blockHeader.lookup hash

/-- `get_block_number`: the number of a main-chain block, from the index by hash. -/
def getBlockNumber (store : Store H) (hash : H) : Option Nat := store.indexByHash.lookup hash

/-- `is_uncle`: whether a main-chain block includes an uncle with the hash. -/
def isUncle (store : Store H) (hash : H) : Bool := (store.uncles.lookup hash).isSome

def getUncleHeader (store : Store H) (hash : H) : Option (Header H) := store.uncles.lookup hash

def getTipHeader (store : Store H) : Option (Header H) := store.tipHash.bind store.getBlockHeader

def insertHeaderDigest (store : Store H) (position : Nat) (digest : HeaderDigest H) : Store H :=
  { store with chainRootMMR := store.chainRootMMR.insert position digest }

def getHeaderDigest (store : Store H) (position : Nat) : Option (HeaderDigest H) :=
  store.chainRootMMR.lookup position

/-- `get_block_body`: the transactions stored under the block's hash, in the order of their
index, as the prefix iterator of `COLUMN_BLOCK_BODY` returns them. -/
def getBlockBody (store : Store H) (hash : H) : List (TransactionView H) :=
  (sortedElems ((store.blockBody.keys.filter (·.1 = hash)).image (·.2))).filterMap fun index =>
    store.blockBody.lookup (hash, index)

/-- `get_block`; the outer `none` is the panic of the `expect`s on the uncles and proposals of a
block whose header is stored. -/
def getBlock (store : Store H) (hash : H) : Option (Option (Block H)) :=
  match store.getBlockHeader hash with
  | none => some none
  | some header => do
    let uncles ← store.blockUncle.lookup hash
    let proposals ← store.blockProposalIds.lookup hash
    pure (some ⟨header, uncles, store.getBlockBody hash, proposals⟩)

end Store

end Ckb
