import Ckb.Store.Transaction

/-!
The live cell set (`ckb-store/src/cell.rs`): `attach_block_cell` adds a block's outputs and removes
what its transactions spend; `detach_block_cell` rebuilds the spent cells from the transaction
index and removes the block's outputs. The cellbase's input spends nothing and is skipped on both
sides. `calcDataHash` is `CellOutput::calc_data_hash`.
-/

namespace Ckb

variable {H : Type} [DecidableEq H] (calcDataHash : List UInt8 → H)

/-- The `(out_point, CellEntry, CellDataEntry)` both functions build for an output. -/
def cellRecord (outPoint : OutPoint H) (cellOutput : CellOutput H) (blockHash : H)
    (blockNumber blockEpoch txIndex : Nat) (data : List UInt8) :
    OutPoint H × CellEntry H × Option (CellDataEntry H) :=
  (outPoint, ⟨cellOutput, blockHash, blockNumber, blockEpoch, txIndex, data.length⟩,
    if !data.isEmpty then some ⟨data, calcDataHash data⟩ else none)

/-- The `new_cells` of `attach_block_cell`. -/
def newCells (block : Block H) : List (OutPoint H × CellEntry H × Option (CellDataEntry H)) :=
  block.transactions.zipIdx.flatMap fun (tx, txIndex) =>
    (tx.outputs.zip tx.outputsData).zipIdx.map fun ((cellOutput, data), index) =>
      cellRecord calcDataHash ⟨tx.hash, index⟩ cellOutput block.hash block.number
        block.header.epoch.fullValue txIndex data

/-- The out points the block's transactions spend, the cellbase skipped. -/
def Block.deadPts (block : Block H) : List (OutPoint H) :=
  (block.transactions.drop 1).flatMap (·.inputPts)

def Block.outputPts (block : Block H) : List (OutPoint H) :=
  block.transactions.flatMap (·.outputPts)

def attachBlockCell (store : Store H) (block : Block H) : Store H :=
  (store.insertCells (newCells calcDataHash block)).deleteCells block.deadPts

/-- The `input_pts` map of `detach_block_cell`: the spent output indexes under each transaction
hash. -/
def inputPtsMap (block : Block H) : FiniteMap H (List Nat) :=
  (block.transactions.drop 1).foldl (fun inputPts tx =>
    tx.inputPts.foldl (fun inputPts pts => inputPts.push pts.txHash pts.index) inputPts) ∅

/-- The cells spent from the transaction `txHash` that `detach_block_cell` restores. -/
def restoredCells (store : Store H) (txHash : H) (indexes : List Nat) :
    Option (List (OutPoint H × CellEntry H × Option (CellDataEntry H))) :=
  match store.getTransactionWithInfo txHash with
  | none => some []
  | some (tx, info) => indexes.filterMapM fun index =>
    (tx.outputWithData index).map (Option.map fun (cellOutput, data) =>
      cellRecord calcDataHash ⟨txHash, index⟩ cellOutput info.blockHash info.blockNumber
        info.blockEpoch info.index data)

variable [LinearOrder H]

def detachBlockCell (store : Store H) (block : Block H) : Option (Store H) := do
  let inputPts := inputPtsMap block
  let undoDeads ← (sortedElems inputPts.keys).mapM fun txHash =>
    restoredCells calcDataHash store txHash ((inputPts.lookup txHash).getD [])
  pure ((store.insertCells undoDeads.flatten).deleteCells block.outputPts)

/-- `attach_block` then `attach_block_cell`, as `reconcile_main_chain` attaches a block. -/
def attach (store : Store H) (block : Block H) : Store H :=
  attachBlockCell calcDataHash (store.attachBlock block) block

/-- `detach_block` then `detach_block_cell`, one step of `rollback`. -/
def detach (store : Store H) (block : Block H) : Option (Store H) :=
  detachBlockCell calcDataHash (store.detachBlock block) block

/-- `rollback`: detach the blocks of a fork from the highest down. -/
def rollback (store : Store H) (detachedBlocks : List (Block H)) : Option (Store H) :=
  detachedBlocks.reverse.foldlM (detach calcDataHash) store

end Ckb
