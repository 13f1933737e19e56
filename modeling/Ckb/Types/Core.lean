import Mathlib

/-!
The packed types of `ckb-types` that the modelled code reads. Hashes (`Byte32`) are an abstract type
`H`; its `default` value is the all-zero hash, as `Byte32::default()` is in the source. Byte strings
are lists of bytes, and `u32`/`u64` fields are natural numbers: nothing below depends on their
width unless a definition says so.
-/

namespace Ckb

def u32Max : Nat := 2 ^ 32 - 1

/-- `u64::MAX`, and `usize::MAX` on the 64-bit targets the node is built for. -/
def u64Max : Nat := 2 ^ 64 - 1

/-- `usize::saturating_add` and `u64::saturating_add`. -/
def saturatingAdd (a b : Nat) : Nat := min (a + b) u64Max

def saturatingMul (a b : Nat) : Nat := min (a * b) u64Max

/-- `checked_add` on a 64-bit integer. It is also `a + b` in a build with `overflow-checks`, where
`none` is the panic. -/
def checkedAdd (a b : Nat) : Option Nat := if a + b ≤ u64Max then some (a + b) else none

theorem checkedAdd_eq_some {a b c : Nat} : checkedAdd a b = some c ↔ a + b ≤ u64Max ∧ a + b = c := by
  unfold checkedAdd
  split_ifs with fits <;> simp [fits]

/-- `a * b` on `u64` in a build with `overflow-checks`: `none` is the panic. -/
def checkedMul (a b : Nat) : Option Nat := if a * b ≤ u64Max then some (a * b) else none

/-- `checked_sub` on an unsigned integer. -/
def checkedSub (a b : Nat) : Option Nat := if b ≤ a then some (a - b) else none

theorem checkedSub_eq_some {a b c : Nat} : checkedSub a b = some c ↔ b ≤ a ∧ a - b = c := by
  unfold checkedSub
  split_ifs with within <;> simp [within]

/-- `ckb_types::core::Ratio`: `numer / denom`. -/
structure Ratio where
  numer : Nat
  denom : Nat
deriving DecidableEq, Repr

/-- A reference to the output `index` of the transaction with hash `txHash`. -/
structure OutPoint (H : Type) where
  txHash : H
  index : Nat
deriving DecidableEq, Repr

/-- `OutPoint::null()`: the zero hash with index `u32::MAX`. -/
def OutPoint.null {H : Type} [Inhabited H] : OutPoint H := ⟨default, u32Max⟩

def OutPoint.isNull {H : Type} [Inhabited H] [DecidableEq H] (o : OutPoint H) : Bool :=
  o.txHash = default && o.index = u32Max

structure CellInput (H : Type) where
  previousOutput : OutPoint H
  since : Nat
deriving DecidableEq, Repr

inductive DepType where
  | code
  | depGroup
deriving DecidableEq, Repr

structure CellDep (H : Type) where
  outPoint : OutPoint H
  depType : DepType
deriving DecidableEq, Repr

inductive ScriptHashType where
  | data
  | type
  | data1
  | data2
deriving DecidableEq, Repr

structure Script (H : Type) where
  codeHash : H
  hashType : ScriptHashType
  args : List UInt8
deriving DecidableEq, Repr

structure CellOutput (H : Type) where
  capacity : Nat
  lock : Script H
  type : Option (Script H)
deriving DecidableEq, Repr

/-- A transaction together with the hash `TransactionView` caches. -/
structure TransactionView (H : Type) where
  hash : H
  cellDeps : List (CellDep H)
  headerDeps : List H
  inputs : List (CellInput H)
  outputs : List (CellOutput H)
  outputsData : List (List UInt8)
  witnesses : List (List UInt8)
deriving DecidableEq, Repr

namespace TransactionView

variable {H : Type}

/-- `input_pts_iter`: the out points the inputs spend. -/
def inputPts (tx : TransactionView H) : List (OutPoint H) :=
  tx.inputs.map (·.previousOutput)

/-- `output_pts`: the out points of the transaction's own outputs. -/
def outputPts (tx : TransactionView H) : List (OutPoint H) :=
  (List.range tx.outputs.length).map fun index => ⟨tx.hash, index⟩

def cellDepPts (tx : TransactionView H) : List (OutPoint H) :=
  tx.cellDeps.map (·.outPoint)

/-- `Transaction::is_cellbase`: one input, spending the null out point, and one witness. -/
def isCellbase [Inhabited H] [DecidableEq H] (tx : TransactionView H) : Bool :=
  match tx.inputs with
  | [input] => tx.witnesses.length = 1 && input.previousOutput.isNull
  | _ => false

/-- The out points a transaction spends: its inputs, and none for a cellbase. -/
def spentOutPoints [Inhabited H] [DecidableEq H] (tx : TransactionView H) : List (OutPoint H) :=
  if tx.isCellbase then [] else tx.inputPts

/-- `output_with_data(index)`: `none` inside for an index past the outputs; the outer `none` is the
panic of `should_be_ok` for an output without data. -/
def outputWithData (tx : TransactionView H) (index : Nat) : Option (Option (CellOutput H × List UInt8)) :=
  match tx.outputs[index]? with
  | none => some none
  | some output => tx.outputsData[index]?.map fun data => some (output, data)

theorem mem_outputPts {tx : TransactionView H} {o : OutPoint H} :
    o ∈ tx.outputPts ↔ o.txHash = tx.hash ∧ o.index < tx.outputs.length := by
  cases o
  simp [outputPts, eq_comm, and_comm]

end TransactionView

/-- `OutPointError`: why an out point or a header dependency could not be used. -/
inductive OutPointError (H : Type) where
  | dead (outPoint : OutPoint H)
  | unknown (outPoint : OutPoint H)
  | outOfOrder (outPoint : OutPoint H)
  | invalidDepGroup (outPoint : OutPoint H)
  | invalidHeader (hash : H)
  | overMaxDepExpansionLimit
deriving DecidableEq, Repr

/-- Where a transaction sits on the main chain. The epoch is the packed `EpochNumberWithFraction`. -/
structure TransactionInfo (H : Type) where
  blockHash : H
  blockNumber : Nat
  blockEpoch : Nat
  index : Nat
deriving DecidableEq, Repr

/-- A resolved cell: its output, where it is, and its data when it was loaded. -/
structure CellMeta (H : Type) where
  cellOutput : CellOutput H
  outPoint : OutPoint H
  transactionInfo : Option (TransactionInfo H)
  dataBytes : Nat
  memCellData : Option (List UInt8)
  memCellDataHash : Option H
deriving DecidableEq, Repr

structure ResolvedTransaction (H : Type) where
  transaction : TransactionView H
  resolvedCellDeps : List (CellMeta H)
  resolvedInputs : List (CellMeta H)
  resolvedDepGroups : List (CellMeta H)
deriving DecidableEq, Repr

/-- `ResolvedTransaction::related_dep_out_points`: cell deps first, then dep groups. -/
def ResolvedTransaction.relatedDepOutPoints {H : Type} (rtx : ResolvedTransaction H) :
    List (OutPoint H) :=
  rtx.resolvedCellDeps.map (·.outPoint) ++ rtx.resolvedDepGroups.map (·.outPoint)

end Ckb
