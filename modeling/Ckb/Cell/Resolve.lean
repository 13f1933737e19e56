import Ckb.Types.Molecule
import Ckb.Support.FiniteMap
import Ckb.Support.ExceptOption

/-!
`resolve_transaction` (`ckb_types::core::cell`): the cells a transaction spends and depends on,
looked up in a `CellProvider` against the out points already spent in the block (`seen_inputs`).
Computations run in `ExceptT OutPointError Option`; `none` is the panic of
`expect("Load cell meta must with data")`. The static `SYSTEM_CELL` is the parameter `systemCell`,
`none` while it is unset.
-/

namespace Ckb.Cell

open ExceptT (okOr)
open Molecule (parseDepGroupData)

variable {H : Type}

inductive CellStatus (H : Type) where
  | live (cellMeta : CellMeta H)
  | dead
  | unknown
deriving DecidableEq, Repr

/-- The trait `CellProvider`; `eager_load` asks for the cell's data as well. -/
structure CellProvider (H : Type) where
  cell : OutPoint H → Bool → CellStatus H

/-- The trait `HeaderChecker`. -/
structure HeaderChecker (H : Type) where
  checkValid : H → Except (OutPointError H) Unit

inductive ResolvedDep (H : Type) where
  | cell (cellMeta : CellMeta H)
  | group (depGroup : CellMeta H) (cellDeps : List (CellMeta H))
deriving DecidableEq, Repr

abbrev SystemCellMap (H : Type) := FiniteMap (CellDep H) (ResolvedDep H)

def maxDepExpansionLimit : Nat := 2048

/-- The memo `resolved_cells`, keyed by out point and `eager_load`. -/
abbrev ResolvedCells (H : Type) := FiniteMap (OutPoint H × Bool) (CellMeta H)

/-- The locals the input loop of `resolve_transaction` updates. -/
structure InputsState (H : Type) where
  currentInputs : Finset (OutPoint H)
  resolvedInputs : List (CellMeta H)
  resolvedCells : ResolvedCells H

/-- The locals the dep resolution updates, with the budget `remaining_dep_slots`. -/
structure DepsState (H : Type) where
  resolvedCells : ResolvedCells H
  resolvedCellDeps : List (CellMeta H)
  resolvedDepGroups : List (CellMeta H)
  remainingDepSlots : Nat

/-- The header deps checked one by one, stopping at the first that is rejected. -/
def checkHeaderDeps (headerChecker : HeaderChecker H) (headerDeps : List H) :
    Except (OutPointError H) Unit :=
  headerDeps.forM headerChecker.checkValid

def chargeDepSlots (remainingDepSlots n : Nat) : ExceptT (OutPointError H) Option Nat :=
  liftExcept (okOr (checkedSub remainingDepSlots n) (OutPointError.overMaxDepExpansionLimit : OutPointError H))

variable [DecidableEq H] [Inhabited H] (byte32 : List UInt8 → H) (systemCell : Option (SystemCellMap H))
  (cellProvider : CellProvider H) (seenInputs : Finset (OutPoint H))

/-- The closure `resolve_cell`: a spent out point is dead; otherwise the memo answers, or the
provider, whose live answer is remembered. -/
def resolveCell (resolvedCells : ResolvedCells H) (outPoint : OutPoint H) (eagerLoad : Bool) :
    ExceptT (OutPointError H) Option (CellMeta H × ResolvedCells H) :=
  if outPoint ∈ seenInputs then throw (.dead outPoint)
  else
    match resolvedCells.lookup (outPoint, eagerLoad) with
    | some cellMeta => pure (cellMeta, resolvedCells)
    | none =>
      match cellProvider.cell outPoint eagerLoad with
      | .dead => throw (.dead outPoint)
      | .unknown => throw (.unknown outPoint)
      | .live cellMeta => pure (cellMeta, resolvedCells.insert (outPoint, eagerLoad) cellMeta)

/-- One pass of the input loop: an out point spent twice is dead, the others are resolved without
their data. -/
def resolveInput (st : InputsState H) (outPoint : OutPoint H) :
    ExceptT (OutPointError H) Option (InputsState H) :=
  if outPoint ∈ st.currentInputs then throw (.dead outPoint)
  else do
    let resolved ← resolveCell cellProvider seenInputs st.resolvedCells outPoint false
    pure ⟨insert outPoint st.currentInputs, st.resolvedInputs ++ [resolved.1], resolved.2⟩

/-- The input loop, skipped for a cellbase. -/
def resolveInputs (transaction : TransactionView H) :
    ExceptT (OutPointError H) Option (InputsState H) :=
  if !transaction.isCellbase then transaction.inputPts.foldlM (resolveInput cellProvider seenInputs) ⟨∅, [], ∅⟩
  else pure ⟨∅, [], ∅⟩

/-- One member of a dep group, resolved into the cell deps. -/
def resolveSubOutPoint (eagerLoad : Bool) (st : DepsState H) (subOutPoint : OutPoint H) :
    ExceptT (OutPointError H) Option (DepsState H) := do
  let resolved ← resolveCell cellProvider seenInputs st.resolvedCells subOutPoint eagerLoad
  pure { st with resolvedCellDeps := st.resolvedCellDeps ++ [resolved.1], resolvedCells := resolved.2 }

/-- `resolve_transaction_dep`: a dep group is loaded with its data, its member list parsed and
charged to the budget, and its members resolved; a code dep takes one slot and is resolved. -/
def resolveTransactionDep (eagerLoad : Bool) (st : DepsState H) (cellDep : CellDep H) :
    ExceptT (OutPointError H) Option (DepsState H) :=
  if cellDep.depType = .depGroup then do
    let depGroup ← resolveCell cellProvider seenInputs st.resolvedCells cellDep.outPoint true
    let data ← ExceptT.lift depGroup.1.memCellData
    let subOutPoints ← liftExcept (Except.mapError
      (fun _ => (OutPointError.invalidDepGroup cellDep.outPoint : OutPointError H)) (parseDepGroupData byte32 data))
    let remainingDepSlots ← chargeDepSlots st.remainingDepSlots subOutPoints.length
    let members ← subOutPoints.foldlM (resolveSubOutPoint cellProvider seenInputs eagerLoad)
      { st with resolvedCells := depGroup.2, remainingDepSlots := remainingDepSlots }
    pure { members with resolvedDepGroups := members.resolvedDepGroups ++ [depGroup.1] }
  else do
    let remainingDepSlots ← chargeDepSlots st.remainingDepSlots 1
    let resolved ← resolveCell cellProvider seenInputs st.resolvedCells cellDep.outPoint eagerLoad
    pure ⟨resolved.2, st.resolvedCellDeps ++ [resolved.1], st.resolvedDepGroups, remainingDepSlots⟩

/-- One cell dep while `SYSTEM_CELL` is set: a system cell is copied from the cache and charged to
the budget without a lookup; any other dep is resolved. -/
def resolveDepWithSystemCell (cache : SystemCellMap H) (st : DepsState H) (cellDep : CellDep H) :
    ExceptT (OutPointError H) Option (DepsState H) :=
  match cache.lookup cellDep with
  | some (.cell cellMeta) => do
    let remainingDepSlots ← chargeDepSlots st.remainingDepSlots 1
    pure { st with resolvedCellDeps := st.resolvedCellDeps ++ [cellMeta], remainingDepSlots := remainingDepSlots }
  | some (.group depGroup cellDeps) => do
    let remainingDepSlots ← chargeDepSlots st.remainingDepSlots cellDeps.length
    pure ⟨st.resolvedCells, st.resolvedCellDeps ++ cellDeps, st.resolvedDepGroups ++ [depGroup],
      remainingDepSlots⟩
  | none => resolveTransactionDep byte32 cellProvider seenInputs false st cellDep

/-- `resolve_transaction_deps_with_system_cell_cache`, starting from the memo the inputs left and
the full budget `MAX_DEP_EXPANSION_LIMIT`. -/
def resolveTransactionDepsWithSystemCellCache (transaction : TransactionView H)
    (resolvedCells : ResolvedCells H) : ExceptT (OutPointError H) Option (DepsState H) :=
  match systemCell with
  | some cache =>
    transaction.cellDeps.foldlM (resolveDepWithSystemCell byte32 cellProvider seenInputs cache)
      ⟨resolvedCells, [], [], maxDepExpansionLimit⟩
  | none =>
    transaction.cellDeps.foldlM (resolveTransactionDep byte32 cellProvider seenInputs false)
      ⟨resolvedCells, [], [], maxDepExpansionLimit⟩

/-- Everything `resolve_transaction` does before it extends `seen_inputs`: the resolved
transaction and the inputs it spends. -/
def resolveTransactionBody (transaction : TransactionView H) (headerChecker : HeaderChecker H) :
    ExceptT (OutPointError H) Option (ResolvedTransaction H × Finset (OutPoint H)) := do
  let inputs ← resolveInputs cellProvider seenInputs transaction
  let deps ← resolveTransactionDepsWithSystemCellCache byte32 systemCell cellProvider seenInputs transaction
    inputs.resolvedCells
  liftExcept (checkHeaderDeps headerChecker transaction.headerDeps)
  pure (⟨transaction, deps.resolvedCellDeps, inputs.resolvedInputs, deps.resolvedDepGroups⟩,
    inputs.currentInputs)

/-- `resolve_transaction`, returning its result with the final `seen_inputs`; `none` is a panic. -/
def resolveTransaction (transaction : TransactionView H) (seenInputs : Finset (OutPoint H))
    (cellProvider : CellProvider H) (headerChecker : HeaderChecker H) :
    Option (Except (OutPointError H) (ResolvedTransaction H) × Finset (OutPoint H)) :=
  match (resolveTransactionBody byte32 systemCell cellProvider seenInputs transaction headerChecker).run with
  | none => none
  | some (.error e) => some (.error e, seenInputs)
  | some (.ok (rtx, currentInputs)) => some (.ok rtx, seenInputs ∪ currentInputs)

/-- The loop of `resolve_block_transactions`: the block's transactions resolved in order against one
`seen_inputs`, stopping at the first error. `cellProvider` is the block's cells over the store. -/
def resolveBlockTransactions (cellProvider : CellProvider H) (headerChecker : HeaderChecker H) :
    List (TransactionView H) → Finset (OutPoint H) →
      Option (Except (OutPointError H) (List (ResolvedTransaction H)) × Finset (OutPoint H))
  | [], seenInputs => some (.ok [], seenInputs)
  | tx :: rest, seenInputs =>
    match resolveTransaction byte32 systemCell tx seenInputs cellProvider headerChecker with
    | none => none
    | some (.error e, seen) => some (.error e, seen)
    | some (.ok rtx, seen) =>
      match resolveBlockTransactions cellProvider headerChecker rest seen with
      | none => none
      | some (.error e, seen') => some (.error e, seen')
      | some (.ok rtxs, seen') => some (.ok (rtx :: rtxs), seen')

end Ckb.Cell
