import Ckb.Cell.Resolve

/-!
`ResolvedTransaction::check`: whether the cells of an already resolved transaction are still
usable. It asks a `CellChecker` about out points alone, remembers the out points it has found live,
and while `SYSTEM_CELL` is set skips the deps it recognises as system cells by their out point.
-/

namespace Ckb

namespace Cell

variable {H : Type}

/-- The trait `CellChecker`: `some true` for a live cell, `some false` for a dead one, `none` when
the out point is unknown. -/
structure CellChecker (H : Type) where
  isLive : OutPoint H → Option Bool

variable [DecidableEq H] (cellChecker : CellChecker H) (seenInputs : Finset (OutPoint H))

/-- The closure `check_cell` over the set `checked_cells`. -/
def checkCell (checkedCells : Finset (OutPoint H)) (outPoint : OutPoint H) :
    Except (OutPointError H) (Finset (OutPoint H)) :=
  if outPoint ∈ seenInputs then .error (.dead outPoint)
  else if outPoint ∈ checkedCells then .ok checkedCells
  else
    match cellChecker.isLive outPoint with
    | some true => .ok (insert outPoint checkedCells)
    | some false => .error (.dead outPoint)
    | none => .error (.unknown outPoint)

def checkCellMeta (checkedCells : Finset (OutPoint H)) (cellMeta : CellMeta H) :
    Except (OutPointError H) (Finset (OutPoint H)) :=
  checkCell cellChecker seenInputs checkedCells cellMeta.outPoint

/-- One dep group while `SYSTEM_CELL` is set: a system dep group adds its members to
`resolved_system_deps`, any other is checked. -/
def checkDepGroup (cache : SystemCellMap H) (acc : Finset (OutPoint H) × Finset (OutPoint H))
    (cellMeta : CellMeta H) : Except (OutPointError H) (Finset (OutPoint H) × Finset (OutPoint H)) :=
  match cache.lookup ⟨cellMeta.outPoint, .depGroup⟩ with
  | some (.group _ cellDeps) => .ok (acc.1, acc.2 ∪ (cellDeps.map (·.outPoint)).toFinset)
  | _ => do
    let checkedCells ← checkCellMeta cellChecker seenInputs acc.1 cellMeta
    pure (checkedCells, acc.2)

/-- One cell dep while `SYSTEM_CELL` is set: checked unless its out point is a system code cell
or a member of a system dep group. -/
def checkCellDep (cache : SystemCellMap H) (resolvedSystemDeps : Finset (OutPoint H))
    (checkedCells : Finset (OutPoint H)) (cellMeta : CellMeta H) :
    Except (OutPointError H) (Finset (OutPoint H)) :=
  if (cache.lookup ⟨cellMeta.outPoint, .code⟩).isNone ∧ cellMeta.outPoint ∉ resolvedSystemDeps then
    checkCellMeta cellChecker seenInputs checkedCells cellMeta
  else .ok checkedCells

variable (systemCell : Option (SystemCellMap H))

/-- The dep part of `check`: the dep groups first, then the cell deps, with the cache; all deps
without it. -/
def checkDeps (rtx : ResolvedTransaction H) (checkedCells : Finset (OutPoint H)) :
    Except (OutPointError H) (Finset (OutPoint H)) :=
  match systemCell with
  | some cache => do
    let groups ← rtx.resolvedDepGroups.foldlM (checkDepGroup cellChecker seenInputs cache) (checkedCells, ∅)
    rtx.resolvedCellDeps.foldlM (checkCellDep cellChecker seenInputs cache groups.2) groups.1
  | none => (rtx.resolvedCellDeps ++ rtx.resolvedDepGroups).foldlM (checkCellMeta cellChecker seenInputs) checkedCells

end Cell

open Cell

variable {H : Type} [DecidableEq H] (systemCell : Option (SystemCellMap H))

/-- `ResolvedTransaction::check`, returning its result with the final `seen_inputs`. -/
def ResolvedTransaction.check (rtx : ResolvedTransaction H) (seenInputs : Finset (OutPoint H))
    (cellChecker : CellChecker H) (headerChecker : HeaderChecker H) :
    Except (OutPointError H) Unit × Finset (OutPoint H) :=
  match (do
      let checkedCells ← rtx.resolvedInputs.foldlM (checkCellMeta cellChecker seenInputs) ∅
      let _ ← checkDeps cellChecker seenInputs systemCell rtx checkedCells
      checkHeaderDeps headerChecker rtx.transaction.headerDeps : Except (OutPointError H) Unit) with
  | .ok () => (.ok (), seenInputs ∪ (rtx.resolvedInputs.map (·.outPoint)).toFinset)
  | .error e => (.error e, seenInputs)

end Ckb
