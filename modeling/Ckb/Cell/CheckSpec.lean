import Ckb.Cell.Check
import Ckb.Cell.SeenInputs

namespace Ckb.Cell

open ExceptT

variable {H : Type} [DecidableEq H]

/-- A checker that says of every out point what the provider says of it. -/
def CellChecker.Agrees (cellChecker : CellChecker H) (cellProvider : CellProvider H) : Prop :=
  ∀ outPoint eagerLoad,
    (cellChecker.isLive outPoint = some true ↔ ∃ cellMeta, cellProvider.cell outPoint eagerLoad = .live cellMeta) ∧
    (cellChecker.isLive outPoint = some false ↔ cellProvider.cell outPoint eagerLoad = .dead) ∧
    (cellChecker.isLive outPoint = none ↔ cellProvider.cell outPoint eagerLoad = .unknown)

/-- A cache as `setup_system_cell_cache` builds it: a code dep holds the cell at its out point, a
dep group the group cell at its out point with its members. -/
def SystemCellWellFormed (systemCell : Option (SystemCellMap H)) : Prop :=
  ∀ cache, systemCell = some cache → ∀ cellDep resolved, cache.lookup cellDep = some resolved →
    (cellDep.depType = .code ∧ ∃ cellMeta, resolved = .cell cellMeta ∧ cellMeta.outPoint = cellDep.outPoint) ∨
    (cellDep.depType = .depGroup ∧ ∃ depGroup cellDeps, resolved = .group depGroup cellDeps ∧
      depGroup.outPoint = cellDep.outPoint)

/-- An out point of a system cell: a key of the cache, or one of the cells it holds. -/
def SystemOutPoint (systemCell : Option (SystemCellMap H)) (outPoint : OutPoint H) : Prop :=
  ∃ cache, systemCell = some cache ∧ ∃ cellDep resolved, cache.lookup cellDep = some resolved ∧
    (cellDep.outPoint = outPoint ∨ ∃ cellMeta ∈ resolved.cellMetas, cellMeta.outPoint = outPoint)

/-- The cache holds a dep group under this out point. -/
def IsSystemGroup (cache : SystemCellMap H) (outPoint : OutPoint H) : Prop :=
  ∃ depGroup cellDeps, cache.lookup ⟨outPoint, .depGroup⟩ = some (.group depGroup cellDeps)

/-- The members recognised as system deps once the dep groups `groups` are passed:
`resolved_system_deps`. -/
def systemDeps (cache : SystemCellMap H) (groups : List (CellMeta H)) : Finset (OutPoint H) :=
  groups.foldl (fun resolvedSystemDeps depGroup =>
    match cache.lookup ⟨depGroup.outPoint, .depGroup⟩ with
    | some (.group _ cellDeps) => resolvedSystemDeps ∪ (cellDeps.map (·.outPoint)).toFinset
    | _ => resolvedSystemDeps) ∅

/-- The out points `check` tests: the inputs, the dep groups that are not system dep groups, and
the cell deps that are neither system code cells nor members of a system dep group. Without the
cache every dep is tested. -/
def Tested (systemCell : Option (SystemCellMap H)) (rtx : ResolvedTransaction H) (outPoint : OutPoint H) : Prop :=
  (∃ cellMeta ∈ rtx.resolvedInputs, cellMeta.outPoint = outPoint) ∨
  (∃ depGroup ∈ rtx.resolvedDepGroups, depGroup.outPoint = outPoint ∧ ¬ IsSystemGroup (systemCell.getD ∅) outPoint) ∨
  (∃ cellMeta ∈ rtx.resolvedCellDeps, cellMeta.outPoint = outPoint ∧
    (systemCell.getD ∅).lookup ⟨outPoint, .code⟩ = none ∧ outPoint ∉ systemDeps (systemCell.getD ∅) rtx.resolvedDepGroups)

section SystemDeps

variable {cache : SystemCellMap H}

theorem systemDeps_concat (groups : List (CellMeta H)) (depGroup : CellMeta H) :
    systemDeps cache (groups ++ [depGroup]) =
      match cache.lookup ⟨depGroup.outPoint, .depGroup⟩ with
      | some (.group _ cellDeps) => systemDeps cache groups ∪ (cellDeps.map (·.outPoint)).toFinset
      | _ => systemDeps cache groups := by
  simp [systemDeps, List.foldl_append]

theorem systemDeps_concat_of_group {groups : List (CellMeta H)} {depGroup cached : CellMeta H}
    {cellDeps : List (CellMeta H)}
    (found : cache.lookup ⟨depGroup.outPoint, .depGroup⟩ = some (.group cached cellDeps)) :
    systemDeps cache (groups ++ [depGroup]) = systemDeps cache groups ∪ (cellDeps.map (·.outPoint)).toFinset := by
  rw [systemDeps_concat, found]

theorem systemDeps_concat_of_not_group {groups : List (CellMeta H)} {depGroup : CellMeta H}
    (notGroup : ∀ cached cellDeps, cache.lookup ⟨depGroup.outPoint, .depGroup⟩ ≠ some (.group cached cellDeps)) :
    systemDeps cache (groups ++ [depGroup]) = systemDeps cache groups := by
  rw [systemDeps_concat]
  split
  · rename_i cached cellDeps found
    exact absurd found (notGroup cached cellDeps)
  · rfl

theorem mem_systemDeps {groups : List (CellMeta H)} {outPoint : OutPoint H} :
    outPoint ∈ systemDeps cache groups ↔ ∃ depGroup ∈ groups, ∃ cached cellDeps,
      cache.lookup ⟨depGroup.outPoint, .depGroup⟩ = some (.group cached cellDeps) ∧
      ∃ cellMeta ∈ cellDeps, cellMeta.outPoint = outPoint := by
  induction groups using List.reverseRecOn with
  | nil => simp [systemDeps]
  | append_singleton groups depGroup ih =>
    rw [systemDeps_concat]
    split
    · rename_i cached cellDeps found
      simp [ih, found, or_and_right, exists_or]
    · rename_i notGroup
      simp only [ih, List.mem_append, List.mem_singleton]
      constructor
      · rintro ⟨g, member, rest⟩
        exact ⟨g, .inl member, rest⟩
      · rintro ⟨g, member | rfl, cached, cellDeps, found, rest⟩
        · exact ⟨g, member, cached, cellDeps, found, rest⟩
        · exact absurd found (notGroup cached cellDeps)

theorem systemDeps_mono {groups : List (CellMeta H)} (extra : List (CellMeta H)) :
    systemDeps cache groups ⊆ systemDeps cache (groups ++ extra) := by
  intro outPoint member
  obtain ⟨depGroup, inGroups, rest⟩ := mem_systemDeps.mp member
  exact mem_systemDeps.mpr ⟨depGroup, List.mem_append_left _ inGroups, rest⟩

end SystemDeps

section Check

variable {cellChecker : CellChecker H} {seenInputs : Finset (OutPoint H)}

variable (cellChecker seenInputs) in
/-- What `check_cell` accepts: an unspent out point the checker finds live. -/
def Passes (outPoint : OutPoint H) : Prop :=
  outPoint ∉ seenInputs ∧ cellChecker.isLive outPoint = some true

variable (cellChecker) in
/-- `checked_cells` holds only out points found live. -/
def CheckedLive (checkedCells : Finset (OutPoint H)) : Prop :=
  ∀ outPoint ∈ checkedCells, cellChecker.isLive outPoint = some true

variable (seenInputs) in
theorem checkCell_ok {checkedCells : Finset (OutPoint H)} (outPoint : OutPoint H)
    (live : CheckedLive cellChecker checkedCells) :
    ((∃ checked, checkCell cellChecker seenInputs checkedCells outPoint = .ok checked) ↔
      Passes cellChecker seenInputs outPoint) ∧
      ∀ checked, checkCell cellChecker seenInputs checkedCells outPoint = .ok checked →
        CheckedLive cellChecker checked := by
  unfold checkCell Passes
  split_ifs with spent remembered
  · simp [spent]
  · exact ⟨by simp [spent, live outPoint remembered], fun _ found => by cases found; exact live⟩
  · cases found : cellChecker.isLive outPoint with
    | none => simp [spent]
    | some isLive =>
      cases isLive
      · simp [spent]
      · refine ⟨by simp [spent], fun checked ok => ?_⟩
        simp only [Except.ok.injEq] at ok
        subst ok
        intro outPoint' member
        rcases Finset.mem_insert.mp member with rfl | old
        · exact found
        · exact live outPoint' old

variable (seenInputs) in
theorem foldlM_checkCellMeta_ok (cellMetas : List (CellMeta H)) {checkedCells : Finset (OutPoint H)}
    (live : CheckedLive cellChecker checkedCells) :
    ((∃ checked, cellMetas.foldlM (checkCellMeta cellChecker seenInputs) checkedCells = .ok checked) ↔
      ∀ cellMeta ∈ cellMetas, Passes cellChecker seenInputs cellMeta.outPoint) ∧
      ∀ checked, cellMetas.foldlM (checkCellMeta cellChecker seenInputs) checkedCells = .ok checked →
        CheckedLive cellChecker checked :=
  Except.foldlM_ok_iff (f := checkCellMeta cellChecker seenInputs) (fun _ checked => CheckedLive cellChecker checked)
    (fun cellMeta : CellMeta H => Passes cellChecker seenInputs cellMeta.outPoint) cellMetas
    (fun _ _ _ _ _ live stepped => (checkCell_ok seenInputs _ live).2 _ stepped)
    (fun _ _ _ _ live => (checkCell_ok seenInputs _ live).1) live

variable (seenInputs) in
/-- The dep group loop succeeds exactly when every group is a system dep group or passes, and
collects the system deps. -/
theorem foldlM_checkDepGroup_ok (cache : SystemCellMap H) (groups : List (CellMeta H))
    {checkedCells : Finset (OutPoint H)} (live : CheckedLive cellChecker checkedCells) :
    ((∃ acc, groups.foldlM (checkDepGroup cellChecker seenInputs cache) (checkedCells, ∅) = .ok acc) ↔
      ∀ depGroup ∈ groups, IsSystemGroup cache depGroup.outPoint ∨ Passes cellChecker seenInputs depGroup.outPoint) ∧
      ∀ acc, groups.foldlM (checkDepGroup cellChecker seenInputs cache) (checkedCells, ∅) = .ok acc →
        CheckedLive cellChecker acc.1 ∧ acc.2 = systemDeps cache groups := by
  refine Except.foldlM_ok_iff
    (fun done (acc : Finset (OutPoint H) × Finset (OutPoint H)) =>
      CheckedLive cellChecker acc.1 ∧ acc.2 = systemDeps cache done)
    _ groups (fun done depGroup acc acc' _ ⟨live, deps⟩ stepped => ?_) (fun done depGroup acc _ ⟨live, _⟩ => ?_)
    ⟨live, rfl⟩
  · unfold checkDepGroup at stepped
    split at stepped
    · rename_i cached cellDeps found
      simp only [Except.ok.injEq] at stepped
      subst stepped
      simp [systemDeps_concat_of_group found, live, deps]
    · rename_i notGroup
      cases checked : checkCellMeta cellChecker seenInputs acc.1 depGroup with
      | error e => simp [checked] at stepped
      | ok checkedCells' =>
        rw [checked] at stepped
        cases stepped
        refine ⟨(checkCell_ok seenInputs _ live).2 _ checked, ?_⟩
        rw [systemDeps_concat_of_not_group notGroup]
        exact deps
  · unfold checkDepGroup IsSystemGroup
    split
    · rename_i cached cellDeps found
      simp [found]
    · rename_i notGroup
      have noGroup : ¬ ∃ cached cellDeps,
          cache.lookup ⟨depGroup.outPoint, .depGroup⟩ = some (.group cached cellDeps) :=
        fun ⟨cached, cellDeps, found⟩ => notGroup cached cellDeps found
      rw [← (checkCell_ok seenInputs depGroup.outPoint live).1]
      cases checked : checkCellMeta cellChecker seenInputs acc.1 depGroup <;>
        simp_all [checkCellMeta]

theorem foldlM_checkCellDep_ok (cache : SystemCellMap H) (resolvedSystemDeps : Finset (OutPoint H))
    (cellDeps : List (CellMeta H)) {checkedCells : Finset (OutPoint H)} (live : CheckedLive cellChecker checkedCells) :
    (∃ checked, cellDeps.foldlM (checkCellDep cellChecker seenInputs cache resolvedSystemDeps) checkedCells = .ok checked) ↔
      ∀ cellMeta ∈ cellDeps, (cache.lookup ⟨cellMeta.outPoint, .code⟩).isSome ∨
        cellMeta.outPoint ∈ resolvedSystemDeps ∨ Passes cellChecker seenInputs cellMeta.outPoint := by
  refine (Except.foldlM_ok_iff (fun _ checked => CheckedLive cellChecker checked) _ cellDeps
    (fun _ cellMeta checked checked' _ live stepped => ?_) (fun _ cellMeta checked _ live => ?_) live).1
  · unfold checkCellDep at stepped
    split_ifs at stepped
    · exact (checkCell_ok seenInputs _ live).2 _ stepped
    · cases stepped
      exact live
  · unfold checkCellDep
    split_ifs with tested
    · obtain ⟨notCode, notSystem⟩ := tested
      have uncached : (cache.lookup ⟨cellMeta.outPoint, .code⟩).isSome = false := by simpa using notCode
      simpa [uncached, notSystem, checkCellMeta] using (checkCell_ok seenInputs cellMeta.outPoint live).1
    · refine ⟨fun _ => ?_, fun _ => ⟨checked, rfl⟩⟩
      by_cases cached : (cache.lookup ⟨cellMeta.outPoint, .code⟩).isSome
      · exact .inl cached
      · refine .inr (.inl ?_)
        by_contra notSystem
        exact tested ⟨by simpa using cached, notSystem⟩

theorem systemDeps_empty (groups : List (CellMeta H)) : systemDeps (∅ : SystemCellMap H) groups = ∅ := by
  ext outPoint
  simp [mem_systemDeps, Finmap.lookup_empty]

theorem not_isSystemGroup_empty (outPoint : OutPoint H) : ¬ IsSystemGroup (∅ : SystemCellMap H) outPoint := by
  simp [IsSystemGroup, Finmap.lookup_empty]

variable (systemCell : Option (SystemCellMap H))

/-- The dep part of `check` succeeds exactly when every dep it does not skip as a system cell
passes; without the cache it skips none. -/
theorem checkDeps_ok (rtx : ResolvedTransaction H) {checkedCells : Finset (OutPoint H)}
    (live : CheckedLive cellChecker checkedCells) :
    (∃ checked, checkDeps cellChecker seenInputs systemCell rtx checkedCells = .ok checked) ↔
      (∀ depGroup ∈ rtx.resolvedDepGroups, IsSystemGroup (systemCell.getD ∅) depGroup.outPoint ∨
        Passes cellChecker seenInputs depGroup.outPoint) ∧
      ∀ cellMeta ∈ rtx.resolvedCellDeps, ((systemCell.getD ∅).lookup ⟨cellMeta.outPoint, .code⟩).isSome ∨
        cellMeta.outPoint ∈ systemDeps (systemCell.getD ∅) rtx.resolvedDepGroups ∨
        Passes cellChecker seenInputs cellMeta.outPoint := by
  unfold checkDeps
  cases systemCell with
  | some cache =>
    obtain ⟨groupsOk, groupsDone⟩ := foldlM_checkDepGroup_ok seenInputs cache rtx.resolvedDepGroups live
    simp only [Option.getD_some]
    constructor
    · rintro ⟨checked, ran⟩
      cases groups : rtx.resolvedDepGroups.foldlM (checkDepGroup cellChecker seenInputs cache) (checkedCells, ∅) with
      | error e =>
        rw [groups] at ran
        cases ran
      | ok acc =>
        rw [groups] at ran
        obtain ⟨liveAcc, deps⟩ := groupsDone acc groups
        refine ⟨groupsOk.mp ⟨acc, groups⟩, ?_⟩
        rw [← deps]
        exact (foldlM_checkCellDep_ok cache acc.2 rtx.resolvedCellDeps liveAcc).mp ⟨checked, ran⟩
    · rintro ⟨groupsPass, depsPass⟩
      obtain ⟨acc, groups⟩ := groupsOk.mpr groupsPass
      obtain ⟨liveAcc, deps⟩ := groupsDone acc groups
      rw [groups]
      exact (foldlM_checkCellDep_ok cache acc.2 rtx.resolvedCellDeps liveAcc).mpr (deps ▸ depsPass)
  | none =>
    simp only [Option.getD_none, not_isSystemGroup_empty, false_or, Finmap.lookup_empty, Option.isSome_none,
      Bool.false_eq_true, systemDeps_empty, Finset.notMem_empty]
    rw [(foldlM_checkCellMeta_ok seenInputs _ live).1, List.forall_mem_append, and_comm]

theorem check_ok_iff (rtx : ResolvedTransaction H) (headerChecker : HeaderChecker H) :
    (rtx.check systemCell seenInputs cellChecker headerChecker).1 = .ok () ↔
      (∀ outPoint, Tested systemCell rtx outPoint → Passes cellChecker seenInputs outPoint) ∧
        checkHeaderDeps headerChecker rtx.transaction.headerDeps = .ok () := by
  have live₀ : CheckedLive cellChecker ∅ := fun _ member => (Finset.notMem_empty _ member).elim
  obtain ⟨inputsOk, inputsDone⟩ := foldlM_checkCellMeta_ok seenInputs rtx.resolvedInputs live₀
  -- the tested out points, split as `check` meets them
  have tested : (∀ outPoint, Tested systemCell rtx outPoint → Passes cellChecker seenInputs outPoint) ↔
      (∀ cellMeta ∈ rtx.resolvedInputs, Passes cellChecker seenInputs cellMeta.outPoint) ∧
      (∀ depGroup ∈ rtx.resolvedDepGroups, IsSystemGroup (systemCell.getD ∅) depGroup.outPoint ∨
        Passes cellChecker seenInputs depGroup.outPoint) ∧
      ∀ cellMeta ∈ rtx.resolvedCellDeps, ((systemCell.getD ∅).lookup ⟨cellMeta.outPoint, .code⟩).isSome ∨
        cellMeta.outPoint ∈ systemDeps (systemCell.getD ∅) rtx.resolvedDepGroups ∨
        Passes cellChecker seenInputs cellMeta.outPoint := by
    constructor
    · intro passes
      refine ⟨fun cellMeta member => passes _ (.inl ⟨cellMeta, member, rfl⟩),
        fun depGroup member => ?_, fun cellMeta member => ?_⟩
      · by_cases system : IsSystemGroup (systemCell.getD ∅) depGroup.outPoint
        · exact .inl system
        · exact .inr (passes _ (.inr (.inl ⟨depGroup, member, rfl, system⟩)))
      · by_cases cached : ((systemCell.getD ∅).lookup ⟨cellMeta.outPoint, .code⟩).isSome
        · exact .inl cached
        · by_cases member' : cellMeta.outPoint ∈ systemDeps (systemCell.getD ∅) rtx.resolvedDepGroups
          · exact .inr (.inl member')
          · exact .inr (.inr (passes _ (.inr (.inr ⟨cellMeta, member, rfl, by simpa using cached, member'⟩))))
    · rintro ⟨inputs, groups, deps⟩ outPoint (⟨cellMeta, member, rfl⟩ | ⟨depGroup, member, rfl, system⟩ |
        ⟨cellMeta, member, rfl, uncached, notSystem⟩)
      · exact inputs cellMeta member
      · exact (groups depGroup member).resolve_left system
      · rcases deps cellMeta member with cached | inSystem | passes
        · simp [uncached] at cached
        · exact absurd inSystem notSystem
        · exact passes
  unfold ResolvedTransaction.check
  rw [tested]
  -- the result is `ok` exactly when the do block is
  split
  · rename_i ran
    obtain ⟨checked, inputs, checked', deps, headers⟩ := by simpa only [Except.bind_eq_ok] using ran
    simp only [true_iff]
    exact ⟨⟨inputsOk.mp ⟨checked, inputs⟩,
      (checkDeps_ok systemCell rtx (inputsDone checked inputs)).mp ⟨checked', deps⟩⟩, headers⟩
  · rename_i e ran
    simp only [reduceCtorEq, false_iff]
    rintro ⟨⟨inputsPass, depsPass⟩, headers⟩
    obtain ⟨checked, inputs⟩ := inputsOk.mpr inputsPass
    obtain ⟨checked', deps⟩ := (checkDeps_ok systemCell rtx (inputsDone checked inputs)).mpr depsPass
    have passing := ran.symm.trans
      (Except.bind_eq_ok.mpr ⟨checked, inputs, Except.bind_eq_ok.mpr ⟨checked', deps, headers⟩⟩)
    cases passing

theorem check_snd_of_ok {rtx : ResolvedTransaction H} {headerChecker : HeaderChecker H}
    (ok : (rtx.check systemCell seenInputs cellChecker headerChecker).1 = .ok ()) :
    (rtx.check systemCell seenInputs cellChecker headerChecker).2 =
      seenInputs ∪ (rtx.resolvedInputs.map (·.outPoint)).toFinset := by
  unfold ResolvedTransaction.check at ok ⊢
  split <;> simp_all

end Check

end Ckb.Cell
