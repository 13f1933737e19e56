import Ckb.Cell.CheckSpec

/-!
`ResolvedTransaction::check` against a new `resolve_transaction` of the transaction it resolved.
The memo of a resolution holds a key for every out point it looked up, and these are the out
points of the cells it resolved. `check` tests the same cells but skips those it recognises as
system cells. So the two reject the same out points of a `seen_inputs` that holds no system cell,
and on success both spend the transaction's inputs.
-/

namespace Ckb.Cell

open ExceptT

variable {H : Type} [DecidableEq H]

/-- Some key of the memo was looked up under this out point. -/
def Looked (resolvedCells : ResolvedCells H) (outPoint : OutPoint H) : Prop :=
  ∃ key ∈ resolvedCells, key.1 = outPoint

/-- Every remembered cell sits under the out point of its key. -/
def MemoHonest (resolvedCells : ResolvedCells H) : Prop :=
  ∀ key cellMeta, resolvedCells.lookup key = some cellMeta → cellMeta.outPoint = key.1

omit [DecidableEq H] in
theorem Looked.mono {resolvedCells resolvedCells' : ResolvedCells H} {outPoint : OutPoint H}
    (looked : Looked resolvedCells outPoint) (grows : ∀ key ∈ resolvedCells, key ∈ resolvedCells') :
    Looked resolvedCells' outPoint := by
  obtain ⟨key, member, rfl⟩ := looked
  exact ⟨key, grows key member, rfl⟩

theorem memoHonest_empty : MemoHonest (∅ : ResolvedCells H) := by
  intro key cellMeta found
  simp [Finmap.lookup_empty] at found

theorem MemoValid.isLive_of_looked {cellProvider : CellProvider H} {cellChecker : CellChecker H}
    {seenInputs : Finset (OutPoint H)} {resolvedCells : ResolvedCells H} {outPoint : OutPoint H}
    (agree : cellChecker.Agrees cellProvider) (valid : MemoValid cellProvider seenInputs resolvedCells)
    (looked : Looked resolvedCells outPoint) : cellChecker.isLive outPoint = some true := by
  obtain ⟨key, member, rfl⟩ := looked
  obtain ⟨cellMeta, found⟩ := Finmap.mem_iff.mp member
  exact (agree key.1 key.2).1.mpr ⟨cellMeta, valid.live key cellMeta found⟩

section Trace

variable {cellProvider : CellProvider H} {seenInputs : Finset (OutPoint H)}

/-- With an honest provider, `resolve_cell` returns a cell under the out point it was asked for,
keeps the memo honest and adds no key of another out point. -/
theorem resolveCell_traced (honest : cellProvider.Honest) {resolvedCells resolvedCells' : ResolvedCells H}
    {outPoint : OutPoint H} {eagerLoad : Bool} {cellMeta : CellMeta H} (memo : MemoHonest resolvedCells)
    (ran : (resolveCell cellProvider seenInputs resolvedCells outPoint eagerLoad).run =
      some (.ok (cellMeta, resolvedCells'))) :
    cellMeta.outPoint = outPoint ∧ MemoHonest resolvedCells' ∧ Looked resolvedCells' outPoint ∧
      ∀ key ∈ resolvedCells', key ∈ resolvedCells ∨ key.1 = outPoint := by
  have looked : Looked resolvedCells' outPoint := ⟨_, (resolveCell_keys ran).1, rfl⟩
  obtain ⟨-, ⟨remembered, rfl⟩ | ⟨-, live, rfl⟩⟩ := resolveCell_run_eq_ok.mp ran
  · exact ⟨memo _ _ remembered, memo, looked, fun key member => .inl member⟩
  · refine ⟨honest _ _ _ live, fun key cellMeta' found => ?_, looked, fun key member => ?_⟩
    · by_cases same : key = (outPoint, eagerLoad)
      · subst same
        simp only [Finmap.lookup_insert, Option.some.injEq] at found
        rw [← found]
        exact honest _ _ _ live
      · rw [Finmap.lookup_insert_of_ne _ same] at found
        exact memo key cellMeta' found
    · rcases Finmap.mem_insert.mp member with rfl | old
      · exact .inr rfl
      · exact .inl old

/-- What the input loop's memo records: a key for each resolved input, under its out point. -/
structure InputsTraced (st : InputsState H) : Prop where
  memo : MemoHonest st.resolvedCells
  current : st.currentInputs = (st.resolvedInputs.map (·.outPoint)).toFinset
  keys : ∀ key ∈ st.resolvedCells, ∃ cellMeta ∈ st.resolvedInputs, cellMeta.outPoint = key.1
  looked : ∀ cellMeta ∈ st.resolvedInputs, Looked st.resolvedCells cellMeta.outPoint

theorem inputsTraced_empty : InputsTraced (⟨∅, [], ∅⟩ : InputsState H) :=
  ⟨memoHonest_empty, rfl, fun _ member => (Finmap.notMem_empty member).elim, by simp⟩

theorem InputsTraced.resolveInput (honest : cellProvider.Honest) {st st' : InputsState H}
    {outPoint : OutPoint H} (traced : InputsTraced st)
    (ran : (Cell.resolveInput cellProvider seenInputs st outPoint).run = some (.ok st')) :
    InputsTraced st' := by
  obtain ⟨-, cellMeta, resolvedCells, resolved, rfl⟩ := resolveInput_run_eq_ok ran
  obtain ⟨same, memo, looked, fresh⟩ := resolveCell_traced honest traced.memo resolved
  refine ⟨memo, ?_, fun key member => ?_, fun cellMeta' member => ?_⟩
  · ext outPoint'
    simp [traced.current, same]
  · rcases fresh key member with old | sameKey
    · obtain ⟨cellMeta', inInputs, sameKey⟩ := traced.keys key old
      exact ⟨cellMeta', List.mem_append_left _ inInputs, sameKey⟩
    · exact ⟨cellMeta, List.mem_append_right _ (List.mem_singleton_self _), same.trans sameKey.symm⟩
  · rcases List.mem_append.mp member with old | new
    · exact (traced.looked cellMeta' old).mono (resolveCell_keys resolved).2
    · rw [List.mem_singleton.mp new, same]
      exact looked

variable [Inhabited H] in
theorem resolveInputs_traced (honest : cellProvider.Honest) {tx : TransactionView H} {st : InputsState H}
    (ran : (resolveInputs cellProvider seenInputs tx).run = some (.ok st)) : InputsTraced st := by
  unfold resolveInputs at ran
  split_ifs at ran
  · exact foldlM_run_ok_invariant _ tx.inputPts (fun _ _ _ _ traced stepped => traced.resolveInput honest stepped)
      inputsTraced_empty ran
  · rw [run_pure_eq_ok] at ran
    subst ran
    exact inputsTraced_empty

variable (cache : SystemCellMap H) (resolvedInputs : List (CellMeta H))

/-- What the dep loop's memo records beside the resolved inputs: every key is the out point of a
resolved cell, and every resolved cell was looked up unless `check` knows it as a system cell. -/
structure DepsTraced (st : DepsState H) : Prop where
  memo : MemoHonest st.resolvedCells
  keys : ∀ key ∈ st.resolvedCells,
    ∃ cellMeta ∈ resolvedInputs ++ st.resolvedCellDeps ++ st.resolvedDepGroups, cellMeta.outPoint = key.1
  looked : ∀ cellMeta ∈ resolvedInputs, Looked st.resolvedCells cellMeta.outPoint
  cellDeps : ∀ cellMeta ∈ st.resolvedCellDeps, Looked st.resolvedCells cellMeta.outPoint ∨
    (cache.lookup ⟨cellMeta.outPoint, .code⟩).isSome ∨ cellMeta.outPoint ∈ systemDeps cache st.resolvedDepGroups
  groups : ∀ depGroup ∈ st.resolvedDepGroups,
    Looked st.resolvedCells depGroup.outPoint ∨ IsSystemGroup cache depGroup.outPoint

theorem InputsTraced.depsStart {inputs : InputsState H} (traced : InputsTraced inputs) :
    DepsTraced cache inputs.resolvedInputs ⟨inputs.resolvedCells, [], [], maxDepExpansionLimit⟩ :=
  ⟨traced.memo, fun key member => by simpa using traced.keys key member, traced.looked, by simp, by simp⟩

variable {cache resolvedInputs}

/-- A step that only adds to the memo and to the two lists keeps the invariant once it accounts
for what it added. -/
theorem DepsTraced.grow {st st' : DepsState H} (traced : DepsTraced cache resolvedInputs st)
    (memo : MemoHonest st'.resolvedCells) (grows : ∀ key ∈ st.resolvedCells, key ∈ st'.resolvedCells)
    (extraDeps extraGroups : List (CellMeta H))
    (cellDepsGrow : st'.resolvedCellDeps = st.resolvedCellDeps ++ extraDeps)
    (groupsGrow : st'.resolvedDepGroups = st.resolvedDepGroups ++ extraGroups)
    (newKeys : ∀ key ∈ st'.resolvedCells, key ∉ st.resolvedCells →
      ∃ cellMeta ∈ extraDeps ++ extraGroups, cellMeta.outPoint = key.1)
    (newCellDeps : ∀ cellMeta ∈ extraDeps, Looked st'.resolvedCells cellMeta.outPoint ∨
      (cache.lookup ⟨cellMeta.outPoint, .code⟩).isSome ∨ cellMeta.outPoint ∈ systemDeps cache st'.resolvedDepGroups)
    (newGroups : ∀ depGroup ∈ extraGroups,
      Looked st'.resolvedCells depGroup.outPoint ∨ IsSystemGroup cache depGroup.outPoint) :
    DepsTraced cache resolvedInputs st' := by
  have kept : ∀ cellMeta ∈ resolvedInputs ++ st.resolvedCellDeps ++ st.resolvedDepGroups,
      cellMeta ∈ resolvedInputs ++ st'.resolvedCellDeps ++ st'.resolvedDepGroups := by
    simp only [cellDepsGrow, groupsGrow, List.mem_append]
    tauto
  refine ⟨memo, fun key member => ?_, fun cellMeta member => (traced.looked cellMeta member).mono grows,
    fun cellMeta member => ?_, fun depGroup member => ?_⟩
  · by_cases old : key ∈ st.resolvedCells
    · obtain ⟨cellMeta, inLists, same⟩ := traced.keys key old
      exact ⟨cellMeta, kept cellMeta inLists, same⟩
    · obtain ⟨cellMeta, inExtra, same⟩ := newKeys key member old
      refine ⟨cellMeta, ?_, same⟩
      simp only [cellDepsGrow, groupsGrow, List.mem_append] at inExtra ⊢
      tauto
  · rw [cellDepsGrow, List.mem_append] at member
    rcases member with old | new
    · rcases traced.cellDeps cellMeta old with looked | cached | inDeps
      · exact .inl (looked.mono grows)
      · exact .inr (.inl cached)
      · rw [groupsGrow]
        exact .inr (.inr (systemDeps_mono _ inDeps))
    · exact newCellDeps cellMeta new
  · rw [groupsGrow, List.mem_append] at member
    rcases member with old | new
    · exact (traced.groups depGroup old).imp_left fun looked => looked.mono grows
    · exact newGroups depGroup new

/-- The members of a dep group are appended to the cell deps, each looked up under its own out
point. -/
theorem resolveSubOutPoints_traced (honest : cellProvider.Honest) {eagerLoad : Bool}
    {subOutPoints : List (OutPoint H)} {st st' : DepsState H} (memo : MemoHonest st.resolvedCells)
    (ran : (subOutPoints.foldlM (resolveSubOutPoint cellProvider seenInputs eagerLoad) st).run = some (.ok st')) :
    MemoHonest st'.resolvedCells ∧ (∀ key ∈ st.resolvedCells, key ∈ st'.resolvedCells) ∧
      st'.resolvedDepGroups = st.resolvedDepGroups ∧
      ∃ extra, st'.resolvedCellDeps = st.resolvedCellDeps ++ extra ∧
        (∀ cellMeta ∈ extra, Looked st'.resolvedCells cellMeta.outPoint) ∧
        ∀ key ∈ st'.resolvedCells, key ∉ st.resolvedCells → ∃ cellMeta ∈ extra, cellMeta.outPoint = key.1 := by
  refine foldlM_run_ok_invariant (fun st' : DepsState H =>
      MemoHonest st'.resolvedCells ∧ (∀ key ∈ st.resolvedCells, key ∈ st'.resolvedCells) ∧
      st'.resolvedDepGroups = st.resolvedDepGroups ∧
      ∃ extra, st'.resolvedCellDeps = st.resolvedCellDeps ++ extra ∧
        (∀ cellMeta ∈ extra, Looked st'.resolvedCells cellMeta.outPoint) ∧
        ∀ key ∈ st'.resolvedCells, key ∉ st.resolvedCells → ∃ cellMeta ∈ extra, cellMeta.outPoint = key.1)
    subOutPoints ?_ ⟨memo, fun _ member => member, rfl, [], by simp, by simp, fun _ member old => absurd member old⟩ ran
  rintro b subOutPoint b' - ⟨memo, grows, groups, extra, cellDeps, looked, keys⟩ stepped
  obtain ⟨cellMeta, resolvedCells, resolved, rfl⟩ := resolveSubOutPoint_run_eq_ok stepped
  obtain ⟨same, memo', lookedSub, fresh⟩ := resolveCell_traced honest memo resolved
  have grows' := (resolveCell_keys resolved).2
  refine ⟨memo', fun key member => grows' key (grows key member), groups, extra ++ [cellMeta],
    by simp [cellDeps], fun cellMeta' member => ?_, fun key member old => ?_⟩
  · rcases List.mem_append.mp member with inExtra | new
    · exact (looked cellMeta' inExtra).mono grows'
    · rw [List.mem_singleton.mp new, same]
      exact lookedSub
  · rcases fresh key member with inB | sameKey
    · obtain ⟨cellMeta', inExtra, sameOutPoint⟩ := keys key inB old
      exact ⟨cellMeta', List.mem_append_left _ inExtra, sameOutPoint⟩
    · exact ⟨cellMeta, List.mem_append_right _ (List.mem_singleton_self _), same.trans sameKey.symm⟩

variable (byte32 : List UInt8 → H) in
/-- A dep resolved by the provider is looked up under its out point, and a dep group's members
under theirs. -/
theorem DepsTraced.resolveTransactionDep (honest : cellProvider.Honest) {eagerLoad : Bool} {st st' : DepsState H}
    {cellDep : CellDep H} (traced : DepsTraced cache resolvedInputs st)
    (ran : (Cell.resolveTransactionDep byte32 cellProvider seenInputs eagerLoad st cellDep).run = some (.ok st')) :
    DepsTraced cache resolvedInputs st' := by
  unfold Cell.resolveTransactionDep at ran
  split_ifs at ran with group
  · -- the group cell first, then its members on top of the memo it left
    obtain ⟨⟨depGroup, resolvedCells⟩, resolvedGroup, ran⟩ := run_bind_eq_ok.mp ran
    obtain ⟨_, -, ran⟩ := run_bind_eq_ok.mp ran
    obtain ⟨_, -, ran⟩ := run_bind_eq_ok.mp ran
    obtain ⟨_, -, ran⟩ := run_bind_eq_ok.mp ran
    obtain ⟨members, folded, finished⟩ := run_bind_eq_ok.mp ran
    rw [run_pure_eq_ok] at finished
    subst finished
    obtain ⟨sameGroup, memo₁, lookedGroup, freshGroup⟩ := resolveCell_traced honest traced.memo resolvedGroup
    obtain ⟨memo₂, grows₂, groups, extra, cellDeps, lookedMembers, freshMembers⟩ :=
      resolveSubOutPoints_traced honest memo₁ folded
    refine traced.grow memo₂ (fun key member => grows₂ key ((resolveCell_keys resolvedGroup).2 key member))
      extra [depGroup] cellDeps (by simp [groups]) (fun key member old => ?_) (fun cellMeta member => .inl (lookedMembers cellMeta member))
      (fun depGroup' member => .inl ?_)
    · by_cases inGroupMemo : key ∈ resolvedCells
      · rcases freshGroup key inGroupMemo with inOld | sameKey
        · exact absurd inOld old
        · exact ⟨depGroup, by simp, sameGroup.trans sameKey.symm⟩
      · obtain ⟨cellMeta, inExtra, same⟩ := freshMembers key member inGroupMemo
        exact ⟨cellMeta, List.mem_append_left _ inExtra, same⟩
    · rw [List.mem_singleton.mp member, sameGroup]
      exact lookedGroup.mono grows₂
  · -- a code dep: one cell, looked up under its out point
    obtain ⟨_, -, ran⟩ := run_bind_eq_ok.mp ran
    obtain ⟨⟨cellMeta, resolvedCells⟩, resolved, finished⟩ := run_bind_eq_ok.mp ran
    rw [run_pure_eq_ok] at finished
    subst finished
    obtain ⟨same, memo, looked, fresh⟩ := resolveCell_traced honest traced.memo resolved
    refine traced.grow memo (resolveCell_keys resolved).2 [cellMeta] [] rfl (by simp)
      (fun key member old => ?_) (fun cellMeta' member => .inl ?_) (by simp)
    · rcases fresh key member with inOld | sameKey
      · exact absurd inOld old
      · exact ⟨cellMeta, by simp, same.trans sameKey.symm⟩
    · rw [List.mem_singleton.mp member, same]
      exact looked

variable (byte32 : List UInt8 → H) in
/-- A dep copied from a cache as `setup_system_cell_cache` builds it is one `check` recognises as
a system cell. -/
theorem DepsTraced.resolveDepWithSystemCell (honest : cellProvider.Honest)
    (wellFormed : SystemCellWellFormed (some cache)) {st st' : DepsState H} {cellDep : CellDep H}
    (traced : DepsTraced cache resolvedInputs st)
    (ran : (Cell.resolveDepWithSystemCell byte32 cellProvider seenInputs cache st cellDep).run = some (.ok st')) :
    DepsTraced cache resolvedInputs st' := by
  unfold Cell.resolveDepWithSystemCell at ran
  split at ran
  · rename_i cellMeta found
    obtain ⟨_, -, finished⟩ := run_bind_eq_ok.mp ran
    rw [run_pure_eq_ok] at finished
    subst finished
    -- the cache holds a code cell under its own out point
    obtain ⟨code, cellMeta', same, sameOutPoint⟩ :=
      (wellFormed cache rfl cellDep _ found).resolve_right (by rintro ⟨isGroup, _, _, wrong, _⟩; cases wrong)
    cases same
    have key : (⟨cellMeta.outPoint, .code⟩ : CellDep H) = cellDep := by
      rw [sameOutPoint, ← code]
    refine traced.grow traced.memo (fun _ member => member) [cellMeta] [] rfl (by simp)
      (fun key member old => absurd member old) (fun cellMeta' member => .inr (.inl ?_)) (by simp)
    rw [List.mem_singleton.mp member, key, found]
    rfl
  · rename_i depGroup groupDeps found
    obtain ⟨_, -, finished⟩ := run_bind_eq_ok.mp ran
    rw [run_pure_eq_ok] at finished
    subst finished
    -- the cache holds a dep group under its own out point
    obtain ⟨isGroup, depGroup', groupDeps', same, sameOutPoint⟩ :=
      (wellFormed cache rfl cellDep _ found).resolve_left (by rintro ⟨_, _, wrong, _⟩; cases wrong)
    cases same
    have system : cache.lookup ⟨depGroup.outPoint, .depGroup⟩ = some (.group depGroup groupDeps) := by
      rw [sameOutPoint, ← isGroup]
      exact found
    refine traced.grow traced.memo (fun _ member => member) _ _ rfl rfl (fun key member old => absurd member old)
      (fun cellMeta member => .inr (.inr ?_)) (fun depGroup' member => .inr ?_)
    · exact mem_systemDeps.mpr ⟨depGroup, by simp, depGroup, groupDeps, system, cellMeta, member, rfl⟩
    · rw [List.mem_singleton.mp member]
      exact ⟨depGroup, groupDeps, system⟩
  · exact traced.resolveTransactionDep byte32 honest ran

variable {byte32 : List UInt8 → H} {systemCell : Option (SystemCellMap H)}

theorem resolveTransactionDepsWithSystemCellCache_traced (honest : cellProvider.Honest)
    (wellFormed : SystemCellWellFormed systemCell) {tx : TransactionView H} {resolvedCells : ResolvedCells H}
    {st : DepsState H}
    (start : DepsTraced (systemCell.getD ∅) resolvedInputs ⟨resolvedCells, [], [], maxDepExpansionLimit⟩)
    (ran : (resolveTransactionDepsWithSystemCellCache byte32 systemCell cellProvider seenInputs tx
      resolvedCells).run = some (.ok st)) :
    DepsTraced (systemCell.getD ∅) resolvedInputs st := by
  unfold resolveTransactionDepsWithSystemCellCache at ran
  cases systemCell with
  | some cache =>
    exact foldlM_run_ok_invariant _ tx.cellDeps
      (fun _ _ _ _ traced stepped => traced.resolveDepWithSystemCell byte32 honest wellFormed stepped) start ran
  | none =>
    exact foldlM_run_ok_invariant _ tx.cellDeps
      (fun _ _ _ _ traced stepped => traced.resolveTransactionDep byte32 honest stepped) start ran

end Trace

section Link

variable {systemCell : Option (SystemCellMap H)}

theorem systemOutPoint_of_lookup {cellDep : CellDep H} {resolved : ResolvedDep H}
    (found : (systemCell.getD ∅).lookup cellDep = some resolved) : SystemOutPoint systemCell cellDep.outPoint := by
  cases systemCell with
  | none => simp [Finmap.lookup_empty] at found
  | some cache => exact ⟨cache, rfl, cellDep, resolved, found, .inl rfl⟩

theorem systemOutPoint_of_systemDeps {groups : List (CellMeta H)} {outPoint : OutPoint H}
    (member : outPoint ∈ systemDeps (systemCell.getD ∅) groups) : SystemOutPoint systemCell outPoint := by
  obtain ⟨depGroup, -, cached, cellDeps, found, cellMeta, inDeps, rfl⟩ := mem_systemDeps.mp member
  cases systemCell with
  | none => simp [Finmap.lookup_empty] at found
  | some cache => exact ⟨cache, rfl, _, _, found, .inr ⟨cellMeta, List.mem_cons_of_mem _ inDeps, rfl⟩⟩

variable {resolvedInputs : List (CellMeta H)} {st : DepsState H} (tx : TransactionView H)

theorem DepsTraced.looked_of_tested (traced : DepsTraced (systemCell.getD ∅) resolvedInputs st)
    {outPoint : OutPoint H}
    (tested : Tested systemCell ⟨tx, st.resolvedCellDeps, resolvedInputs, st.resolvedDepGroups⟩ outPoint) :
    Looked st.resolvedCells outPoint := by
  rcases tested with ⟨cellMeta, member, rfl⟩ | ⟨depGroup, member, rfl, notSystem⟩ |
    ⟨cellMeta, member, rfl, uncached, notMember⟩
  · exact traced.looked cellMeta member
  · exact (traced.groups depGroup member).resolve_right notSystem
  · rcases traced.cellDeps cellMeta member with looked | cached | inDeps
    · exact looked
    · simp [uncached] at cached
    · exact absurd inDeps notMember

theorem DepsTraced.tested_or_system (traced : DepsTraced (systemCell.getD ∅) resolvedInputs st)
    {key : OutPoint H × Bool} (member : key ∈ st.resolvedCells) :
    Tested systemCell ⟨tx, st.resolvedCellDeps, resolvedInputs, st.resolvedDepGroups⟩ key.1 ∨
      SystemOutPoint systemCell key.1 := by
  obtain ⟨cellMeta, inLists, same⟩ := traced.keys key member
  rw [← same]
  simp only [List.mem_append] at inLists
  rcases inLists with (input | cellDep) | group
  · exact .inl (.inl ⟨cellMeta, input, rfl⟩)
  · cases cached : (systemCell.getD ∅).lookup ⟨cellMeta.outPoint, .code⟩ with
    | some resolved => exact .inr (systemOutPoint_of_lookup cached)
    | none =>
      by_cases inDeps : cellMeta.outPoint ∈ systemDeps (systemCell.getD ∅) st.resolvedDepGroups
      · exact .inr (systemOutPoint_of_systemDeps inDeps)
      · exact .inl (.inr (.inr ⟨cellMeta, cellDep, rfl, cached, inDeps⟩))
  · by_cases system : IsSystemGroup (systemCell.getD ∅) cellMeta.outPoint
    · obtain ⟨depGroup, cellDeps, found⟩ := system
      exact .inr (systemOutPoint_of_lookup found)
    · exact .inl (.inr (.inl ⟨cellMeta, group, rfl, system⟩))

end Link

section Agreement

variable [Inhabited H] {byte32 : List UInt8 → H} {systemCell : Option (SystemCellMap H)}
  {cellProvider : CellProvider H} {cellChecker : CellChecker H} {headerChecker : HeaderChecker H}

theorem resolveTransaction_of_body {tx : TransactionView H} {seenInputs : Finset (OutPoint H)}
    {rtx : ResolvedTransaction H} {currentInputs : Finset (OutPoint H)}
    (body : (resolveTransactionBody byte32 systemCell cellProvider seenInputs tx headerChecker).run =
      some (.ok (rtx, currentInputs))) :
    resolveTransaction byte32 systemCell tx seenInputs cellProvider headerChecker =
      some (.ok rtx, seenInputs ∪ currentInputs) := by
  unfold resolveTransaction
  rw [body]

/-- Against a `seen_inputs` that holds no system cell, `check` of a resolved transaction succeeds
exactly when resolving the transaction again succeeds; the new resolution gives the same resolved
transaction, and both add the same out points to `seen_inputs`. -/
theorem check_agrees_with_resolve (honest : cellProvider.Honest) (agree : cellChecker.Agrees cellProvider)
    (wellFormed : SystemCellWellFormed systemCell) {tx : TransactionView H} {rtx : ResolvedTransaction H}
    {resolvedSeen resolvedSeen' seenInputs : Finset (OutPoint H)}
    (resolved : resolveTransaction byte32 systemCell tx resolvedSeen cellProvider headerChecker =
      some (.ok rtx, resolvedSeen'))
    (unspentSystem : ∀ outPoint ∈ seenInputs, ¬ SystemOutPoint systemCell outPoint) :
    ((rtx.check systemCell seenInputs cellChecker headerChecker).1 = .ok () ↔
        ∃ rtx' seen, resolveTransaction byte32 systemCell tx seenInputs cellProvider headerChecker =
          some (.ok rtx', seen)) ∧
      ∀ rtx' seen, resolveTransaction byte32 systemCell tx seenInputs cellProvider headerChecker =
          some (.ok rtx', seen) →
        rtx' = rtx ∧ (rtx.check systemCell seenInputs cellChecker headerChecker).2 = seen := by
  -- the first resolution is a run against nothing
  obtain ⟨_, body, -⟩ := resolveTransaction_ok resolved
  obtain ⟨inputs, deps, inputsRan, depsRan, headers, result, -⟩ := resolveTransactionBody_seen.mp body
  obtain ⟨rfl, -⟩ := Prod.mk.inj result
  have inputsTraced := resolveInputs_traced honest inputsRan
  have traced := resolveTransactionDepsWithSystemCellCache_traced honest wellFormed
    (inputsTraced.depsStart _) depsRan
  have valid := (resolveTransactionDepsWithSystemCellCache_ok (resolveInputs_ok inputsRan).1 depsRan).memo
  -- a new resolution repeats that run and fails exactly on a spent key of its memo
  have resolves : ∀ rtx' seen, resolveTransaction byte32 systemCell tx seenInputs cellProvider headerChecker =
        some (.ok rtx', seen) ↔
      rtx' = ⟨tx, deps.resolvedCellDeps, inputs.resolvedInputs, deps.resolvedDepGroups⟩ ∧
        seen = seenInputs ∪ inputs.currentInputs ∧ ∀ key ∈ deps.resolvedCells, key.1 ∉ seenInputs := by
    intro rtx' seen
    constructor
    · intro ran
      obtain ⟨_, body', rfl⟩ := resolveTransaction_ok ran
      obtain ⟨inputs', deps', inputsRan', depsRan', -, result', unspent⟩ := resolveTransactionBody_seen.mp body'
      obtain rfl : inputs = inputs' := by simpa [inputsRan] using inputsRan'
      obtain rfl : deps = deps' := by simpa [depsRan] using depsRan'
      obtain ⟨rfl, rfl⟩ := Prod.mk.inj result'
      exact ⟨rfl, rfl, unspent⟩
    · rintro ⟨rfl, rfl, unspent⟩
      exact resolveTransaction_of_body
        (resolveTransactionBody_seen.mpr ⟨inputs, deps, inputsRan, depsRan, headers, rfl, unspent⟩)
  -- the out points `check` tests pass exactly when no looked up out point is spent
  have passes : (∀ outPoint, Tested systemCell ⟨tx, deps.resolvedCellDeps, inputs.resolvedInputs,
        deps.resolvedDepGroups⟩ outPoint → Passes cellChecker seenInputs outPoint) ↔
      ∀ key ∈ deps.resolvedCells, key.1 ∉ seenInputs := by
    constructor
    · intro passing key member
      rcases traced.tested_or_system tx member with tested | system
      · exact (passing key.1 tested).1
      · exact fun spent => unspentSystem key.1 spent system
    · intro unspent outPoint tested
      obtain ⟨key, member, rfl⟩ := traced.looked_of_tested tx tested
      exact ⟨unspent key member, valid.isLive_of_looked agree ⟨key, member, rfl⟩⟩
  refine ⟨?_, fun rtx' seen ran => ?_⟩
  · rw [check_ok_iff, passes]
    constructor
    · rintro ⟨unspent, -⟩
      exact ⟨_, _, (resolves _ _).mpr ⟨rfl, rfl, unspent⟩⟩
    · rintro ⟨rtx', seen, ran⟩
      exact ⟨((resolves _ _).mp ran).2.2, headers⟩
  · obtain ⟨rfl, rfl, unspent⟩ := (resolves _ _).mp ran
    refine ⟨rfl, ?_⟩
    rw [check_snd_of_ok systemCell ((check_ok_iff systemCell _ headerChecker).mpr ⟨passes.mpr unspent, headers⟩),
      inputsTraced.current]

end Agreement

section Samples

/-- A dep group with one member, output 5 of transaction 7: the count, then the member's hash and
index. -/
def sampleGroupData : List UInt8 := [1, 0, 0, 0, 7] ++ List.replicate 31 0 ++ [5, 0, 0, 0]

/-- The live cell at an output of transaction 7; output 9 holds the dep group. -/
def groupCell (outPoint : OutPoint ℕ) : CellMeta ℕ :=
  ⟨⟨100, ⟨0, .data, []⟩, none⟩, outPoint, none, 0,
    some (if outPoint.index = 9 then sampleGroupData else []), none⟩

def groupProvider : CellProvider ℕ :=
  ⟨fun outPoint _ => if outPoint.txHash = 7 then .live (groupCell outPoint) else .unknown⟩

def groupChecker : CellChecker ℕ :=
  ⟨fun outPoint => if outPoint.txHash = 7 then some true else none⟩

/-- `SYSTEM_CELL` holding output 5 of transaction 7 as a code cell. -/
def sampleSystemCell : Option (SystemCellMap ℕ) :=
  some (Finmap.singleton ⟨⟨7, 5⟩, .code⟩ (.cell (groupCell ⟨7, 5⟩)))

/-- Spends output 0 of transaction 7 and depends on the dep group at output 9. -/
def groupTx : TransactionView ℕ := ⟨2, [⟨⟨7, 9⟩, .depGroup⟩], [], [⟨⟨7, 0⟩, 0⟩], [], [], [[]]⟩

def acceptHeaders : HeaderChecker ℕ := ⟨fun _ => .ok ()⟩

theorem groupProvider_honest : groupProvider.Honest := by
  intro outPoint eagerLoad cellMeta live
  simp only [groupProvider] at live
  split at live
  · cases live
    rfl
  · cases live

theorem groupChecker_agrees : groupChecker.Agrees groupProvider := by
  intro outPoint eagerLoad
  by_cases seven : outPoint.txHash = 7 <;> simp [groupChecker, groupProvider, seven]

theorem sampleSystemCell_wellFormed : SystemCellWellFormed sampleSystemCell := by
  rintro cache ⟨⟩ cellDep resolved found
  obtain ⟨rfl, rfl⟩ := FiniteMap.lookup_singleton_eq_some.mp found
  exact .inl ⟨rfl, _, rfl, rfl⟩

theorem eq_of_systemOutPoint_sample {outPoint : OutPoint ℕ} (system : SystemOutPoint sampleSystemCell outPoint) :
    outPoint = ⟨7, 5⟩ := by
  obtain ⟨cache, ⟨⟩, cellDep, resolved, found, same⟩ := system
  obtain ⟨rfl, rfl⟩ := FiniteMap.lookup_singleton_eq_some.mp found
  rcases same with same | ⟨cellMeta, member, same⟩
  · exact same.symm
  · rw [ResolvedDep.cellMetas, List.mem_singleton] at member
    subst member
    exact same.symm

theorem groupTx_check_agrees :
    groupProvider.Honest ∧ groupChecker.Agrees groupProvider ∧ SystemCellWellFormed sampleSystemCell ∧
      (∀ outPoint ∈ ({⟨7, 1⟩} : Finset (OutPoint ℕ)), ¬ SystemOutPoint sampleSystemCell outPoint) ∧
      ∃ rtx seen, resolveTransaction Molecule.unpackNumber sampleSystemCell groupTx ∅ groupProvider
          acceptHeaders = some (.ok rtx, seen) ∧
        ((rtx.check sampleSystemCell {⟨7, 1⟩} groupChecker acceptHeaders).1 = .ok () ↔
            ∃ rtx' seen', resolveTransaction Molecule.unpackNumber sampleSystemCell groupTx {⟨7, 1⟩}
              groupProvider acceptHeaders = some (.ok rtx', seen')) ∧
        ∀ rtx' seen', resolveTransaction Molecule.unpackNumber sampleSystemCell groupTx {⟨7, 1⟩} groupProvider
            acceptHeaders = some (.ok rtx', seen') →
          rtx' = rtx ∧ (rtx.check sampleSystemCell {⟨7, 1⟩} groupChecker acceptHeaders).2 = seen' := by
  have unspent : ∀ outPoint ∈ ({⟨7, 1⟩} : Finset (OutPoint ℕ)), ¬ SystemOutPoint sampleSystemCell outPoint := by
    intro outPoint member system
    rw [Finset.mem_singleton] at member
    subst member
    exact absurd (eq_of_systemOutPoint_sample system) (by decide)
  refine ⟨groupProvider_honest, groupChecker_agrees, sampleSystemCell_wellFormed, unspent, _, _, rfl, ?_⟩
  exact check_agrees_with_resolve groupProvider_honest groupChecker_agrees sampleSystemCell_wellFormed
    (show resolveTransaction Molecule.unpackNumber sampleSystemCell groupTx ∅ groupProvider acceptHeaders = _ from rfl)
    unspent

theorem check_skips_spent_system_cell :
    groupProvider.Honest ∧ groupChecker.Agrees groupProvider ∧ SystemCellWellFormed sampleSystemCell ∧
      SystemOutPoint sampleSystemCell ⟨7, 5⟩ ∧
      ∃ rtx seen, resolveTransaction Molecule.unpackNumber sampleSystemCell groupTx ∅ groupProvider
          acceptHeaders = some (.ok rtx, seen) ∧
        (rtx.check sampleSystemCell {⟨7, 5⟩} groupChecker acceptHeaders).1 = .ok () ∧
        resolveTransaction Molecule.unpackNumber sampleSystemCell groupTx {⟨7, 5⟩} groupProvider acceptHeaders =
          some (.error (.dead ⟨7, 5⟩), {⟨7, 5⟩}) :=
  ⟨groupProvider_honest, groupChecker_agrees, sampleSystemCell_wellFormed,
    ⟨_, rfl, ⟨⟨7, 5⟩, .code⟩, _, FiniteMap.lookup_singleton_eq_some.mpr ⟨rfl, rfl⟩, .inl rfl⟩,
    _, _, rfl, rfl, rfl⟩

end Samples

end Ckb.Cell
