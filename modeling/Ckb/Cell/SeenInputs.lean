import Ckb.Cell.ResolveSpec

/-!
A resolution reads `seen_inputs` only in the first test of `resolve_cell`. So it succeeds against a
set of spent out points exactly when it succeeds against the empty set and no out point it looked
up, which is every key its memo ends with, is in the set. Each step is compared with the same step
run against the empty set, under the invariant that the memo's keys are unspent.
-/

namespace Ckb.Cell

open ExceptT

variable {H : Type} [DecidableEq H] {byte32 : List UInt8 → H} {cellProvider : CellProvider H}
  {seenInputs : Finset (OutPoint H)}

theorem resolveCell_keys {resolvedCells resolvedCells' : ResolvedCells H} {outPoint : OutPoint H}
    {eagerLoad : Bool} {cellMeta : CellMeta H}
    (ran : (resolveCell cellProvider seenInputs resolvedCells outPoint eagerLoad).run =
      some (.ok (cellMeta, resolvedCells'))) :
    (outPoint, eagerLoad) ∈ resolvedCells' ∧ ∀ key ∈ resolvedCells, key ∈ resolvedCells' := by
  obtain ⟨-, ⟨remembered, rfl⟩ | ⟨-, -, rfl⟩⟩ := resolveCell_run_eq_ok.mp ran
  · exact ⟨Finmap.mem_of_lookup_eq_some remembered, fun _ member => member⟩
  · exact ⟨Finmap.mem_insert.mpr (.inl rfl), fun _ member => Finmap.mem_insert.mpr (.inr member)⟩

/-- `resolve_cell` against `seen_inputs` is `resolve_cell` against nothing, failing when the
out point it looks up is spent. -/
theorem resolveCell_seen {resolvedCells resolvedCells' : ResolvedCells H} {outPoint : OutPoint H}
    {eagerLoad : Bool} {cellMeta : CellMeta H} (unspent : ∀ key ∈ resolvedCells, key.1 ∉ seenInputs) :
    (resolveCell cellProvider seenInputs resolvedCells outPoint eagerLoad).run = some (.ok (cellMeta, resolvedCells')) ↔
      (resolveCell cellProvider ∅ resolvedCells outPoint eagerLoad).run = some (.ok (cellMeta, resolvedCells')) ∧
        ∀ key ∈ resolvedCells', key.1 ∉ seenInputs := by
  constructor
  · intro ran
    obtain ⟨fresh, found⟩ := resolveCell_run_eq_ok.mp ran
    refine ⟨resolveCell_run_eq_ok.mpr ⟨Finset.notMem_empty _, found⟩, fun key member => ?_⟩
    rcases found with ⟨-, rfl⟩ | ⟨-, -, rfl⟩
    · exact unspent key member
    · rcases Finmap.mem_insert.mp member with rfl | old
      · exact fresh
      · exact unspent key old
  · rintro ⟨ran, unspent'⟩
    obtain ⟨-, found⟩ := resolveCell_run_eq_ok.mp ran
    exact resolveCell_run_eq_ok.mpr ⟨unspent' _ (resolveCell_keys ran).1, found⟩

theorem resolveCell_seen_bind {γ : Type} {resolvedCells : ResolvedCells H} {outPoint : OutPoint H}
    {eagerLoad : Bool} {memoOf : γ → ResolvedCells H}
    {next next' : CellMeta H × ResolvedCells H → ExceptT (OutPointError H) Option γ} {result : γ}
    (unspent : ∀ key ∈ resolvedCells, key.1 ∉ seenInputs)
    (sameNext : ∀ resolved, (∀ key ∈ resolved.2, key.1 ∉ seenInputs) →
      ((next resolved).run = some (.ok result) ↔ (next' resolved).run = some (.ok result) ∧
        ∀ key ∈ memoOf result, key.1 ∉ seenInputs))
    (backNext : ∀ resolved, (next' resolved).run = some (.ok result) → ∀ key ∈ resolved.2, key ∈ memoOf result) :
    (resolveCell cellProvider seenInputs resolvedCells outPoint eagerLoad >>= next).run = some (.ok result) ↔
      (resolveCell cellProvider ∅ resolvedCells outPoint eagerLoad >>= next').run = some (.ok result) ∧
        ∀ key ∈ memoOf result, key.1 ∉ seenInputs := by
  simp only [run_bind_eq_ok]
  constructor
  · rintro ⟨resolved, cell, rest⟩
    obtain ⟨cell, unspent₁⟩ := (resolveCell_seen unspent).mp cell
    obtain ⟨rest, unspent₂⟩ := (sameNext resolved unspent₁).mp rest
    exact ⟨⟨resolved, cell, rest⟩, unspent₂⟩
  · rintro ⟨⟨resolved, cell, rest⟩, unspent₂⟩
    have unspent₁ : ∀ key ∈ resolved.2, key.1 ∉ seenInputs :=
      fun key member => unspent₂ key (backNext resolved rest key member)
    exact ⟨resolved, (resolveCell_seen unspent).mpr ⟨cell, unspent₁⟩,
      (sameNext resolved unspent₁).mpr ⟨rest, unspent₂⟩⟩

section Inputs

theorem resolveInput_keys {st st' : InputsState H} {outPoint : OutPoint H}
    (ran : (resolveInput cellProvider seenInputs st outPoint).run = some (.ok st')) :
    ∀ key ∈ st.resolvedCells, key ∈ st'.resolvedCells := by
  obtain ⟨-, cellMeta, resolvedCells, resolved, rfl⟩ := resolveInput_run_eq_ok ran
  exact (resolveCell_keys resolved).2

theorem resolveInput_seen {st st' : InputsState H} {outPoint : OutPoint H}
    (unspent : ∀ key ∈ st.resolvedCells, key.1 ∉ seenInputs) :
    (resolveInput cellProvider seenInputs st outPoint).run = some (.ok st') ↔
      (resolveInput cellProvider ∅ st outPoint).run = some (.ok st') ∧
        ∀ key ∈ st'.resolvedCells, key.1 ∉ seenInputs := by
  unfold resolveInput
  split_ifs
  · simp [run_throw]
  · refine resolveCell_seen_bind unspent (fun resolved _ => ?_) (fun resolved finished => ?_)
    · simp only [run_pure_eq_ok]
      constructor
      · rintro rfl
        exact ⟨rfl, by assumption⟩
      · exact fun done => done.1
    · rw [run_pure_eq_ok] at finished
      subst finished
      exact fun _ member => member

variable [Inhabited H]

theorem resolveInputs_seen {tx : TransactionView H} {st : InputsState H} :
    (resolveInputs cellProvider seenInputs tx).run = some (.ok st) ↔
      (resolveInputs cellProvider ∅ tx).run = some (.ok st) ∧ ∀ key ∈ st.resolvedCells, key.1 ∉ seenInputs := by
  unfold resolveInputs
  split_ifs
  · exact foldlM_run_eq_ok_iff_of_step (fun st : InputsState H => ∀ key ∈ st.resolvedCells, key.1 ∉ seenInputs)
      tx.inputPts (fun _ _ _ _ unspent => resolveInput_seen unspent)
      (fun _ _ _ _ ran unspent key member => unspent key (resolveInput_keys ran key member))
      (fun _ member => (Finmap.notMem_empty member).elim)
  · simp only [run_pure_eq_ok]
    constructor
    · rintro rfl
      exact ⟨rfl, fun _ member => (Finmap.notMem_empty member).elim⟩
    · exact fun done => done.1

end Inputs

section Deps

theorem resolveSubOutPoints_keys {eagerLoad : Bool} {subOutPoints : List (OutPoint H)} {st st' : DepsState H}
    (ran : (subOutPoints.foldlM (resolveSubOutPoint cellProvider seenInputs eagerLoad) st).run = some (.ok st')) :
    ∀ key ∈ st.resolvedCells, key ∈ st'.resolvedCells := by
  refine foldlM_run_ok_invariant (fun st' : DepsState H => ∀ key ∈ st.resolvedCells, key ∈ st'.resolvedCells)
    subOutPoints (fun b _ b' _ grown stepped key member => ?_) (fun _ member => member) ran
  obtain ⟨cellMeta, resolvedCells, resolved, rfl⟩ := resolveSubOutPoint_run_eq_ok stepped
  exact (resolveCell_keys resolved).2 key (grown key member)

theorem resolveSubOutPoints_seen {eagerLoad : Bool} {subOutPoints : List (OutPoint H)} {st st' : DepsState H}
    (unspent : ∀ key ∈ st.resolvedCells, key.1 ∉ seenInputs) :
    (subOutPoints.foldlM (resolveSubOutPoint cellProvider seenInputs eagerLoad) st).run = some (.ok st') ↔
      (subOutPoints.foldlM (resolveSubOutPoint cellProvider ∅ eagerLoad) st).run = some (.ok st') ∧
        ∀ key ∈ st'.resolvedCells, key.1 ∉ seenInputs := by
  refine foldlM_run_eq_ok_iff_of_step (fun st : DepsState H => ∀ key ∈ st.resolvedCells, key.1 ∉ seenInputs)
    subOutPoints (fun b subOutPoint b' _ unspent => ?_) (fun b subOutPoint b' _ ran unspent => ?_) unspent
  · unfold resolveSubOutPoint
    refine resolveCell_seen_bind unspent (fun resolved _ => ?_) (fun resolved finished => ?_)
    · simp only [run_pure_eq_ok]
      constructor
      · rintro rfl
        exact ⟨rfl, by assumption⟩
      · exact fun done => done.1
    · rw [run_pure_eq_ok] at finished
      subst finished
      exact fun _ member => member
  · have single : ([subOutPoint].foldlM (resolveSubOutPoint cellProvider ∅ eagerLoad) b).run = some (.ok b') := by
      simpa using ran
    exact fun key member => unspent key (resolveSubOutPoints_keys single key member)

omit [DecidableEq H] in
theorem run_bind_pure_groups {x y : ExceptT (OutPointError H) Option (DepsState H)} {cellMeta : CellMeta H}
    {result : DepsState H} (same : ∀ st, x.run = some (.ok st) ↔ y.run = some (.ok st) ∧
      ∀ key ∈ st.resolvedCells, key.1 ∉ seenInputs) :
    (x >>= fun st => pure { st with resolvedDepGroups := st.resolvedDepGroups ++ [cellMeta] }).run =
        some (.ok result) ↔
      (y >>= fun st => pure { st with resolvedDepGroups := st.resolvedDepGroups ++ [cellMeta] }).run =
        some (.ok result) ∧ ∀ key ∈ result.resolvedCells, key.1 ∉ seenInputs := by
  simp only [run_bind_eq_ok, run_pure_eq_ok]
  constructor
  · rintro ⟨st, ran, rfl⟩
    obtain ⟨ran, unspent⟩ := (same st).mp ran
    exact ⟨⟨st, ran, rfl⟩, unspent⟩
  · rintro ⟨⟨st, ran, rfl⟩, unspent⟩
    exact ⟨st, (same st).mpr ⟨ran, unspent⟩, rfl⟩

theorem resolveTransactionDep_keys {eagerLoad : Bool} {st st' : DepsState H} {cellDep : CellDep H}
    (ran : (resolveTransactionDep byte32 cellProvider seenInputs eagerLoad st cellDep).run = some (.ok st')) :
    ∀ key ∈ st.resolvedCells, key ∈ st'.resolvedCells := by
  unfold resolveTransactionDep at ran
  split_ifs at ran
  · obtain ⟨⟨depGroup, resolvedCells⟩, resolvedGroup, ran⟩ := run_bind_eq_ok.mp ran
    obtain ⟨_, -, ran⟩ := run_bind_eq_ok.mp ran
    obtain ⟨_, -, ran⟩ := run_bind_eq_ok.mp ran
    obtain ⟨_, -, ran⟩ := run_bind_eq_ok.mp ran
    obtain ⟨members, folded, finished⟩ := run_bind_eq_ok.mp ran
    rw [run_pure_eq_ok] at finished
    subst finished
    exact fun key member => resolveSubOutPoints_keys folded key ((resolveCell_keys resolvedGroup).2 key member)
  · obtain ⟨_, -, ran⟩ := run_bind_eq_ok.mp ran
    obtain ⟨⟨cellMeta, resolvedCells⟩, resolved, finished⟩ := run_bind_eq_ok.mp ran
    rw [run_pure_eq_ok] at finished
    subst finished
    exact (resolveCell_keys resolved).2

theorem resolveTransactionDep_seen {eagerLoad : Bool} {st st' : DepsState H} {cellDep : CellDep H}
    (unspent : ∀ key ∈ st.resolvedCells, key.1 ∉ seenInputs) :
    (resolveTransactionDep byte32 cellProvider seenInputs eagerLoad st cellDep).run = some (.ok st') ↔
      (resolveTransactionDep byte32 cellProvider ∅ eagerLoad st cellDep).run = some (.ok st') ∧
        ∀ key ∈ st'.resolvedCells, key.1 ∉ seenInputs := by
  unfold resolveTransactionDep
  split_ifs
  · -- the group cell is looked up; its data, members and budget do not read `seen_inputs`
    refine resolveCell_seen_bind unspent (fun resolved unspent₁ => ?_) (fun resolved ran => ?_)
    · -- the data, its parse and the budget are the same against any `seen_inputs`
      apply run_bind_eq_ok_iff_of_right
      intro _ _
      apply run_bind_eq_ok_iff_of_right
      intro _ _
      apply run_bind_eq_ok_iff_of_right
      intro _ _
      exact run_bind_pure_groups fun _ => resolveSubOutPoints_seen unspent₁
    · obtain ⟨_, -, ran⟩ := run_bind_eq_ok.mp ran
      obtain ⟨_, -, ran⟩ := run_bind_eq_ok.mp ran
      obtain ⟨_, -, ran⟩ := run_bind_eq_ok.mp ran
      obtain ⟨members, folded, finished⟩ := run_bind_eq_ok.mp ran
      rw [run_pure_eq_ok] at finished
      subst finished
      exact resolveSubOutPoints_keys folded
  · apply run_bind_eq_ok_iff_of_right
    intro _ _
    refine resolveCell_seen_bind unspent (fun resolved _ => ?_) (fun resolved finished => ?_)
    · simp only [run_pure_eq_ok]
      constructor
      · rintro rfl
        exact ⟨rfl, by assumption⟩
      · exact fun done => done.1
    · rw [run_pure_eq_ok] at finished
      subst finished
      exact fun _ member => member

theorem resolveDepWithSystemCell_keys {cache : SystemCellMap H} {st st' : DepsState H} {cellDep : CellDep H}
    (ran : (resolveDepWithSystemCell byte32 cellProvider seenInputs cache st cellDep).run = some (.ok st')) :
    ∀ key ∈ st.resolvedCells, key ∈ st'.resolvedCells := by
  unfold resolveDepWithSystemCell at ran
  split at ran
  · obtain ⟨_, -, finished⟩ := run_bind_eq_ok.mp ran
    rw [run_pure_eq_ok] at finished
    subst finished
    exact fun _ member => member
  · obtain ⟨_, -, finished⟩ := run_bind_eq_ok.mp ran
    rw [run_pure_eq_ok] at finished
    subst finished
    exact fun _ member => member
  · exact resolveTransactionDep_keys ran

theorem resolveDepWithSystemCell_seen {cache : SystemCellMap H} {st st' : DepsState H} {cellDep : CellDep H}
    (unspent : ∀ key ∈ st.resolvedCells, key.1 ∉ seenInputs) :
    (resolveDepWithSystemCell byte32 cellProvider seenInputs cache st cellDep).run = some (.ok st') ↔
      (resolveDepWithSystemCell byte32 cellProvider ∅ cache st cellDep).run = some (.ok st') ∧
        ∀ key ∈ st'.resolvedCells, key.1 ∉ seenInputs := by
  unfold resolveDepWithSystemCell
  -- a cached dep keeps the memo as it is
  have cached : ∀ (charge : ExceptT (OutPointError H) Option Nat) (update : Nat → DepsState H),
      (∀ remaining, (update remaining).resolvedCells = st.resolvedCells) →
      ((charge >>= fun remaining => pure (update remaining)).run = some (.ok st') ↔
        (charge >>= fun remaining => pure (update remaining)).run = some (.ok st') ∧
          ∀ key ∈ st'.resolvedCells, key.1 ∉ seenInputs) := by
    intro charge update keeps
    refine ⟨fun ran => ⟨ran, ?_⟩, fun done => done.1⟩
    obtain ⟨remaining, -, finished⟩ := run_bind_eq_ok.mp ran
    rw [run_pure_eq_ok] at finished
    rw [← finished, keeps]
    exact unspent
  split
  · exact cached _ _ fun _ => rfl
  · exact cached _ _ fun _ => rfl
  · exact resolveTransactionDep_seen unspent

variable {systemCell : Option (SystemCellMap H)}

theorem resolveTransactionDepsWithSystemCellCache_seen {tx : TransactionView H} {resolvedCells : ResolvedCells H}
    {st : DepsState H} (unspent : ∀ key ∈ resolvedCells, key.1 ∉ seenInputs) :
    (resolveTransactionDepsWithSystemCellCache byte32 systemCell cellProvider seenInputs tx resolvedCells).run =
        some (.ok st) ↔
      (resolveTransactionDepsWithSystemCellCache byte32 systemCell cellProvider ∅ tx resolvedCells).run =
        some (.ok st) ∧ ∀ key ∈ st.resolvedCells, key.1 ∉ seenInputs := by
  unfold resolveTransactionDepsWithSystemCellCache
  split
  · exact foldlM_run_eq_ok_iff_of_step (fun st : DepsState H => ∀ key ∈ st.resolvedCells, key.1 ∉ seenInputs)
      tx.cellDeps (fun _ _ _ _ unspent => resolveDepWithSystemCell_seen unspent)
      (fun _ _ _ _ ran unspent key member => unspent key (resolveDepWithSystemCell_keys ran key member)) unspent
  · exact foldlM_run_eq_ok_iff_of_step (fun st : DepsState H => ∀ key ∈ st.resolvedCells, key.1 ∉ seenInputs)
      tx.cellDeps (fun _ _ _ _ unspent => resolveTransactionDep_seen unspent)
      (fun _ _ _ _ ran unspent key member => unspent key (resolveTransactionDep_keys ran key member)) unspent

end Deps

section Body

variable {systemCell : Option (SystemCellMap H)} {headerChecker : HeaderChecker H}

theorem resolveTransactionDepsWithSystemCellCache_keys {tx : TransactionView H} {resolvedCells : ResolvedCells H}
    {st : DepsState H}
    (ran : (resolveTransactionDepsWithSystemCellCache byte32 systemCell cellProvider seenInputs tx
      resolvedCells).run = some (.ok st)) :
    ∀ key ∈ resolvedCells, key ∈ st.resolvedCells := by
  unfold resolveTransactionDepsWithSystemCellCache at ran
  split at ran
  · exact foldlM_run_ok_invariant (fun st : DepsState H => ∀ key ∈ resolvedCells, key ∈ st.resolvedCells)
      tx.cellDeps (fun _ _ _ _ grown stepped key member => resolveDepWithSystemCell_keys stepped key (grown key member))
      (fun _ member => member) ran
  · exact foldlM_run_ok_invariant (fun st : DepsState H => ∀ key ∈ resolvedCells, key ∈ st.resolvedCells)
      tx.cellDeps (fun _ _ _ _ grown stepped key member => resolveTransactionDep_keys stepped key (grown key member))
      (fun _ member => member) ran

variable [Inhabited H]

/-- The part of `resolve_transaction` before `seen_inputs.extend` succeeds against `seen_inputs`
exactly when it succeeds against nothing and none of the out points its memo looked up is spent. -/
theorem resolveTransactionBody_seen {tx : TransactionView H}
    {result : ResolvedTransaction H × Finset (OutPoint H)} :
    (resolveTransactionBody byte32 systemCell cellProvider seenInputs tx headerChecker).run = some (.ok result) ↔
      ∃ inputs deps, (resolveInputs cellProvider ∅ tx).run = some (.ok inputs) ∧
        (resolveTransactionDepsWithSystemCellCache byte32 systemCell cellProvider ∅ tx inputs.resolvedCells).run =
          some (.ok deps) ∧
        checkHeaderDeps headerChecker tx.headerDeps = .ok () ∧
        result = (⟨tx, deps.resolvedCellDeps, inputs.resolvedInputs, deps.resolvedDepGroups⟩, inputs.currentInputs) ∧
        ∀ key ∈ deps.resolvedCells, key.1 ∉ seenInputs := by
  unfold resolveTransactionBody
  simp only [run_bind_eq_ok, run_liftExcept, run_pure_eq_ok, Option.some.injEq]
  constructor
  · rintro ⟨inputs, resolvedInputs, deps, resolvedDeps, ⟨⟩, headers, rfl⟩
    obtain ⟨resolvedInputs, unspentInputs⟩ := resolveInputs_seen.mp resolvedInputs
    obtain ⟨resolvedDeps, unspent⟩ := (resolveTransactionDepsWithSystemCellCache_seen unspentInputs).mp resolvedDeps
    exact ⟨inputs, deps, resolvedInputs, resolvedDeps, headers, rfl, unspent⟩
  · rintro ⟨inputs, deps, resolvedInputs, resolvedDeps, headers, rfl, unspent⟩
    have unspentInputs : ∀ key ∈ inputs.resolvedCells, key.1 ∉ seenInputs := fun key member =>
      unspent key (resolveTransactionDepsWithSystemCellCache_keys resolvedDeps key member)
    exact ⟨inputs, resolveInputs_seen.mpr ⟨resolvedInputs, unspentInputs⟩, deps,
      (resolveTransactionDepsWithSystemCellCache_seen unspentInputs).mpr ⟨resolvedDeps, unspent⟩, (), headers, rfl⟩

end Body

end Ckb.Cell
