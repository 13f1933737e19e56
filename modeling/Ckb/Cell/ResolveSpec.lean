import Ckb.Cell.Resolve

namespace Ckb.Cell

open ExceptT

variable {H : Type} [DecidableEq H]

/-- A provider that returns every live cell under the out point it was asked for, as the node's
providers do (`CellMetaBuilder::out_point`). -/
def CellProvider.Honest (cellProvider : CellProvider H) : Prop :=
  ∀ outPoint eagerLoad cellMeta, cellProvider.cell outPoint eagerLoad = .live cellMeta →
    cellMeta.outPoint = outPoint

/-- The cells a system cell cache entry provides: the cell, or the dep group and its members. -/
def ResolvedDep.cellMetas : ResolvedDep H → List (CellMeta H)
  | .cell cellMeta => [cellMeta]
  | .group depGroup cellDeps => depGroup :: cellDeps

section Memo

variable (cellProvider : CellProvider H) (seenInputs : Finset (OutPoint H))

/-- Every remembered cell is the provider's live answer for its key, and no key is spent. -/
structure MemoValid (resolvedCells : ResolvedCells H) : Prop where
  live : ∀ key cellMeta, resolvedCells.lookup key = some cellMeta →
    cellProvider.cell key.1 key.2 = .live cellMeta
  unspent : ∀ key ∈ resolvedCells, key.1 ∉ seenInputs

theorem memoValid_empty : MemoValid cellProvider seenInputs ∅ :=
  ⟨fun _ _ found => by simp [Finmap.lookup_empty] at found,
    fun _ member => (Finmap.notMem_empty member).elim⟩

variable {cellProvider seenInputs}

theorem resolveCell_run_eq_ok {resolvedCells resolvedCells' : ResolvedCells H} {outPoint : OutPoint H}
    {eagerLoad : Bool} {cellMeta : CellMeta H} :
    (resolveCell cellProvider seenInputs resolvedCells outPoint eagerLoad).run =
        some (.ok (cellMeta, resolvedCells')) ↔
      outPoint ∉ seenInputs ∧
        (resolvedCells.lookup (outPoint, eagerLoad) = some cellMeta ∧ resolvedCells' = resolvedCells ∨
          resolvedCells.lookup (outPoint, eagerLoad) = none ∧
            cellProvider.cell outPoint eagerLoad = .live cellMeta ∧
            resolvedCells' = resolvedCells.insert (outPoint, eagerLoad) cellMeta) := by
  unfold resolveCell
  split_ifs with spent
  · simp [spent, run_throw]
  · cases found : resolvedCells.lookup (outPoint, eagerLoad) with
    | some remembered => simp [spent, eq_comm]
    | none =>
      cases cellProvider.cell outPoint eagerLoad <;> simp [spent, run_throw, eq_comm]
      rintro rfl
      rfl

/-- `resolve_sub_out_point` returns when its `resolve_cell` does, and appends the cell it found. -/
theorem resolveSubOutPoint_run_eq_ok {eagerLoad : Bool} {st st' : DepsState H} {subOutPoint : OutPoint H}
    (stepped : (resolveSubOutPoint cellProvider seenInputs eagerLoad st subOutPoint).run = some (.ok st')) :
    ∃ cellMeta resolvedCells,
      (resolveCell cellProvider seenInputs st.resolvedCells subOutPoint eagerLoad).run = some (.ok (cellMeta, resolvedCells)) ∧
        st' = { st with resolvedCellDeps := st.resolvedCellDeps ++ [cellMeta], resolvedCells := resolvedCells } := by
  unfold resolveSubOutPoint at stepped
  obtain ⟨⟨cellMeta, resolvedCells⟩, resolved, finished⟩ := run_bind_eq_ok.mp stepped
  rw [run_pure_eq_ok] at finished
  exact ⟨cellMeta, resolvedCells, resolved, finished.symm⟩

theorem resolveCell_run_ne_none (resolvedCells : ResolvedCells H) (outPoint : OutPoint H)
    (eagerLoad : Bool) : (resolveCell cellProvider seenInputs resolvedCells outPoint eagerLoad).run ≠ none := by
  unfold resolveCell
  split_ifs
  · simp [run_throw]
  · cases resolvedCells.lookup (outPoint, eagerLoad)
    · cases cellProvider.cell outPoint eagerLoad <;> simp [run_throw]
    · simp

theorem MemoValid.resolveCell {resolvedCells resolvedCells' : ResolvedCells H} {outPoint : OutPoint H}
    {eagerLoad : Bool} {cellMeta : CellMeta H} (valid : MemoValid cellProvider seenInputs resolvedCells)
    (ran : (Cell.resolveCell cellProvider seenInputs resolvedCells outPoint eagerLoad).run =
      some (.ok (cellMeta, resolvedCells'))) :
    MemoValid cellProvider seenInputs resolvedCells' ∧ cellProvider.cell outPoint eagerLoad = .live cellMeta ∧
      outPoint ∉ seenInputs ∧ ∀ key ∈ resolvedCells, key ∈ resolvedCells' := by
  obtain ⟨unspent, ⟨remembered, rfl⟩ | ⟨-, live, rfl⟩⟩ := resolveCell_run_eq_ok.mp ran
  · exact ⟨valid, valid.live _ _ remembered, unspent, fun _ member => member⟩
  · refine ⟨⟨fun key cellMeta' found => ?_, fun key member => ?_⟩, live, unspent,
      fun key member => Finmap.mem_insert.mpr (.inr member)⟩
    · by_cases same : key = (outPoint, eagerLoad)
      · subst same
        simp only [Finmap.lookup_insert, Option.some.injEq] at found
        rw [← found]
        exact live
      · rw [Finmap.lookup_insert_of_ne _ same] at found
        exact valid.live key cellMeta' found
    · rcases Finmap.mem_insert.mp member with rfl | old
      · exact unspent
      · exact valid.unspent key old

omit [DecidableEq H] in
theorem chargeDepSlots_run_eq_ok {remainingDepSlots n remaining : Nat} :
    (chargeDepSlots remainingDepSlots n : ExceptT (OutPointError H) Option Nat).run = some (.ok remaining) ↔
      n ≤ remainingDepSlots ∧ remaining = remainingDepSlots - n := by
  unfold chargeDepSlots checkedSub
  split_ifs with fits <;> simp [fits, eq_comm]

end Memo

section Deps

variable {byte32 : List UInt8 → H} {systemCell : Option (SystemCellMap H)} {cellProvider : CellProvider H}
  {seenInputs : Finset (OutPoint H)}

variable (systemCell) in
/-- A cell copied from the system cell cache under one of `cellDeps`. -/
def FromSystemCell (cellDeps : List (CellDep H)) (cellMeta : CellMeta H) : Prop :=
  ∃ cache, systemCell = some cache ∧ ∃ cellDep ∈ cellDeps, ∃ resolved,
    cache.lookup cellDep = some resolved ∧ cellMeta ∈ resolved.cellMetas

variable (systemCell cellProvider seenInputs) in
/-- Where a resolved dep comes from: the system cell cache, under one of the transaction's deps,
or the provider, as the live cell of an unspent out point. -/
def DepSourced (cellDeps : List (CellDep H)) (cellMeta : CellMeta H) : Prop :=
  FromSystemCell systemCell cellDeps cellMeta ∨
  ∃ outPoint eagerLoad, outPoint ∉ seenInputs ∧ cellProvider.cell outPoint eagerLoad = .live cellMeta

variable (systemCell cellProvider seenInputs) in
/-- What the dep loop keeps: a valid memo, the budget, and where every resolved dep came from. -/
structure DepsValid (cellDeps : List (CellDep H)) (st : DepsState H) : Prop where
  memo : MemoValid cellProvider seenInputs st.resolvedCells
  budget : st.resolvedCellDeps.length + st.remainingDepSlots = maxDepExpansionLimit
  sourced : ∀ cellMeta ∈ st.resolvedCellDeps ++ st.resolvedDepGroups,
    DepSourced systemCell cellProvider seenInputs cellDeps cellMeta

/-- The members of a dep group are appended to the cell deps, each the live cell of an unspent
out point. -/
theorem resolveSubOutPoints_ok {eagerLoad : Bool} {subOutPoints : List (OutPoint H)} {st st' : DepsState H}
    (valid : MemoValid cellProvider seenInputs st.resolvedCells)
    (ran : (subOutPoints.foldlM (resolveSubOutPoint cellProvider seenInputs eagerLoad) st).run = some (.ok st')) :
    MemoValid cellProvider seenInputs st'.resolvedCells ∧
      st'.resolvedCellDeps.length = st.resolvedCellDeps.length + subOutPoints.length ∧
      st'.resolvedDepGroups = st.resolvedDepGroups ∧ st'.remainingDepSlots = st.remainingDepSlots ∧
      ∀ cellMeta ∈ st'.resolvedCellDeps, cellMeta ∈ st.resolvedCellDeps ∨
        ∃ outPoint eagerLoad, outPoint ∉ seenInputs ∧ cellProvider.cell outPoint eagerLoad = .live cellMeta := by
  refine foldlM_run_ok_induction (fun done (st' : DepsState H) =>
      MemoValid cellProvider seenInputs st'.resolvedCells ∧
      st'.resolvedCellDeps.length = st.resolvedCellDeps.length + done.length ∧
      st'.resolvedDepGroups = st.resolvedDepGroups ∧ st'.remainingDepSlots = st.remainingDepSlots ∧
      ∀ cellMeta ∈ st'.resolvedCellDeps, cellMeta ∈ st.resolvedCellDeps ∨
        ∃ outPoint eagerLoad, outPoint ∉ seenInputs ∧ cellProvider.cell outPoint eagerLoad = .live cellMeta)
    subOutPoints ?_ ⟨valid, rfl, rfl, rfl, fun _ member => .inl member⟩ ran
  rintro done subOutPoint b b' - ⟨memo, length, groups, slots, sourced⟩ stepped
  obtain ⟨cellMeta, resolvedCells, resolved, rfl⟩ := resolveSubOutPoint_run_eq_ok stepped
  obtain ⟨memo', live, unspent, -⟩ := memo.resolveCell resolved
  refine ⟨memo', by simp [length, Nat.add_assoc], groups, slots, fun cellMeta' member => ?_⟩
  rcases List.mem_append.mp member with old | new
  · exact sourced cellMeta' old
  · rw [List.mem_singleton.mp new]
    exact .inr ⟨subOutPoint, eagerLoad, unspent, live⟩

theorem DepsValid.resolveTransactionDep {cellDeps : List (CellDep H)} {eagerLoad : Bool} {st st' : DepsState H}
    {cellDep : CellDep H} (valid : DepsValid systemCell cellProvider seenInputs cellDeps st)
    (ran : (Cell.resolveTransactionDep byte32 cellProvider seenInputs eagerLoad st cellDep).run = some (.ok st')) :
    DepsValid systemCell cellProvider seenInputs cellDeps st' := by
  unfold Cell.resolveTransactionDep at ran
  split_ifs at ran with group
  · -- a dep group: the group cell, its data, its members, the budget for them
    obtain ⟨⟨depGroup, resolvedCells⟩, resolvedGroup, ran⟩ := run_bind_eq_ok.mp ran
    obtain ⟨data, -, ran⟩ := run_bind_eq_ok.mp ran
    obtain ⟨subOutPoints, -, ran⟩ := run_bind_eq_ok.mp ran
    obtain ⟨remaining, charged, ran⟩ := run_bind_eq_ok.mp ran
    obtain ⟨members, folded, finished⟩ := run_bind_eq_ok.mp ran
    rw [run_pure_eq_ok] at finished
    subst finished
    obtain ⟨memo₁, liveGroup, unspentGroup, -⟩ := valid.memo.resolveCell resolvedGroup
    obtain ⟨fits, rfl⟩ := chargeDepSlots_run_eq_ok.mp charged
    obtain ⟨memo₂, length, groups, slots, sourced⟩ := resolveSubOutPoints_ok memo₁ folded
    refine ⟨memo₂, ?_, fun cellMeta member => ?_⟩
    · have budget := valid.budget
      dsimp only at length slots ⊢
      omega
    · simp only [groups, List.mem_append, List.mem_singleton] at member
      rcases member with inDeps | inGroups | rfl
      · rcases sourced cellMeta inDeps with old | fresh
        · exact valid.sourced cellMeta (List.mem_append_left _ old)
        · exact .inr fresh
      · exact valid.sourced cellMeta (List.mem_append_right _ inGroups)
      · exact .inr ⟨cellDep.outPoint, true, unspentGroup, liveGroup⟩
  · -- a code dep: one slot, one cell
    obtain ⟨remaining, charged, ran⟩ := run_bind_eq_ok.mp ran
    obtain ⟨⟨cellMeta, resolvedCells⟩, resolved, finished⟩ := run_bind_eq_ok.mp ran
    rw [run_pure_eq_ok] at finished
    subst finished
    obtain ⟨memo₁, live, unspent, -⟩ := valid.memo.resolveCell resolved
    obtain ⟨fits, rfl⟩ := chargeDepSlots_run_eq_ok.mp charged
    refine ⟨memo₁, ?_, fun cellMeta' member => ?_⟩
    · have budget := valid.budget
      simp only [List.length_append, List.length_singleton]
      omega
    · simp only [List.mem_append, List.mem_singleton] at member
      rcases member with (old | rfl) | inGroups
      · exact valid.sourced cellMeta' (List.mem_append_left _ old)
      · exact .inr ⟨cellDep.outPoint, eagerLoad, unspent, live⟩
      · exact valid.sourced cellMeta' (List.mem_append_right _ inGroups)

theorem DepsValid.resolveDepWithSystemCell {cellDeps : List (CellDep H)} {cache : SystemCellMap H}
    {st st' : DepsState H} {cellDep : CellDep H} (valid : DepsValid systemCell cellProvider seenInputs cellDeps st)
    (cached : systemCell = some cache) (member : cellDep ∈ cellDeps)
    (ran : (Cell.resolveDepWithSystemCell byte32 cellProvider seenInputs cache st cellDep).run = some (.ok st')) :
    DepsValid systemCell cellProvider seenInputs cellDeps st' := by
  unfold Cell.resolveDepWithSystemCell at ran
  split at ran
  · rename_i cellMeta found
    obtain ⟨remaining, charged, finished⟩ := run_bind_eq_ok.mp ran
    rw [run_pure_eq_ok] at finished
    subst finished
    obtain ⟨fits, rfl⟩ := chargeDepSlots_run_eq_ok.mp charged
    refine ⟨valid.memo, ?_, fun cellMeta' inDeps => ?_⟩
    · have budget := valid.budget
      simp only [List.length_append, List.length_singleton]
      omega
    · simp only [List.mem_append, List.mem_singleton] at inDeps
      rcases inDeps with (old | rfl) | inGroups
      · exact valid.sourced cellMeta' (List.mem_append_left _ old)
      · exact .inl ⟨cache, cached, cellDep, member, _, found, by simp [ResolvedDep.cellMetas]⟩
      · exact valid.sourced cellMeta' (List.mem_append_right _ inGroups)
  · rename_i depGroup groupDeps found
    obtain ⟨remaining, charged, finished⟩ := run_bind_eq_ok.mp ran
    rw [run_pure_eq_ok] at finished
    subst finished
    obtain ⟨fits, rfl⟩ := chargeDepSlots_run_eq_ok.mp charged
    refine ⟨valid.memo, ?_, fun cellMeta' inDeps => ?_⟩
    · have budget := valid.budget
      simp only [List.length_append]
      omega
    · have fromCache : cellMeta' ∈ groupDeps ∨ cellMeta' = depGroup →
          DepSourced systemCell cellProvider seenInputs cellDeps cellMeta' := by
        rintro (inGroup | rfl)
        · exact .inl ⟨cache, cached, cellDep, member, _, found, List.mem_cons_of_mem _ inGroup⟩
        · exact .inl ⟨cache, cached, cellDep, member, _, found, List.mem_cons_self⟩
      simp only [List.mem_append, List.mem_singleton] at inDeps
      rcases inDeps with (old | inGroup) | inGroups | rfl
      · exact valid.sourced cellMeta' (List.mem_append_left _ old)
      · exact fromCache (.inl inGroup)
      · exact valid.sourced cellMeta' (List.mem_append_right _ inGroups)
      · exact fromCache (.inr rfl)
  · exact valid.resolveTransactionDep ran

theorem resolveTransactionDepsWithSystemCellCache_ok {tx : TransactionView H} {resolvedCells : ResolvedCells H}
    {st : DepsState H} (memo : MemoValid cellProvider seenInputs resolvedCells)
    (ran : (resolveTransactionDepsWithSystemCellCache byte32 systemCell cellProvider seenInputs tx
      resolvedCells).run = some (.ok st)) :
    DepsValid systemCell cellProvider seenInputs tx.cellDeps st := by
  have start : DepsValid systemCell cellProvider seenInputs tx.cellDeps ⟨resolvedCells, [], [], maxDepExpansionLimit⟩ :=
    ⟨memo, by simp, by simp⟩
  unfold resolveTransactionDepsWithSystemCellCache at ran
  cases systemCell with
  | some cache =>
    exact foldlM_run_ok_invariant _ tx.cellDeps
      (fun _ _ _ member valid stepped => valid.resolveDepWithSystemCell rfl member stepped) start ran
  | none =>
    exact foldlM_run_ok_invariant _ tx.cellDeps
      (fun _ _ _ _ valid stepped => valid.resolveTransactionDep stepped) start ran

end Deps

section Inputs

variable {cellProvider : CellProvider H} {seenInputs : Finset (OutPoint H)}

variable (cellProvider seenInputs) in
/-- What the input loop has established once it has passed the out points `done`. -/
structure InputsDone (done : List (OutPoint H)) (st : InputsState H) : Prop where
  current : st.currentInputs = done.toFinset
  nodup : done.Nodup
  resolved : List.Forall₂ (fun outPoint cellMeta => cellProvider.cell outPoint false = .live cellMeta)
    done st.resolvedInputs
  unspent : ∀ outPoint ∈ done, outPoint ∉ seenInputs
  memo : MemoValid cellProvider seenInputs st.resolvedCells

/-- `resolve_input` returns for an out point not yet spent in the transaction, once its
`resolve_cell` does, and records the out point and the cell. -/
theorem resolveInput_run_eq_ok {st st' : InputsState H} {outPoint : OutPoint H}
    (ran : (resolveInput cellProvider seenInputs st outPoint).run = some (.ok st')) :
    outPoint ∉ st.currentInputs ∧ ∃ cellMeta resolvedCells,
      (resolveCell cellProvider seenInputs st.resolvedCells outPoint false).run = some (.ok (cellMeta, resolvedCells)) ∧
        st' = ⟨insert outPoint st.currentInputs, st.resolvedInputs ++ [cellMeta], resolvedCells⟩ := by
  unfold resolveInput at ran
  split_ifs at ran with repeated
  · simp [run_throw] at ran
  · obtain ⟨⟨cellMeta, resolvedCells⟩, resolved, finished⟩ := run_bind_eq_ok.mp ran
    rw [run_pure_eq_ok] at finished
    exact ⟨repeated, cellMeta, resolvedCells, resolved, finished.symm⟩

theorem inputsDone_nil : InputsDone cellProvider seenInputs [] ⟨∅, [], ∅⟩ :=
  ⟨rfl, .nil, .nil, by simp, memoValid_empty cellProvider seenInputs⟩

theorem InputsDone.resolveInput {done : List (OutPoint H)} {st st' : InputsState H} {outPoint : OutPoint H}
    (inputs : InputsDone cellProvider seenInputs done st)
    (ran : (Cell.resolveInput cellProvider seenInputs st outPoint).run = some (.ok st')) :
    InputsDone cellProvider seenInputs (done ++ [outPoint]) st' := by
  obtain ⟨repeated, cellMeta, resolvedCells, resolved, rfl⟩ := resolveInput_run_eq_ok ran
  obtain ⟨memo, live, unspent, -⟩ := inputs.memo.resolveCell resolved
  have fresh : outPoint ∉ done := by simpa [inputs.current] using repeated
  refine ⟨?_, ?_, List.rel_append inputs.resolved (.cons live .nil), fun outPoint' member => ?_, memo⟩
  · ext outPoint'
    simp [inputs.current]
  · have distinct : ∀ other ∈ done, other ≠ outPoint := fun other member same => fresh (same ▸ member)
    simpa [List.nodup_append, inputs.nodup] using distinct
  · rcases List.mem_append.mp member with old | new
    · exact inputs.unspent outPoint' old
    · rw [List.mem_singleton.mp new]
      exact unspent

end Inputs

variable [Inhabited H]

section Transaction

variable {byte32 : List UInt8 → H} {systemCell : Option (SystemCellMap H)} {cellProvider : CellProvider H}
  {seenInputs : Finset (OutPoint H)} {headerChecker : HeaderChecker H}

/-- The input loop resolves every input of a transaction that is not a cellbase, and nothing for
a cellbase. -/
theorem resolveInputs_ok {tx : TransactionView H} {st : InputsState H}
    (ran : (resolveInputs cellProvider seenInputs tx).run = some (.ok st)) :
    MemoValid cellProvider seenInputs st.resolvedCells ∧ (tx.isCellbase = true → st = ⟨∅, [], ∅⟩) ∧
      (tx.isCellbase = false → InputsDone cellProvider seenInputs tx.inputPts st) := by
  unfold resolveInputs at ran
  cases cellbase : tx.isCellbase
  · simp only [cellbase, Bool.not_false, ↓reduceIte] at ran
    have inputs := foldlM_run_ok_induction (InputsDone cellProvider seenInputs) tx.inputPts
      (fun _ _ _ _ _ inputs stepped => inputs.resolveInput stepped) inputsDone_nil ran
    exact ⟨inputs.memo, fun wrong => absurd wrong Bool.false_ne_true, fun _ => inputs⟩
  · simp only [cellbase, Bool.not_true, Bool.false_eq_true, ↓reduceIte, run_pure_eq_ok] at ran
    subst ran
    exact ⟨memoValid_empty cellProvider seenInputs, fun _ => rfl, fun wrong => Bool.noConfusion wrong⟩

theorem resolveTransactionBody_ok {tx : TransactionView H} {rtx : ResolvedTransaction H}
    {currentInputs : Finset (OutPoint H)}
    (ran : (resolveTransactionBody byte32 systemCell cellProvider seenInputs tx headerChecker).run =
      some (.ok (rtx, currentInputs))) :
    ∃ inputs deps, (tx.isCellbase = true → inputs = ⟨∅, [], ∅⟩) ∧
      (tx.isCellbase = false → InputsDone cellProvider seenInputs tx.inputPts inputs) ∧
      DepsValid systemCell cellProvider seenInputs tx.cellDeps deps ∧
      checkHeaderDeps headerChecker tx.headerDeps = .ok () ∧
      rtx = ⟨tx, deps.resolvedCellDeps, inputs.resolvedInputs, deps.resolvedDepGroups⟩ ∧
      currentInputs = inputs.currentInputs := by
  unfold resolveTransactionBody at ran
  obtain ⟨inputs, resolvedInputs, ran⟩ := run_bind_eq_ok.mp ran
  obtain ⟨deps, resolvedDeps, ran⟩ := run_bind_eq_ok.mp ran
  obtain ⟨⟨⟩, headers, finished⟩ := run_bind_eq_ok.mp ran
  rw [run_pure_eq_ok, Prod.mk.injEq] at finished
  obtain ⟨memo, cellbase, plain⟩ := resolveInputs_ok resolvedInputs
  refine ⟨inputs, deps, cellbase, plain, resolveTransactionDepsWithSystemCellCache_ok memo resolvedDeps,
    ?_, finished.1.symm, finished.2.symm⟩
  simpa using headers

theorem resolveTransaction_error {tx : TransactionView H} {e : OutPointError H} {seen : Finset (OutPoint H)}
    (ran : resolveTransaction byte32 systemCell tx seenInputs cellProvider headerChecker = some (.error e, seen)) :
    seen = seenInputs := by
  unfold resolveTransaction at ran
  split at ran
  · cases ran
  · simp only [Option.some.injEq, Prod.mk.injEq] at ran
    exact ran.2.symm
  · simp at ran

theorem resolveTransaction_ok {tx : TransactionView H} {rtx : ResolvedTransaction H} {seen : Finset (OutPoint H)}
    (ran : resolveTransaction byte32 systemCell tx seenInputs cellProvider headerChecker = some (.ok rtx, seen)) :
    ∃ currentInputs, (resolveTransactionBody byte32 systemCell cellProvider seenInputs tx headerChecker).run =
      some (.ok (rtx, currentInputs)) ∧ seen = seenInputs ∪ currentInputs := by
  unfold resolveTransaction at ran
  split at ran
  · cases ran
  · simp at ran
  · rename_i rtx' currentInputs body
    simp only [Option.some.injEq, Prod.mk.injEq, Except.ok.injEq] at ran
    obtain ⟨rfl, rfl⟩ := ran
    exact ⟨currentInputs, body, rfl⟩

theorem resolveTransaction_sound (honest : cellProvider.Honest) {tx : TransactionView H}
    {rtx : ResolvedTransaction H} {seen : Finset (OutPoint H)}
    (ran : resolveTransaction byte32 systemCell tx seenInputs cellProvider headerChecker = some (.ok rtx, seen)) :
    rtx.transaction = tx ∧
      (tx.isCellbase = false →
        rtx.resolvedInputs.map (·.outPoint) = tx.inputPts ∧
        List.Forall₂ (fun outPoint cellMeta => cellProvider.cell outPoint false = .live cellMeta)
          tx.inputPts rtx.resolvedInputs ∧
        tx.inputPts.Nodup ∧ ∀ outPoint ∈ tx.inputPts, outPoint ∉ seenInputs) ∧
      (tx.isCellbase = true → rtx.resolvedInputs = []) ∧
      (∀ cellMeta ∈ rtx.resolvedCellDeps ++ rtx.resolvedDepGroups,
        FromSystemCell systemCell tx.cellDeps cellMeta ∨
          cellMeta.outPoint ∉ seenInputs ∧ ∃ eagerLoad, cellProvider.cell cellMeta.outPoint eagerLoad = .live cellMeta) ∧
      rtx.resolvedCellDeps.length ≤ maxDepExpansionLimit ∧
      seen = seenInputs ∪ tx.spentOutPoints.toFinset := by
  obtain ⟨currentInputs, body, rfl⟩ := resolveTransaction_ok ran
  obtain ⟨inputs, deps, cellbase, plain, valid, -, rfl, rfl⟩ := resolveTransactionBody_ok body
  -- a provider's answer sits under the out point it was asked for
  have sourced : ∀ cellMeta ∈ deps.resolvedCellDeps ++ deps.resolvedDepGroups,
      FromSystemCell systemCell tx.cellDeps cellMeta ∨
        cellMeta.outPoint ∉ seenInputs ∧ ∃ eagerLoad, cellProvider.cell cellMeta.outPoint eagerLoad = .live cellMeta := by
    intro cellMeta member
    rcases valid.sourced cellMeta member with cached | ⟨outPoint, eagerLoad, unspent, live⟩
    · exact .inl cached
    · rw [honest outPoint eagerLoad cellMeta live]
      exact .inr ⟨unspent, eagerLoad, live⟩
  refine ⟨rfl, fun notCellbase => ?_, fun isCellbase => by rw [cellbase isCellbase], sourced,
    by have budget := valid.budget; simp only at budget ⊢; omega, ?_⟩
  · have done := plain notCellbase
    refine ⟨?_, done.resolved, done.nodup, done.unspent⟩
    -- the resolved inputs sit under the inputs' out points
    have sameOutPoints := done.resolved.imp fun outPoint cellMeta live => honest outPoint false cellMeta live
    clear done
    generalize tx.inputPts = outPoints at sameOutPoints ⊢
    generalize inputs.resolvedInputs = cellMetas at sameOutPoints ⊢
    induction sameOutPoints with
    | nil => rfl
    | cons same _ ih => simp [same, ih]
  · cases isCellbase : tx.isCellbase
    · simp [TransactionView.spentOutPoints, isCellbase, (plain isCellbase).current]
    · simp [TransactionView.spentOutPoints, isCellbase, cellbase isCellbase]

section Panics

/-- The provider hands out a cell's data whenever it is asked to load it. -/
def CellProvider.LoadsData (cellProvider : CellProvider H) : Prop :=
  ∀ outPoint cellMeta, cellProvider.cell outPoint true = .live cellMeta → cellMeta.memCellData.isSome

omit [Inhabited H] in
theorem resolveInput_run_ne_none (st : InputsState H) (outPoint : OutPoint H) :
    (resolveInput cellProvider seenInputs st outPoint).run ≠ none := by
  unfold resolveInput
  split_ifs
  · simp [run_throw]
  · exact run_bind_ne_none (resolveCell_run_ne_none _ _ _) fun _ _ => by simp

omit [Inhabited H] in
theorem resolveSubOutPoints_run_ne_none (eagerLoad : Bool) (subOutPoints : List (OutPoint H)) (st : DepsState H) :
    (subOutPoints.foldlM (resolveSubOutPoint cellProvider seenInputs eagerLoad) st).run ≠ none :=
  foldlM_run_ne_none (fun _ => True) _ (fun _ _ _ _ _ _ => trivial)
    (fun _ _ _ _ => run_bind_ne_none (resolveCell_run_ne_none _ _ _) fun _ _ => by simp) trivial

omit [Inhabited H] in
/-- A dep group's cell is resolved with its data, so reading the data never panics when the
provider loads data on request. -/
theorem resolveTransactionDep_run_ne_none (loads : cellProvider.LoadsData) {eagerLoad : Bool}
    {st : DepsState H} (memo : MemoValid cellProvider seenInputs st.resolvedCells) (cellDep : CellDep H) :
    (resolveTransactionDep byte32 cellProvider seenInputs eagerLoad st cellDep).run ≠ none := by
  unfold resolveTransactionDep
  split_ifs
  · refine run_bind_ne_none (resolveCell_run_ne_none _ _ _) fun ⟨depGroup, resolvedCells⟩ resolved => ?_
    obtain ⟨-, live, -, -⟩ := memo.resolveCell resolved
    obtain ⟨data, loaded⟩ := Option.isSome_iff_exists.mp (loads _ _ live)
    refine run_bind_ne_none (by simp [loaded]) fun _ _ => ?_
    refine run_bind_ne_none (by simp) fun _ _ => ?_
    refine run_bind_ne_none (by simp [chargeDepSlots]) fun _ _ => ?_
    exact run_bind_ne_none (resolveSubOutPoints_run_ne_none _ _ _) fun _ _ => by simp
  · refine run_bind_ne_none (by simp [chargeDepSlots]) fun _ _ => ?_
    exact run_bind_ne_none (resolveCell_run_ne_none _ _ _) fun _ _ => by simp

omit [Inhabited H] in
theorem resolveTransactionDepsWithSystemCellCache_run_ne_none (loads : cellProvider.LoadsData)
    (tx : TransactionView H) {resolvedCells : ResolvedCells H}
    (memo : MemoValid cellProvider seenInputs resolvedCells) :
    (resolveTransactionDepsWithSystemCellCache byte32 systemCell cellProvider seenInputs tx resolvedCells).run ≠
      none := by
  have start : DepsValid systemCell cellProvider seenInputs tx.cellDeps ⟨resolvedCells, [], [], maxDepExpansionLimit⟩ :=
    ⟨memo, by simp, by simp⟩
  unfold resolveTransactionDepsWithSystemCellCache
  cases systemCell with
  | some cache =>
    refine foldlM_run_ne_none _ tx.cellDeps
      (fun _ _ _ member valid stepped => valid.resolveDepWithSystemCell rfl member stepped) ?_ start
    intro st cellDep _ valid
    unfold resolveDepWithSystemCell
    split
    · exact run_bind_ne_none (by simp [chargeDepSlots]) fun _ _ => by simp
    · exact run_bind_ne_none (by simp [chargeDepSlots]) fun _ _ => by simp
    · exact resolveTransactionDep_run_ne_none loads valid.memo cellDep
  | none =>
    exact foldlM_run_ne_none _ tx.cellDeps (fun _ _ _ _ valid stepped => valid.resolveTransactionDep stepped)
      (fun _ cellDep _ valid => resolveTransactionDep_run_ne_none loads valid.memo cellDep) start

/-- `resolve_transaction` returns, with an error or a resolved transaction, whenever the provider
loads data on request. -/
theorem resolveTransaction_ne_none (loads : cellProvider.LoadsData) (tx : TransactionView H) :
    resolveTransaction byte32 systemCell tx seenInputs cellProvider headerChecker ≠ none := by
  have body : (resolveTransactionBody byte32 systemCell cellProvider seenInputs tx headerChecker).run ≠ none := by
    unfold resolveTransactionBody
    refine run_bind_ne_none ?_ fun inputs resolvedInputs => ?_
    · unfold resolveInputs
      split_ifs
      · exact foldlM_run_ne_none (fun _ => True) _ (fun _ _ _ _ _ _ => trivial)
          (fun st outPoint _ _ => resolveInput_run_ne_none st outPoint) trivial
      · simp
    · refine run_bind_ne_none (resolveTransactionDepsWithSystemCellCache_run_ne_none loads tx
        (resolveInputs_ok resolvedInputs).1) fun _ _ => ?_
      exact run_bind_ne_none (by simp) fun _ _ => by simp
  unfold resolveTransaction
  split
  · contradiction
  · simp
  · simp

end Panics

/-- Resolving a block's transactions in order against one `seen_inputs`: no out point is spent
twice or was spent before, and no transaction depends, outside the system cell cache, on a cell
an earlier one spent or one spent before the block. -/
theorem resolveBlockTransactions_sound (honest : cellProvider.Honest) {txs : List (TransactionView H)}
    {seen : Finset (OutPoint H)} {rtxs : List (ResolvedTransaction H)} {seen' : Finset (OutPoint H)}
    (ran : resolveBlockTransactions byte32 systemCell cellProvider headerChecker txs seen = some (.ok rtxs, seen')) :
    rtxs.map (·.transaction) = txs ∧
      seen' = seen ∪ (txs.flatMap (·.spentOutPoints)).toFinset ∧
      (txs.flatMap (·.spentOutPoints)).Nodup ∧
      (∀ outPoint ∈ txs.flatMap (·.spentOutPoints), outPoint ∉ seen) ∧
      (∀ rtx ∈ rtxs, ∀ cellMeta ∈ rtx.resolvedCellDeps ++ rtx.resolvedDepGroups,
        FromSystemCell systemCell rtx.transaction.cellDeps cellMeta ∨ cellMeta.outPoint ∉ seen) ∧
      rtxs.Pairwise fun earlier later => ∀ cellMeta ∈ later.resolvedCellDeps ++ later.resolvedDepGroups,
        FromSystemCell systemCell later.transaction.cellDeps cellMeta ∨
          cellMeta.outPoint ∉ earlier.transaction.spentOutPoints := by
  induction txs generalizing seen rtxs with
  | nil =>
    simp only [resolveBlockTransactions, Option.some.injEq, Prod.mk.injEq, Except.ok.injEq] at ran
    obtain ⟨rfl, rfl⟩ := ran
    simp
  | cons tx rest ih =>
    simp only [resolveBlockTransactions] at ran
    split at ran
    · cases ran
    · simp at ran
    rename_i rtx seen₁ first
    split at ran
    · cases ran
    · simp at ran
    rename_i rtxs' seen₂ later
    simp only [Option.some.injEq, Prod.mk.injEq, Except.ok.injEq] at ran
    obtain ⟨rfl, rfl⟩ := ran
    obtain ⟨sameTx, inputs, -, deps, -, rfl⟩ := resolveTransaction_sound honest first
    obtain ⟨sameTxs, rfl, nodup, unspent, depsAvoid, pairwise⟩ := ih later
    -- what the first transaction spends: its inputs, distinct and unspent, or nothing
    have spentFresh : tx.spentOutPoints.Nodup ∧ ∀ outPoint ∈ tx.spentOutPoints, outPoint ∉ seen := by
      unfold TransactionView.spentOutPoints
      cases isCellbase : tx.isCellbase
      · exact ⟨(inputs isCellbase).2.2.1, (inputs isCellbase).2.2.2⟩
      · simp
    have laterUnspent : ∀ outPoint ∈ rest.flatMap (·.spentOutPoints),
        outPoint ∉ seen ∧ outPoint ∉ tx.spentOutPoints := by
      intro outPoint member
      simpa [not_or] using unspent outPoint member
    refine ⟨by simp [sameTx, sameTxs], by simp [Finset.union_assoc], ?_, ?_, ?_, ?_⟩
    · rw [List.flatMap_cons, List.nodup_append]
      exact ⟨spentFresh.1, nodup, fun a early b late same => (laterUnspent b late).2 (same ▸ early)⟩
    · intro outPoint member
      rcases List.mem_append.mp (List.flatMap_cons ▸ member) with early | late
      · exact spentFresh.2 outPoint early
      · exact (laterUnspent outPoint late).1
    · intro rtx' member cellMeta inDeps
      rcases List.mem_cons.mp member with rfl | inRest
      · rcases deps cellMeta inDeps with cached | ⟨fresh, -⟩
        · exact .inl (sameTx ▸ cached)
        · exact .inr fresh
      · rcases depsAvoid rtx' inRest cellMeta inDeps with cached | fresh
        · exact .inl cached
        · exact .inr fun spent => fresh (by simp [spent])
    · refine List.pairwise_cons.mpr ⟨fun rtx' inRest cellMeta inDeps => ?_, pairwise⟩
      rcases depsAvoid rtx' inRest cellMeta inDeps with cached | fresh
      · exact .inl cached
      · refine .inr fun spent => fresh ?_
        rw [sameTx] at spent
        simp [spent]

end Transaction

section Contract

variable {byte32 : List UInt8 → H} {systemCell : Option (SystemCellMap H)} {cellProvider : CellProvider H}

/-- `resolve_transaction` leaves `seen_inputs` alone when it fails, returns whenever the provider
loads data on request, and on success resolves each input of a non-cellbase once, in order and
unspent, takes every dep it does not copy from `SYSTEM_CELL` from the provider unspent, stays within
`MAX_DEP_EXPANSION_LIMIT`, and adds exactly the inputs it spends to `seen_inputs`. Along a block no
two transactions spend one out point and none depends on a cell spent before it. -/
theorem resolve_transaction_contract (honest : cellProvider.Honest) :
    (∀ tx seenInputs headerChecker e seen,
      resolveTransaction byte32 systemCell tx seenInputs cellProvider headerChecker = some (.error e, seen) →
        seen = seenInputs) ∧
    (cellProvider.LoadsData → ∀ tx seenInputs headerChecker,
      resolveTransaction byte32 systemCell tx seenInputs cellProvider headerChecker ≠ none) ∧
    (∀ tx seenInputs headerChecker rtx seen,
      resolveTransaction byte32 systemCell tx seenInputs cellProvider headerChecker = some (.ok rtx, seen) →
        rtx.transaction = tx ∧
        (tx.isCellbase = false →
          rtx.resolvedInputs.map (·.outPoint) = tx.inputPts ∧
          List.Forall₂ (fun outPoint cellMeta => cellProvider.cell outPoint false = .live cellMeta)
            tx.inputPts rtx.resolvedInputs ∧
          tx.inputPts.Nodup ∧ ∀ outPoint ∈ tx.inputPts, outPoint ∉ seenInputs) ∧
        (tx.isCellbase = true → rtx.resolvedInputs = []) ∧
        (∀ cellMeta ∈ rtx.resolvedCellDeps ++ rtx.resolvedDepGroups,
          FromSystemCell systemCell tx.cellDeps cellMeta ∨
            cellMeta.outPoint ∉ seenInputs ∧
              ∃ eagerLoad, cellProvider.cell cellMeta.outPoint eagerLoad = .live cellMeta) ∧
        rtx.resolvedCellDeps.length ≤ maxDepExpansionLimit ∧
        seen = seenInputs ∪ tx.spentOutPoints.toFinset) ∧
    (∀ txs seenInputs headerChecker rtxs seen,
      resolveBlockTransactions byte32 systemCell cellProvider headerChecker txs seenInputs = some (.ok rtxs, seen) →
        rtxs.map (·.transaction) = txs ∧
        seen = seenInputs ∪ (txs.flatMap (·.spentOutPoints)).toFinset ∧
        (txs.flatMap (·.spentOutPoints)).Nodup ∧
        (∀ outPoint ∈ txs.flatMap (·.spentOutPoints), outPoint ∉ seenInputs) ∧
        (∀ rtx ∈ rtxs, ∀ cellMeta ∈ rtx.resolvedCellDeps ++ rtx.resolvedDepGroups,
          FromSystemCell systemCell rtx.transaction.cellDeps cellMeta ∨ cellMeta.outPoint ∉ seenInputs) ∧
        rtxs.Pairwise fun earlier later => ∀ cellMeta ∈ later.resolvedCellDeps ++ later.resolvedDepGroups,
          FromSystemCell systemCell later.transaction.cellDeps cellMeta ∨
            cellMeta.outPoint ∉ earlier.transaction.spentOutPoints) :=
  ⟨fun _ _ _ _ _ ran => resolveTransaction_error ran,
    fun loads tx _ _ => resolveTransaction_ne_none loads tx,
    fun _ _ _ _ _ ran => resolveTransaction_sound honest ran,
    fun _ _ _ _ _ ran => resolveBlockTransactions_sound honest ran⟩

/-- Outputs of transaction 7 are live, with empty data; every other out point is unknown. -/
def sampleProvider : CellProvider ℕ :=
  ⟨fun outPoint _ => if outPoint.txHash = 7 then .live ⟨⟨100, ⟨0, .data, []⟩, none⟩, outPoint, none, 0, some [], none⟩
    else .unknown⟩

theorem sampleProvider_honest : sampleProvider.Honest := by
  intro outPoint eagerLoad cellMeta live
  simp only [sampleProvider] at live
  split at live
  · cases live
    rfl
  · cases live

/-- Spends two outputs of transaction 7 and depends on a third. -/
def sampleTx : TransactionView ℕ := ⟨1, [⟨⟨7, 5⟩, .code⟩], [], [⟨⟨7, 0⟩, 0⟩, ⟨⟨7, 1⟩, 0⟩], [], [], [[]]⟩

theorem sampleTx_resolved_within_budget :
    sampleProvider.Honest ∧
      (resolveTransaction (fun _ => 0) none sampleTx ∅ sampleProvider ⟨fun _ => .ok ()⟩).map
        (·.1.toBool) = some true ∧ ∀ rtx seen,
      resolveTransaction (fun _ => 0) none sampleTx ∅ sampleProvider ⟨fun _ => .ok ()⟩ = some (.ok rtx, seen) →
        rtx.resolvedCellDeps.length ≤ maxDepExpansionLimit ∧ seen = ∅ ∪ sampleTx.spentOutPoints.toFinset :=
  ⟨sampleProvider_honest, by decide, fun rtx seen ran =>
    ⟨((resolve_transaction_contract sampleProvider_honest).2.2.1 _ _ _ rtx seen ran).2.2.2.2.1,
      ((resolve_transaction_contract sampleProvider_honest).2.2.1 _ _ _ rtx seen ran).2.2.2.2.2⟩⟩

/-- A cellbase: one input spending the null out point, and one witness. -/
def sampleCellbase : TransactionView ℕ := ⟨9, [], [], [⟨OutPoint.null, 0⟩], [], [], [[]]⟩

theorem cellbase_input_not_seen :
    ∃ rtx seen, resolveTransaction (fun _ => 0) none sampleCellbase ∅ sampleProvider ⟨fun _ => .ok ()⟩ =
      some (.ok rtx, seen) ∧ seen ≠ ∅ ∪ sampleCellbase.inputPts.toFinset :=
  ⟨_, _, rfl, by decide⟩

end Contract

end Ckb.Cell
