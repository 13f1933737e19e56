import Ckb.TxPool.PoolMap

namespace Ckb.TxPool

variable {H I : Type} [DecidableEq H]

namespace Edges

section Single

variable [DecidableEq I]

theorem mem_deleteTxidByDep (e : Edges H I) (d o : OutPoint H) (txid k : I) :
    k ∈ ((e.deleteTxidByDep d txid).deps.lookup o).getD ∅ ↔
      k ∈ (e.deps.lookup o).getD ∅ ∧ ¬(o = d ∧ k = txid) := by
  rw [lookup_deleteTxidByDep]
  by_cases same : o = d
  · cases found : e.deps.lookup o with
    | none => simp [same, found]
    | some ids =>
      by_cases empty : ids.erase txid = ∅
      · have gone : k ∉ ids.erase txid := by simp [empty]
        simp only [Finset.mem_erase] at gone
        simp [same, found, empty]
        tauto
      · simp [same, found, empty, and_comm]
  · simp [same]

theorem nonempty_deleteTxidByDep {e : Edges H I}
    (nonempty : ∀ o ids, e.deps.lookup o = some ids → ids.Nonempty) (d : OutPoint H) (txid : I) :
    ∀ o ids, (e.deleteTxidByDep d txid).deps.lookup o = some ids → ids.Nonempty := by
  intro o ids found
  rw [lookup_deleteTxidByDep] at found
  split at found
  · split at found
    · split at found
      · cases found
      · cases found
        exact Finset.nonempty_iff_ne_empty.mpr ‹_›
    · cases found
  · exact nonempty o ids found

theorem mem_insertDeps (e : Edges H I) (d o : OutPoint H) (txid k : I) :
    k ∈ ((e.insertDeps d txid).deps.lookup o).getD ∅ ↔
      (o = d ∧ k = txid) ∨ k ∈ (e.deps.lookup o).getD ∅ := by
  rw [lookup_insertDeps]
  by_cases same : o = d <;> simp [same]

end Single

/-- The input loop of `record_entry_edges`, when no input is spent already: every input now maps to
`txid`, none was recorded before, and no input repeats. -/
theorem recordInputs_ok [DecidableEq I] {txid : I} {inputs : List (OutPoint H)} {e e' : Edges H I}
    (recorded : PoolMap.recordInputs txid inputs e = (e', none)) :
    (∀ o, e'.inputs.lookup o = if o ∈ inputs then some txid else e.inputs.lookup o) ∧
      (∀ o ∈ inputs, e.inputs.lookup o = none) ∧ inputs.Nodup ∧
      e'.deps = e.deps ∧ e'.headerDeps = e.headerDeps := by
  induction inputs generalizing e with
  | nil =>
    cases recorded
    simp
  | cons input rest ih =>
    unfold PoolMap.recordInputs insertInput at recorded
    cases found : e.inputs.lookup input with
    | some old => simp [found] at recorded
    | none =>
      simp only [found] at recorded
      obtain ⟨lookups, fresh, nodup, deps, headerDeps⟩ := ih recorded
      have notLater : input ∉ rest := by
        intro later
        have stillFree := fresh input later
        simp at stillFree
      refine ⟨?_, ?_, List.nodup_cons.mpr ⟨notLater, nodup⟩, deps, headerDeps⟩
      · intro o
        rw [lookups o]
        by_cases same : o = input
        · subst same
          simp [notLater]
        · by_cases later : o ∈ rest
          · simp [later]
          · simp [later, same, Finmap.lookup_insert_of_ne _ same]
      · intro o member
        rcases List.mem_cons.mp member with same | later
        · rw [same, found]
        · have freeAfter := fresh o later
          by_cases same : o = input
          · subst same
            simp at freeAfter
          · rwa [Finmap.lookup_insert_of_ne _ same] at freeAfter

theorem recordInputs_reject [DecidableEq I] {txid : I} {inputs : List (OutPoint H)} {e e' : Edges H I}
    {reject : Reject H I} (recorded : PoolMap.recordInputs txid inputs e = (e', some reject)) :
    ∃ o old, reject = .rbfRejected o old txid := by
  induction inputs generalizing e with
  | nil => cases recorded
  | cons input rest ih =>
    unfold PoolMap.recordInputs insertInput at recorded
    cases found : e.inputs.lookup input with
    | some old =>
      simp only [found, Prod.mk.injEq, Option.some.injEq] at recorded
      exact ⟨input, old, recorded.2.symm⟩
    | none =>
      simp only [found] at recorded
      exact ih recorded

end Edges

namespace PoolMap

variable [LinearOrder I] (env : PoolEnv H I)

section Fold

variable (ids : List (OutPoint H)) (e : Edges H I) (txid : I)

theorem deps_foldl_insertDeps (o : OutPoint H) (k : I) :
    k ∈ (((ids.foldl (fun edges d => edges.insertDeps d txid) e).deps.lookup o).getD ∅) ↔
      (o ∈ ids ∧ k = txid) ∨ k ∈ (e.deps.lookup o).getD ∅ := by
  induction ids generalizing e with
  | nil => simp
  | cons d rest ih =>
    rw [List.foldl_cons, ih, Edges.mem_insertDeps]
    simp only [List.mem_cons]
    tauto

theorem nonempty_foldl_insertDeps (nonempty : ∀ o ids, e.deps.lookup o = some ids → ids.Nonempty) :
    ∀ o ids', (ids.foldl (fun edges d => edges.insertDeps d txid) e).deps.lookup o = some ids' →
      ids'.Nonempty := by
  induction ids generalizing e with
  | nil => exact nonempty
  | cons d rest ih =>
    apply ih
    intro o ids' found
    rw [Edges.lookup_insertDeps] at found
    split at found
    · cases found
      exact Finset.insert_nonempty _ _
    · exact nonempty o ids' found

@[simp] theorem inputs_foldl_insertDeps :
    (ids.foldl (fun edges d => edges.insertDeps d txid) e).inputs = e.inputs := by
  induction ids generalizing e with
  | nil => rfl
  | cons d rest ih => exact ih _

@[simp] theorem headerDeps_foldl_insertDeps :
    (ids.foldl (fun edges d => edges.insertDeps d txid) e).headerDeps = e.headerDeps := by
  induction ids generalizing e with
  | nil => rfl
  | cons d rest ih => exact ih _

theorem deps_foldl_deleteTxidByDep (o : OutPoint H) (k : I) :
    k ∈ (((ids.foldl (fun edges d => edges.deleteTxidByDep d txid) e).deps.lookup o).getD ∅) ↔
      k ∈ (e.deps.lookup o).getD ∅ ∧ ¬(o ∈ ids ∧ k = txid) := by
  induction ids generalizing e with
  | nil => simp
  | cons d rest ih =>
    rw [List.foldl_cons, ih, Edges.mem_deleteTxidByDep]
    simp only [List.mem_cons]
    tauto

theorem nonempty_foldl_deleteTxidByDep (nonempty : ∀ o ids, e.deps.lookup o = some ids → ids.Nonempty) :
    ∀ o ids', (ids.foldl (fun edges d => edges.deleteTxidByDep d txid) e).deps.lookup o = some ids' →
      ids'.Nonempty := by
  induction ids generalizing e with
  | nil => exact nonempty
  | cons d rest ih => exact ih _ (Edges.nonempty_deleteTxidByDep nonempty d txid)

@[simp] theorem inputs_foldl_deleteTxidByDep :
    (ids.foldl (fun edges d => edges.deleteTxidByDep d txid) e).inputs = e.inputs := by
  induction ids generalizing e with
  | nil => rfl
  | cons d rest ih => rw [List.foldl_cons, ih, Edges.deleteTxidByDep_inputs]

@[simp] theorem headerDeps_foldl_deleteTxidByDep :
    (ids.foldl (fun edges d => edges.deleteTxidByDep d txid) e).headerDeps = e.headerDeps := by
  induction ids generalizing e with
  | nil => rfl
  | cons d rest ih => rw [List.foldl_cons, ih, Edges.deleteTxidByDep_headerDeps]

theorem inputs_foldl_removeInput (o : OutPoint H) :
    (ids.foldl (fun edges i => (edges.removeInput i).2) e).inputs.lookup o =
      if o ∈ ids then none else e.inputs.lookup o := by
  induction ids generalizing e with
  | nil => simp
  | cons i rest ih =>
    rw [List.foldl_cons, ih]
    by_cases same : o = i
    · subst same
      simp [Edges.removeInput]
    · by_cases later : o ∈ rest
      · simp [later]
      · simp [later, same, Edges.removeInput, Finmap.lookup_erase_ne same]

@[simp] theorem deps_foldl_removeInput :
    (ids.foldl (fun edges i => (edges.removeInput i).2) e).deps = e.deps := by
  induction ids generalizing e with
  | nil => rfl
  | cons i rest ih => exact ih _

@[simp] theorem headerDeps_foldl_removeInput :
    (ids.foldl (fun edges i => (edges.removeInput i).2) e).headerDeps = e.headerDeps := by
  induction ids generalizing e with
  | nil => rfl
  | cons i rest ih => exact ih _

end Fold

section RemoveEntryEdges

variable (s : PoolMap H I) (entry : TxEntry H)

@[simp] theorem removeEntryEdges_entries : (removeEntryEdges env s entry).entries = s.entries := rfl

@[simp] theorem removeEntryEdges_links : (removeEntryEdges env s entry).links = s.links := rfl

theorem removeEntryEdges_inputs (o : OutPoint H) :
    (removeEntryEdges env s entry).edges.inputs.lookup o =
      if o ∈ entry.transaction.inputPts then none else s.edges.inputs.lookup o := by
  simp [removeEntryEdges, inputs_foldl_removeInput]

theorem removeEntryEdges_deps (o : OutPoint H) (k : I) :
    k ∈ ((removeEntryEdges env s entry).edges.deps.lookup o).getD ∅ ↔
      k ∈ (s.edges.deps.lookup o).getD ∅ ∧
        ¬(o ∈ entry.relatedDepOutPoints ∧ k = entry.proposalShortId env) := by
  simp only [removeEntryEdges]
  rw [deps_foldl_deleteTxidByDep, deps_foldl_removeInput]

theorem removeEntryEdges_nonempty (nonempty : ∀ o ids, s.edges.deps.lookup o = some ids → ids.Nonempty) :
    ∀ o ids, (removeEntryEdges env s entry).edges.deps.lookup o = some ids → ids.Nonempty := by
  simp only [removeEntryEdges]
  apply nonempty_foldl_deleteTxidByDep
  rwa [deps_foldl_removeInput]

theorem removeEntryEdges_headerDeps (k : I) :
    k ∈ (removeEntryEdges env s entry).edges.headerDeps ↔
      k ≠ entry.proposalShortId env ∧ k ∈ s.edges.headerDeps := by
  simp [removeEntryEdges, Finmap.mem_erase]

end RemoveEntryEdges

theorem mem_collectChild (edges : Edges H I) (children : Finset I) (o : OutPoint H) (k : I) :
    k ∈ collectChild edges children o ↔
      k ∈ children ∨ k ∈ (edges.deps.lookup o).getD ∅ ∨ edges.inputs.lookup o = some k := by
  unfold collectChild
  cases spender : edges.inputs.lookup o with
  | none => cases edges.deps.lookup o <;> simp
  | some id =>
    have spent : some id = some k ↔ k = id := by simp [eq_comm]
    rw [spent]
    cases edges.deps.lookup o <;> simp <;> tauto

/-- The children `record_entry_descendants` collects: whoever spends an output of the new
transaction or uses one as a cell dep. -/
theorem mem_collectChildren (edges : Edges H I) (outputs : List (OutPoint H)) (k : I) :
    k ∈ collectChildren edges outputs ↔
      ∃ o ∈ outputs, k ∈ (edges.deps.lookup o).getD ∅ ∨ edges.inputs.lookup o = some k := by
  unfold collectChildren
  -- the accumulator holds the children of the outputs already visited
  have general : ∀ (children : Finset I), k ∈ outputs.foldl (collectChild edges) children ↔
      k ∈ children ∨ ∃ o ∈ outputs, k ∈ (edges.deps.lookup o).getD ∅ ∨ edges.inputs.lookup o = some k := by
    induction outputs with
    | nil => simp
    | cons o rest ih =>
      intro children
      rw [List.foldl_cons, ih, mem_collectChild]
      simp only [List.mem_cons, exists_eq_or_imp, or_assoc]
  simpa using general ∅

end PoolMap

end Ckb.TxPool
