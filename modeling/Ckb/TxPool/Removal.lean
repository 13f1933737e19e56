import Ckb.TxPool.Indexes

/-!
The removing calls of the pool map keep its indexes consistent: `remove_entry`,
`remove_entry_and_descendants`, `resolve_conflict`, `resolve_conflict_header_dep`, and `set_entry`,
which only moves an entry between statuses.
-/

namespace Ckb.TxPool

variable {H I : Type} [DecidableEq H] [LinearOrder I] {env : PoolEnv H I}

namespace PoolMap

variable (env) in
theorem removeEntry_absent {s s' : PoolMap H I} {r : I} {removed : Option (TxEntry H)}
    (absent : s.entries.lookup r = none) (ran : removeEntry env s r = some (s', removed)) :
    s' = s ∧ removed = none := by
  simp only [removeEntry, absent, Option.some.injEq, Prod.mk.injEq] at ran
  exact ⟨ran.1.symm, ran.2.symm⟩

variable (env) in
theorem removeEntry_found {s s' : PoolMap H I} {r : I} {e : PoolEntry H I} {removed : Option (TxEntry H)}
    (found : s.entries.lookup r = some e) (ran : removeEntry env s r = some (s', removed)) :
    SameFrames s'.entries (s.entries.erase r) ∧
      s'.edges = (removeEntryEdges env s e.inner).edges ∧
      s'.links = (removeEntryLinks s r).links ∧
      (∀ status, s'.counter status + (if e.status = status then 1 else 0) = s.counter status) ∧
      s'.totalTxSize = (checkedSub s.totalTxSize e.inner.size).getD 0 ∧
      removed = some e.inner := by
  simp only [removeEntry, found, Option.bind_eq_bind] at ran
  obtain ⟨tracked, tracking, done⟩ := Option.bind_eq_some_iff.mp ran
  obtain ⟨entries, edges, links, total, -, counts⟩ := trackEntryStatics_eq tracking
  simp only [pure, Option.some.injEq, Prod.mk.injEq] at done
  obtain ⟨rfl, rfl⟩ := done
  refine ⟨?_, edges, links, fun status => ?_, by simp only [updateStatForRemoveTx, total]; rfl, rfl⟩
  · -- the two index-key updates keep every frame
    simp only [updateStatForRemoveTx, entries, removeEntryLinks_entries, removeEntryEdges_entries]
    exact (updateDescendantsIndexKey_frames env _ e.inner .remove).trans
      (updateAncestorsIndexKey_frames env _ e.inner .remove)
  · have moved := counts status
    simp only [Option.some.injEq, reduceCtorEq, if_false, add_zero] at moved
    rw [counter_updateStatForRemoveTx]
    exact moved

end PoolMap

section CountLemmas

omit [DecidableEq H]

theorem countStatus_erase {s : PoolMap H I} {r : I} {e : PoolEntry H I} (found : s.entries.lookup r = some e)
    (status : Status) :
    FiniteMap.sumBy (s.entries.erase r) (fun e => if e.status = status then 1 else 0) +
        (if e.status = status then 1 else 0) = s.countStatus status :=
  FiniteMap.sumBy_erase found _

theorem sumSizes_erase {s : PoolMap H I} {r : I} {e : PoolEntry H I} (found : s.entries.lookup r = some e) :
    FiniteMap.sumBy (s.entries.erase r) (·.inner.size) + e.inner.size = s.sumSizes :=
  FiniteMap.sumBy_erase found _

end CountLemmas

variable (env) in
/-- `remove_entry` keeps the total size the sum of the sizes: the subtraction cannot underflow
while the total still counts the removed entry. -/
theorem PoolMap.removeEntry_total_size {s s' : PoolMap H I} {r : I} {removed : Option (TxEntry H)}
    (exact : s.totalTxSize = s.sumSizes) (ran : PoolMap.removeEntry env s r = some (s', removed)) :
    s'.totalTxSize = s'.sumSizes := by
  cases found : s.entries.lookup r with
  | none =>
    obtain ⟨rfl, -⟩ := PoolMap.removeEntry_absent env found ran
    exact exact
  | some e =>
    obtain ⟨frames, -, -, -, total, -⟩ := PoolMap.removeEntry_found env found ran
    have sizes := sumSizes_erase found
    have sizesAfter : s'.sumSizes = FiniteMap.sumBy (s.entries.erase r) (·.inner.size) :=
      SameFrames.sumBy_eq frames fun frame => frame.2.2.2
    rw [total, checkedSub, if_pos (by omega), Option.getD_some]
    omega

variable (env) in
theorem PoolMap.removeEntry_isSome {s : PoolMap H I} (counted : ∀ status, s.counter status = s.countStatus status)
    (r : I) : (PoolMap.removeEntry env s r).isSome := by
  cases found : s.entries.lookup r with
  | none => simp [PoolMap.removeEntry, found]
  | some e =>
    have listed : r ∈ s.entries.keys := Finmap.mem_keys.mpr (Finmap.mem_of_lookup_eq_some found)
    have fewer : (s.entries.erase r).keys.card + 1 = s.entries.keys.card := by
      rw [Finmap.keys_erase, Finset.card_erase_add_one listed]
    have held : s.counter e.status ≠ 0 := by
      have erased := countStatus_erase found e.status
      rw [counted e.status]
      simp only [if_pos] at erased
      omega
    have total : s.counter .pending + s.counter .gap + s.counter .proposed = s.entries.keys.card := by
      rw [counted, counted, counted, PoolMap.countStatus_sum]
    -- the index-key updates keep the frames of the erased map, so its keys
    have frames := (PoolMap.updateDescendantsIndexKey_frames env _ e.inner .remove).trans
      (PoolMap.updateAncestorsIndexKey_frames env { s with entries := s.entries.erase r } e.inner .remove)
    simp only [PoolMap.removeEntry, found, Option.bind_eq_bind, Option.isSome_bind]
    refine Option.any_eq_true _ _ |>.mpr ?_
    obtain ⟨tracked, tracking⟩ := Option.isSome_iff_exists.mp (PoolMap.trackEntryStatics_remove_isSome
      (s := PoolMap.removeEntryLinks (PoolMap.removeEntryEdges env (PoolMap.updateDescendantsIndexKey env
        (PoolMap.updateAncestorsIndexKey env { s with entries := s.entries.erase r } e.inner .remove) e.inner .remove)
          e.inner) r) (by simpa using held) (by
        simp only [PoolMap.counter_removeEntryLinks, PoolMap.counter_removeEntryEdges,
          PoolMap.counter_updateDescendantsIndexKey, PoolMap.counter_updateAncestorsIndexKey,
          PoolMap.counter_withEntries, PoolMap.removeEntryLinks_entries, PoolMap.removeEntryEdges_entries, frames.keys_eq]
        omega))
    exact ⟨tracked, tracking, rfl⟩

theorem CountersExact.removeEntry {s s' : PoolMap H I} {r : I} {removed : Option (TxEntry H)}
    (counted : CountersExact s) (ran : PoolMap.removeEntry env s r = some (s', removed)) : CountersExact s' := by
  refine ⟨fun status => ?_, PoolMap.removeEntry_total_size env counted.total_size ran⟩
  cases found : s.entries.lookup r with
  | none =>
    obtain ⟨rfl, -⟩ := PoolMap.removeEntry_absent env found ran
    exact counted.counts status
  | some e =>
    obtain ⟨frames, -, -, counts, -, -⟩ := PoolMap.removeEntry_found env found ran
    have before := counted.counts status
    have erased := countStatus_erase found status
    have countedAfter : s'.countStatus status =
        FiniteMap.sumBy (s.entries.erase r) (fun e => if e.status = status then 1 else 0) :=
      SameFrames.sumBy_eq frames fun frame => if frame.2.1 = status then 1 else 0
    have moved := counts status
    omega

namespace Consistent

variable {freedInputs freedDeps : Finset (OutPoint H)}

/-- Removing the entry at `r` keeps the edge indexes exact: its inputs, deps and header deps leave
with it. -/
theorem edgesExact_remove {s : PoolMap H I} {r : I} {e : PoolEntry H I}
    (exact : EdgesExact env freedInputs freedDeps s.entries s.edges) (found : s.entries.lookup r = some e) :
    EdgesExact env freedInputs freedDeps (s.entries.erase r) (PoolMap.removeEntryEdges env s e.inner).edges := by
  have keyedR : e.inner.proposalShortId env = r := exact.keyed r e found
  have lookupErase : ∀ k, (s.entries.erase r).lookup k = if k = r then none else s.entries.lookup k := by
    intro k
    by_cases same : k = r
    · subst same
      simp
    · simp [same, Finmap.lookup_erase_ne same]
  -- a fact about an entry of the smaller map is the same fact about a different entry of the map
  have narrowed : ∀ (P : PoolEntry H I → Prop) k,
      (∃ e', (s.entries.erase r).lookup k = some e' ∧ P e') ↔
        k ≠ r ∧ ∃ e', s.entries.lookup k = some e' ∧ P e' := by
    intro P k
    rw [lookupErase]
    by_cases same : k = r <;> simp [same]
  have spendsErase : ∀ k o, Spends (s.entries.erase r) k o ↔ k ≠ r ∧ Spends s.entries k o :=
    fun k o => narrowed (fun e' => o ∈ e'.inner.transaction.inputPts) k
  have dependsErase : ∀ k o, DependsOn (s.entries.erase r) k o ↔ k ≠ r ∧ DependsOn s.entries k o :=
    fun k o => narrowed (fun e' => o ∈ e'.inner.relatedDepOutPoints) k
  have headersErase : ∀ k, HasHeaderDeps (s.entries.erase r) k ↔ k ≠ r ∧ HasHeaderDeps s.entries k :=
    fun k => narrowed (fun e' => e'.inner.transaction.headerDeps ≠ []) k
  have spendsR : ∀ o, Spends s.entries r o ↔ o ∈ e.inner.transaction.inputPts := by
    intro o
    simp [Spends, found]
  have dependsR : ∀ o, DependsOn s.entries r o ↔ o ∈ e.inner.relatedDepOutPoints := by
    intro o
    simp [DependsOn, found]
  refine ⟨?_, ?_, ?_, PoolMap.removeEntryEdges_nonempty env s e.inner exact.deps_nonempty, ?_, ?_⟩
  · intro k e' found'
    rw [lookupErase] at found'
    split at found'
    · cases found'
    · exact exact.keyed k e' found'
  · intro o id id' first second
    rw [spendsErase] at first second
    exact exact.single_spender o id id' first.2 second.2
  · intro o id
    rw [PoolMap.removeEntryEdges_inputs, spendsErase]
    by_cases spentHere : o ∈ e.inner.transaction.inputPts
    · -- the only spender of an input of the removed entry is that entry
      simp only [spentHere, if_true, reduceCtorEq, false_iff, not_and]
      intro _ other spends
      exact other (exact.single_spender o id r spends ((spendsR o).mpr spentHere))
    · rw [if_neg spentHere, exact.inputs_exact o id]
      constructor
      · rintro ⟨free, spends⟩
        refine ⟨free, ?_, spends⟩
        rintro rfl
        exact spentHere ((spendsR o).mp spends)
      · rintro ⟨free, -, spends⟩
        exact ⟨free, spends⟩
  · intro o id
    rw [PoolMap.removeEntryEdges_deps, exact.deps_exact o id, dependsErase, keyedR]
    by_cases same : id = r
    · subst same
      rw [dependsR]
      tauto
    · simp [same]
  · intro id
    rw [PoolMap.removeEntryEdges_headerDeps, exact.headerDeps_exact id, headersErase, keyedR]

theorem removeEntryLinks {freedInputs freedDeps : Finset (OutPoint H)} {s : PoolMap H I}
    (cons : Consistent env freedInputs freedDeps s) (r : I) :
    Consistent env freedInputs freedDeps (PoolMap.removeEntryLinks s r) where
  edges := cons.edges
  links :=
    { linked := fun k linked => cons.links.linked k ((PoolMap.mem_removeEntryLinks s r k).mp linked).2
      symmetric := PoolMap.symmetric_removeEntryLinks cons.links.symmetric r }
  counters := ⟨fun status => cons.counters.counts status, cons.counters.total_size⟩

theorem removeEntry {s s' : PoolMap H I} {r : I} {removed : Option (TxEntry H)}
    (cons : Consistent env freedInputs freedDeps s) (ran : PoolMap.removeEntry env s r = some (s', removed)) :
    Consistent env freedInputs freedDeps s' := by
  cases found : s.entries.lookup r with
  | none =>
    obtain ⟨same, -⟩ := PoolMap.removeEntry_absent env found ran
    subst s'
    exact cons
  | some e =>
    obtain ⟨frames, edges, links, -, -, -⟩ := PoolMap.removeEntry_found env found ran
    refine ⟨?_, ⟨?_, ?_⟩, cons.counters.removeEntry ran⟩
    · rw [edges]
      exact (edgesExact_remove cons.edges found).of_sameFrames frames
    · intro k linked
      rw [links, PoolMap.mem_removeEntryLinks] at linked
      rw [SameFrames.mem_iff frames, Finmap.mem_erase]
      exact ⟨linked.1, cons.links.linked k linked.2⟩
    · rw [links]
      exact PoolMap.symmetric_removeEntryLinks cons.links.symmetric r

theorem removeEntry_keys {s s' : PoolMap H I} {r : I} {removed : Option (TxEntry H)}
    (cons : Consistent env freedInputs freedDeps s) (ran : PoolMap.removeEntry env s r = some (s', removed)) :
    (∀ k, k ∈ s'.entries ↔ k ≠ r ∧ k ∈ s.entries) ∧
      (∀ k, k ∈ s'.links.inner ↔ k ≠ r ∧ k ∈ s.links.inner) ∧ TxsWithin s'.entries s.entries := by
  cases found : s.entries.lookup r with
  | none =>
    obtain ⟨same, -⟩ := PoolMap.removeEntry_absent env found ran
    subst s'
    have absent : r ∉ s.entries := Finmap.lookup_eq_none.mp found
    refine ⟨fun k => ?_, fun k => ?_, TxsWithin.refl _⟩
    · constructor
      · intro member
        exact ⟨fun same => absent (same ▸ member), member⟩
      · exact fun member => member.2
    · constructor
      · intro linked
        exact ⟨fun same => absent (same ▸ cons.links.linked k linked), linked⟩
      · exact fun linked => linked.2
  | some e =>
    obtain ⟨frames, -, links, -, -, -⟩ := PoolMap.removeEntry_found env found ran
    refine ⟨fun k => ?_, fun k => ?_, (TxsWithin.of_sameFrames frames).trans (TxsWithin.erase _ r)⟩
    · rw [SameFrames.mem_iff frames, Finmap.mem_erase]
    · rw [links, PoolMap.mem_removeEntryLinks]

end Consistent

theorem Consistent.foldl_removeEntryLinks {freedInputs freedDeps : Finset (OutPoint H)} (ids : List I) :
    ∀ {s : PoolMap H I}, Consistent env freedInputs freedDeps s →
      Consistent env freedInputs freedDeps (ids.foldl PoolMap.removeEntryLinks s) ∧
        (ids.foldl PoolMap.removeEntryLinks s).entries = s.entries ∧
        ∀ k, k ∈ (ids.foldl PoolMap.removeEntryLinks s).links.inner ↔ k ∉ ids ∧ k ∈ s.links.inner := by
  induction ids with
  | nil =>
    intro s cons
    simp [cons]
  | cons r rest ih =>
    intro s cons
    obtain ⟨consAfter, entries, links⟩ := ih (cons.removeEntryLinks r)
    refine ⟨consAfter, entries, fun k => ?_⟩
    rw [List.foldl_cons, links, PoolMap.mem_removeEntryLinks, List.mem_cons]
    tauto

/-- `remove_entry_and_descendants` keeps the indexes consistent and removes `id`; when the ids with
links were exactly the entries, they still are. -/
theorem Consistent.removeEntryAndDescendants {freedInputs freedDeps : Finset (OutPoint H)}
    {s s' : PoolMap H I} {id : I} {removed : List (TxEntry H)}
    (cons : Consistent env freedInputs freedDeps s)
    (ran : PoolMap.removeEntryAndDescendants env s id = some (s', removed)) :
    Consistent env freedInputs freedDeps s' ∧ (KeysAgree s → KeysAgree s') ∧ id ∉ s'.entries ∧
      TxsWithin s'.entries s.entries := by
  unfold PoolMap.removeEntryAndDescendants at ran
  have listed : id ∈ id :: sortedElems (s.calcDescendants id) := List.mem_cons_self
  generalize id :: sortedElems (s.calcDescendants id) = removedIds at ran listed
  dsimp only at ran
  obtain ⟨stripped, strippedEntries, strippedLinks⟩ := cons.foldl_removeEntryLinks removedIds
  -- the removal loop: the ids removed so far are gone from the entries, and all the listed ids
  -- were gone from the links before the loop started
  have loop := foldlM_option_induction
    (fun done (acc : PoolMap H I × List (TxEntry H)) =>
      Consistent env freedInputs freedDeps acc.1 ∧
        (∀ k, k ∈ acc.1.entries ↔ k ∉ done ∧ k ∈ s.entries) ∧
        (∀ k, k ∈ acc.1.links.inner ↔ k ∉ removedIds ∧ k ∈ s.links.inner) ∧
        TxsWithin acc.1.entries s.entries)
    removedIds ?step ⟨stripped, ?start, strippedLinks, strippedEntries ▸ TxsWithin.refl _⟩ ran
  case start =>
    intro k
    rw [strippedEntries]
    simp
  case step =>
    rintro done r acc next leading ⟨consAcc, entriesAcc, linksAcc, withinAcc⟩ stepped
    have listedR : r ∈ removedIds := leading.subset (by simp)
    rw [Option.bind_eq_bind] at stepped
    obtain ⟨⟨s₂, out⟩, ran₂, finished⟩ := Option.bind_eq_some_iff.mp stepped
    simp only [pure, Option.some.injEq] at finished
    subst finished
    obtain ⟨entries₂, links₂, within₂⟩ := consAcc.removeEntry_keys ran₂
    refine ⟨consAcc.removeEntry ran₂, fun k => ?_, fun k => ?_, within₂.trans withinAcc⟩
    · rw [entries₂, entriesAcc]
      simp only [List.mem_append, List.mem_singleton]
      tauto
    · rw [links₂, linksAcc]
      constructor
      · exact fun linked => linked.2
      · intro linked
        exact ⟨fun same => linked.1 (same ▸ listedR), linked⟩
  obtain ⟨consAfter, entriesAfter, linksAfter, within⟩ := loop
  refine ⟨consAfter, fun agree k => ?_, fun member => ((entriesAfter id).mp member).1 listed, within⟩
  rw [linksAfter, entriesAfter, agree]

omit [DecidableEq H] in
theorem Spends.mem {m : FiniteMap I (PoolEntry H I)} {id : I} {o : OutPoint H} (spends : Spends m id o) :
    id ∈ m := by
  obtain ⟨e, found, -⟩ := spends
  exact Finmap.mem_of_lookup_eq_some found

omit [DecidableEq H] in
theorem DependsOn.mem {m : FiniteMap I (PoolEntry H I)} {id : I} {o : OutPoint H}
    (depends : DependsOn m id o) : id ∈ m := by
  obtain ⟨e, found, -⟩ := depends
  exact Finmap.mem_of_lookup_eq_some found

theorem Consistent.withEdges {freedInputs freedDeps freedInputs' freedDeps' : Finset (OutPoint H)}
    {s : PoolMap H I} (cons : Consistent env freedInputs freedDeps s) {edges : Edges H I}
    (exact : EdgesExact env freedInputs' freedDeps' s.entries edges) :
    Consistent env freedInputs' freedDeps' { s with edges := edges } :=
  ⟨exact, cons.links, ⟨fun status => cons.counters.counts status, cons.counters.total_size⟩⟩

theorem Consistent.removeAllWithDescendants {freedInputs freedDeps : Finset (OutPoint H)}
    {reject : Reject H I} (ids : List I) :
    ∀ {acc res : PoolMap H I × List (TxEntry H × Reject H I)}, Consistent env freedInputs freedDeps acc.1 →
      PoolMap.removeAllWithDescendants env reject ids acc = some res →
      Consistent env freedInputs freedDeps res.1 ∧ (KeysAgree acc.1 → KeysAgree res.1) ∧
        (∀ id ∈ ids, id ∉ res.1.entries) ∧ TxsWithin res.1.entries acc.1.entries := by
  induction ids with
  | nil =>
    intro acc res cons ran
    cases ran
    exact ⟨cons, id, by simp, TxsWithin.refl _⟩
  | cons id rest ih =>
    intro acc res cons ran
    unfold PoolMap.removeAllWithDescendants at ran
    rw [Option.bind_eq_bind] at ran
    obtain ⟨⟨s₁, entries⟩, removed, later⟩ := Option.bind_eq_some_iff.mp ran
    obtain ⟨cons₁, agree₁, gone₁, within₁⟩ := cons.removeEntryAndDescendants removed
    obtain ⟨consRes, agreeRes, goneRes, withinRes⟩ := ih cons₁ later
    refine ⟨consRes, fun agree => agreeRes (agree₁ agree), fun k listed => ?_, withinRes.trans within₁⟩
    rcases List.mem_cons.mp listed with rfl | later
    · exact fun member => gone₁ (withinRes.mem member)
    · exact goneRes k later

/-- After the first half of the loop body of `resolve_conflict` at `i`, no entry spends `i`, so the
emptied input slot is exact again. -/
theorem Consistent.resolveInputSpender {acc next : PoolMap H I × List (TxEntry H × Reject H I)}
    {i : OutPoint H} (cons : Consistent env ∅ ∅ acc.1) (agree : KeysAgree acc.1)
    (ran : PoolMap.resolveInputSpender env acc i = some next) :
    Consistent env ∅ ∅ next.1 ∧ KeysAgree next.1 := by
  have freed := cons.withEdges (cons.edges.free_input i)
  unfold PoolMap.resolveInputSpender at ran
  simp only [Edges.removeInput] at ran
  split at ran
  · rename_i id spender
    obtain ⟨consRemoved, agreeRemoved, gone, within⟩ := freed.removeAllWithDescendants [id] ran
    refine ⟨consRemoved.withEdges (consRemoved.edges.unfree_input ?_), agreeRemoved agree⟩
    -- the spender recorded for `i` was its only spender, and it is gone
    intro k spends
    have spendsBefore : Spends acc.1.entries k i := within.spends spends
    have recorded := (cons.edges.inputs_exact i id).mp spender
    have same := cons.edges.single_spender i k id spendsBefore recorded.2
    subst same
    exact gone k (by simp) spends.mem
  · rename_i unspent
    cases ran
    refine ⟨freed.withEdges (freed.edges.unfree_input ?_), agree⟩
    intro k spends
    have recorded := (cons.edges.inputs_exact i k).mpr ⟨by simp, spends⟩
    simp [unspent] at recorded

theorem Consistent.resolveInputDeps {acc next : PoolMap H I × List (TxEntry H × Reject H I)}
    {i : OutPoint H} (cons : Consistent env ∅ ∅ acc.1) (agree : KeysAgree acc.1)
    (ran : PoolMap.resolveInputDeps env acc i = some next) :
    Consistent env ∅ ∅ next.1 ∧ KeysAgree next.1 := by
  have freed := cons.withEdges (cons.edges.free_deps i)
  unfold PoolMap.resolveInputDeps at ran
  simp only [Edges.removeDeps] at ran
  split at ran
  · rename_i users found
    obtain ⟨consRemoved, agreeRemoved, gone, within⟩ := freed.removeAllWithDescendants (sortedElems users) ran
    refine ⟨consRemoved.withEdges (consRemoved.edges.unfree_deps ?_), agreeRemoved agree⟩
    intro k depends
    have listed := (cons.edges.deps_exact i k).mpr ⟨by simp, within.dependsOn depends⟩
    rw [found, Option.getD_some] at listed
    exact gone k (mem_sortedElems.mpr listed) depends.mem
  · rename_i unused
    cases ran
    refine ⟨freed.withEdges (freed.edges.unfree_deps ?_), agree⟩
    intro k depends
    have listed := (cons.edges.deps_exact i k).mpr ⟨by simp, depends⟩
    simp [unused] at listed

theorem Consistent.resolveConflict {s : PoolMap H I} {tx : TransactionView H}
    {res : PoolMap H I × List (TxEntry H × Reject H I)} (cons : Consistent env ∅ ∅ s) (agree : KeysAgree s)
    (ran : PoolMap.resolveConflict env s tx = some res) : Consistent env ∅ ∅ res.1 ∧ KeysAgree res.1 := by
  unfold PoolMap.resolveConflict at ran
  refine foldlM_option_invariant (fun acc => Consistent env ∅ ∅ acc.1 ∧ KeysAgree acc.1) _ ?_
    ⟨cons, agree⟩ ran
  rintro acc i next - ⟨consAcc, agreeAcc⟩ stepped
  rw [Option.bind_eq_bind] at stepped
  obtain ⟨mid, spenderStep, depsStep⟩ := Option.bind_eq_some_iff.mp stepped
  obtain ⟨consMid, agreeMid⟩ := consAcc.resolveInputSpender agreeAcc spenderStep
  exact consMid.resolveInputDeps agreeMid depsStep

theorem Consistent.resolveConflictHeaderDep {s : PoolMap H I} {headers : Finset H}
    {res : PoolMap H I × List (TxEntry H × Reject H I)} (cons : Consistent env ∅ ∅ s) (agree : KeysAgree s)
    (ran : PoolMap.resolveConflictHeaderDep env s headers = some res) :
    Consistent env ∅ ∅ res.1 ∧ KeysAgree res.1 := by
  unfold PoolMap.resolveConflictHeaderDep at ran
  refine foldlM_option_invariant (fun acc => Consistent env ∅ ∅ acc.1 ∧ KeysAgree acc.1) _ ?_
    ⟨cons, agree⟩ ran
  rintro acc ⟨blkHash, id⟩ next - ⟨consAcc, agreeAcc⟩ stepped
  rw [Option.bind_eq_bind] at stepped
  obtain ⟨⟨s₁, entries⟩, removed, finished⟩ := Option.bind_eq_some_iff.mp stepped
  simp only [pure, Option.some.injEq] at finished
  subst finished
  obtain ⟨cons₁, agree₁, -, -⟩ := consAcc.removeEntryAndDescendants removed
  exact ⟨cons₁, agree₁ agreeAcc⟩

theorem Consistent.setEntry {freedInputs freedDeps : Finset (OutPoint H)} {s s' : PoolMap H I} {id : I}
    {status : Status} (cons : Consistent env freedInputs freedDeps s) (agree : KeysAgree s)
    (ran : PoolMap.setEntry s id status = some s') :
    Consistent env freedInputs freedDeps s' ∧ KeysAgree s' := by
  unfold PoolMap.setEntry at ran
  split at ran
  · cases ran
  rename_i e found
  obtain ⟨entries, edges, links, total, -, counts⟩ := PoolMap.trackEntryStatics_eq ran
  dsimp only at entries edges links total
  obtain ⟨down, up⟩ := TxsWithin.insert_same found
    (show ({ e with status := status } : PoolEntry H I).inner.rtx = e.inner.rtx from rfl)
  rw [← entries] at down up
  have present : id ∈ s.entries := Finmap.mem_of_lookup_eq_some found
  have members : ∀ k, k ∈ s'.entries ↔ k ∈ s.entries := by
    intro k
    rw [entries, Finmap.mem_insert]
    constructor
    · rintro (rfl | member)
      · exact present
      · exact member
    · exact Or.inr
  refine ⟨⟨?_, ⟨?_, ?_⟩, ⟨fun st => ?_, ?_⟩⟩, ?_⟩
  · rw [edges]
    exact cons.edges.congr down up
  · intro k linked
    rw [links] at linked
    exact (members k).mpr (cons.links.linked k linked)
  · rw [links]
    exact cons.links.symmetric
  · have before := cons.counters.counts st
    have moved := counts st
    have swapped := FiniteMap.sumBy_insert found { e with status := status }
      (fun e => if e.status = st then 1 else 0)
    simp only [PoolMap.countStatus] at before ⊢
    rw [entries]
    simp only [Option.some.injEq, PoolMap.counter_withEntries] at moved
    split_ifs at swapped moved <;> omega
  · have before := cons.counters.total_size
    have swapped := FiniteMap.sumBy_insert found { e with status := status } (·.inner.size)
    simp only [PoolMap.sumSizes] at before ⊢
    rw [entries, total]
    simp only at swapped
    omega
  · intro k
    rw [links, members]
    exact agree k

end Ckb.TxPool
