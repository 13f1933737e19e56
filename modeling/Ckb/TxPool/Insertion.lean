import Ckb.TxPool.Removal

/-!
`add_entry` keeps the pool map's indexes consistent, unless `record_entry_edges` rejects the entry
as a double spend after its ancestors were recorded. Each helper gets a closed form first; the
insertion lemma for the edge indexes is stated over any edges that record the entry exactly.
-/

namespace Ckb.TxPool

variable {H I : Type} [DecidableEq H] [LinearOrder I] {env : PoolEnv H I}

namespace PoolMap

omit [DecidableEq H] in
variable (env) in
/-- `_record_ancestors` succeeds only when every ancestor is present, adds weight but no
transaction to the entry, and links the entry under its parents. -/
theorem recordAncestors_eq {s s₁ : PoolMap H I} {entry entry₁ : TxEntry H} {ancestors parents : Finset I}
    (ran : recordAncestors env s entry ancestors parents = some (s₁, entry₁)) :
    (∀ a ∈ ancestors, a ∈ s.entries) ∧ entry₁.rtx = entry.rtx ∧
      s₁ = { s with
        links := (((sortedElems parents).foldl
          (fun links parent => links.addChild parent (entry.proposalShortId env)) s.links).addLink
            (entry.proposalShortId env) ⟨parents, ∅⟩) } := by
  unfold recordAncestors at ran
  rw [Option.bind_eq_bind] at ran
  obtain ⟨weighted, folded, finished⟩ := Option.bind_eq_some_iff.mp ran
  -- the weights of the ancestors are looked up one by one; a missing one is the panic
  have loop := foldlM_option_induction
    (fun done (e : TxEntry H) => (∀ a ∈ done, a ∈ s.entries) ∧ e.rtx = entry.rtx)
    (sortedElems ancestors) ?step ⟨by simp, rfl⟩ folded
  case step =>
    rintro done a e e' - ⟨present, same⟩ stepped
    obtain ⟨ancestor, found, rfl⟩ := Option.map_eq_some_iff.mp stepped
    refine ⟨fun x listed => ?_, by simp [same]⟩
    rcases List.mem_append.mp listed with earlier | here
    · exact present x earlier
    · rw [List.mem_singleton.mp here]
      exact Finmap.mem_of_lookup_eq_some found
  obtain ⟨present, same⟩ := loop
  simp only [pure, Option.some.injEq, Prod.mk.injEq] at finished
  obtain ⟨rfl, rfl⟩ := finished
  have sameId : weighted.proposalShortId env = entry.proposalShortId env := by
    simp only [TxEntry.proposalShortId, TxEntry.transaction, same]
  exact ⟨fun a member => present a (mem_sortedElems.mpr member), same, by rw [sameId]⟩

theorem getTxAncenstors_ancestors (s : PoolMap H I) (tx : TransactionView H) :
    (getTxAncenstors env s tx).1 = s.links.calcRelationIds (getTxAncenstors env s tx).2.1 .parents := by
  unfold getTxAncenstors
  rfl

variable (env) in
/-- `record_entry_edges`, when it accepts: every input now names the entry and was free before,
and the entry's deps and header deps are added. -/
theorem recordEntryEdges_ok {s s₂ : PoolMap H I} {entry : TxEntry H}
    (ran : recordEntryEdges env s entry = (s₂, none)) :
    ∃ edges, s₂ = { s with edges := edges } ∧
      (∀ o, edges.inputs.lookup o =
        if o ∈ entry.transaction.inputPts then some (entry.proposalShortId env) else s.edges.inputs.lookup o) ∧
      (∀ o ∈ entry.transaction.inputPts, s.edges.inputs.lookup o = none) ∧
      (∀ o k, k ∈ (edges.deps.lookup o).getD ∅ ↔
        (o ∈ entry.relatedDepOutPoints ∧ k = entry.proposalShortId env) ∨ k ∈ (s.edges.deps.lookup o).getD ∅) ∧
      ((∀ o ids, s.edges.deps.lookup o = some ids → ids.Nonempty) →
        ∀ o ids, edges.deps.lookup o = some ids → ids.Nonempty) ∧
      (∀ k, k ∈ edges.headerDeps ↔
        (k = entry.proposalShortId env ∧ entry.transaction.headerDeps ≠ []) ∨ k ∈ s.edges.headerDeps) := by
  unfold recordEntryEdges at ran
  dsimp only at ran
  split at ran
  · cases ran
  rename_i recorded e₁ inputsRecorded
  simp only [Prod.mk.injEq] at ran
  obtain ⟨rfl, -⟩ := ran
  obtain ⟨inputs, fresh, -, deps, headerDeps⟩ := Edges.recordInputs_ok inputsRecorded
  set id := entry.proposalShortId env
  set withDeps := entry.relatedDepOutPoints.foldl (fun edges d => edges.insertDeps d id) e₁
  refine ⟨_, rfl, ?_, fresh, ?_, ?_, ?_⟩
  · intro o
    split <;> simp [withDeps, inputs]
  · intro o k
    have added := deps_foldl_insertDeps entry.relatedDepOutPoints e₁ id o k
    rw [deps] at added
    split <;> exact added
  · intro nonempty
    have kept := nonempty_foldl_insertDeps entry.relatedDepOutPoints e₁ id (deps ▸ nonempty)
    split <;> exact kept
  · intro k
    by_cases none : entry.transaction.headerDeps = []
    · simp [none, withDeps, headerDeps]
    · simp [none, withDeps, headerDeps, Finmap.mem_insert]

variable (env) in
theorem recordEntryEdges_reject {s s₂ : PoolMap H I} {entry : TxEntry H} {reject : Reject H I}
    (ran : recordEntryEdges env s entry = (s₂, some reject)) :
    ∃ o old, reject = .rbfRejected o old (entry.proposalShortId env) := by
  unfold recordEntryEdges at ran
  dsimp only at ran
  split at ran
  · rename_i recorded e₁ reject' inputsRecorded
    simp only [Prod.mk.injEq, Option.some.injEq] at ran
    obtain ⟨-, rfl⟩ := ran
    exact Edges.recordInputs_reject inputsRecorded
  · simp at ran

variable (env) in
/-- `record_entry_descendants` changes the links and the aggregates and keys of entries, nothing
else. -/
theorem recordEntryDescendants_frame (s : PoolMap H I) (entry : TxEntry H) :
    SameFrames (recordEntryDescendants env s entry).entries s.entries ∧
      (recordEntryDescendants env s entry).edges = s.edges ∧
      (∀ status, (recordEntryDescendants env s entry).counter status = s.counter status) ∧
      (recordEntryDescendants env s entry).totalTxSize = s.totalTxSize := by
  unfold recordEntryDescendants
  dsimp only
  split
  · exact ⟨updateAncestorsIndexKey_frames env s entry .add, rfl, fun status => by cases status <;> rfl, rfl⟩
  · refine ⟨(updateAncestorsIndexKey_frames env _ entry .add).trans
      (updateDescendantsIndexKey_frames env _ entry .add), rfl, fun status => by cases status <;> rfl, rfl⟩

variable (env) in
/-- The links after `record_entry_descendants` keep the same ids, and stay mirrored when the entry
and its collected children all have links. -/
theorem recordEntryDescendants_links {s : PoolMap H I} {entry : TxEntry H} (symm : s.links.Symmetric)
    (present : entry.proposalShortId env ∈ s.links.inner)
    (within : ∀ c ∈ collectChildren s.edges entry.transaction.outputPts, c ∈ s.links.inner) :
    (recordEntryDescendants env s entry).links.Symmetric ∧
      ∀ k, k ∈ (recordEntryDescendants env s entry).links.inner ↔ k ∈ s.links.inner := by
  unfold recordEntryDescendants
  dsimp only
  split
  · exact ⟨symm, fun k => Iff.rfl⟩
  · refine ⟨TxLinksMap.symmetric_addChildren symm present within, fun k => ?_⟩
    simp [updateAncestorsIndexKey, updateDescendantsIndexKey]

end PoolMap

namespace Consistent

theorem evictLoop {maxAncestorsCount : Nat} (candidates : List I) :
    ∀ {s : PoolMap H I} {count : Nat} {parents : Finset I} {evicted : List (TxEntry H)}
      {res : PoolMap H I × Nat × Finset I × List (TxEntry H)},
      Consistent env ∅ ∅ s → KeysAgree s →
      PoolMap.evictLoop env maxAncestorsCount candidates s count parents evicted = some res →
      Consistent env ∅ ∅ res.1 ∧ KeysAgree res.1 ∧ TxsWithin res.1.entries s.entries := by
  induction candidates with
  | nil =>
    intro s count parents evicted res cons agree ran
    cases ran
    exact ⟨cons, agree, TxsWithin.refl _⟩
  | cons nextId rest ih =>
    intro s count parents evicted res cons agree ran
    unfold PoolMap.evictLoop at ran
    split_ifs at ran with crowded
    · rw [Option.bind_eq_bind] at ran
      obtain ⟨⟨s₁, removed⟩, evictedOne, later⟩ := Option.bind_eq_some_iff.mp ran
      obtain ⟨cons₁, agree₁, -, within₁⟩ := cons.removeEntryAndDescendants evictedOne
      obtain ⟨consRes, agreeRes, withinRes⟩ := ih cons₁ (agree₁ agree) later
      exact ⟨consRes, agreeRes, withinRes.trans within₁⟩
    · cases ran
      exact ⟨cons, agree, TxsWithin.refl _⟩

/-- `check_and_record_ancestors` either rejects without writing, or records the entry's ancestors
on a consistent map reached by evictions, with the parents among the ancestors. -/
theorem checkAndRecordAncestors {s s₁ : PoolMap H I} {entry entry₁ : TxEntry H}
    {recorded : Except (Reject H I) (List (TxEntry H))} (cons : Consistent env ∅ ∅ s) (agree : KeysAgree s)
    (ran : PoolMap.checkAndRecordAncestors env s entry = some (s₁, entry₁, recorded)) :
    (∀ reject, recorded = .error reject → s₁ = s) ∧
      (∀ evicts, recorded = .ok evicts → ∃ s' ancestors parents, Consistent env ∅ ∅ s' ∧ KeysAgree s' ∧
        TxsWithin s'.entries s.entries ∧ parents ⊆ ancestors ∧
        PoolMap.recordAncestors env s' entry ancestors parents = some (s₁, entry₁)) := by
  unfold PoolMap.checkAndRecordAncestors at ran
  have ancestorsEq : (PoolMap.getTxAncenstors env s entry.transaction).1 =
      s.links.calcRelationIds (PoolMap.getTxAncenstors env s entry.transaction).2.1 .parents :=
    PoolMap.getTxAncenstors_ancestors s entry.transaction
  generalize PoolMap.getTxAncenstors env s entry.transaction = found at ran ancestorsEq
  obtain ⟨ancestors, parents, cellRefParents⟩ := found
  dsimp only at ran ancestorsEq
  split_ifs at ran with fits evictable
  · -- within the limit: the ancestors are recorded on the map as it is
    rw [Option.bind_eq_bind] at ran
    obtain ⟨⟨sA, eA⟩, recordedA, finished⟩ := Option.bind_eq_some_iff.mp ran
    simp only [pure, Option.some.injEq, Prod.mk.injEq] at finished
    obtain ⟨rfl, rfl, rfl⟩ := finished
    refine ⟨fun reject wrong => (by cases wrong), fun evicts _ => ?_⟩
    refine ⟨s, ancestors, parents, cons, agree, TxsWithin.refl _, ?_, recordedA⟩
    rw [ancestorsEq]
    exact TxLinksMap.subset_calcRelationIds _ _ _
  · -- over the limit: evict the cell-dep parents first, then record on the smaller map
    rw [Option.bind_eq_bind] at ran
    obtain ⟨⟨sE, count, parentsE, evicted⟩, evictRan, rest⟩ := Option.bind_eq_some_iff.mp ran
    obtain ⟨consE, agreeE, withinE⟩ := cons.evictLoop _ agree evictRan
    dsimp only at rest
    split_ifs at rest with small
    rw [Option.bind_eq_bind] at rest
    obtain ⟨⟨sA, eA⟩, recordedA, finished⟩ := Option.bind_eq_some_iff.mp rest
    simp only [pure, Option.some.injEq, Prod.mk.injEq] at finished
    obtain ⟨rfl, rfl, rfl⟩ := finished
    refine ⟨fun reject wrong => (by cases wrong), fun evicts _ => ?_⟩
    exact ⟨sE, _, parentsE, consE, agreeE, withinE, TxLinksMap.subset_calcRelationIds _ _ _, recordedA⟩
  · simp only [pure, Option.some.injEq, Prod.mk.injEq] at ran
    obtain ⟨rfl, rfl, rfl⟩ := ran
    exact ⟨fun _ _ => rfl, fun evicts wrong => by cases wrong⟩

end Consistent

/-- Recording a new entry in exact edge indexes: each of its inputs was free and now names it, and
its deps and header deps are added. -/
theorem EdgesExact.insert {m : FiniteMap I (PoolEntry H I)} {edges edges' : Edges H I} {id : I}
    {pe : PoolEntry H I} (exact : EdgesExact env ∅ ∅ m edges) (absent : id ∉ m)
    (keyed : pe.inner.proposalShortId env = id)
    (fresh : ∀ o ∈ pe.inner.transaction.inputPts, edges.inputs.lookup o = none)
    (inputs : ∀ o, edges'.inputs.lookup o =
      if o ∈ pe.inner.transaction.inputPts then some id else edges.inputs.lookup o)
    (deps : ∀ o k, k ∈ (edges'.deps.lookup o).getD ∅ ↔
      (o ∈ pe.inner.relatedDepOutPoints ∧ k = id) ∨ k ∈ (edges.deps.lookup o).getD ∅)
    (nonempty : ∀ o ids, edges'.deps.lookup o = some ids → ids.Nonempty)
    (headers : ∀ k, k ∈ edges'.headerDeps ↔
      (k = id ∧ pe.inner.transaction.headerDeps ≠ []) ∨ k ∈ edges.headerDeps) :
    EdgesExact env ∅ ∅ (m.insert id pe) edges' := by
  -- a fact about an entry of the larger map is about the new entry or about an old one
  have widened : ∀ (P : PoolEntry H I → Prop) k,
      (∃ e, (m.insert id pe).lookup k = some e ∧ P e) ↔ (k = id ∧ P pe) ∨ ∃ e, m.lookup k = some e ∧ P e := by
    intro P k
    by_cases same : k = id
    · subst same
      simp [Finmap.lookup_eq_none.mpr absent]
    · simp [same, Finmap.lookup_insert_of_ne _ same]
  have spends : ∀ k o, Spends (m.insert id pe) k o ↔
      (k = id ∧ o ∈ pe.inner.transaction.inputPts) ∨ Spends m k o :=
    fun k o => widened (fun e => o ∈ e.inner.transaction.inputPts) k
  have depends : ∀ k o, DependsOn (m.insert id pe) k o ↔
      (k = id ∧ o ∈ pe.inner.relatedDepOutPoints) ∨ DependsOn m k o :=
    fun k o => widened (fun e => o ∈ e.inner.relatedDepOutPoints) k
  have hasHeaders : ∀ k, HasHeaderDeps (m.insert id pe) k ↔
      (k = id ∧ pe.inner.transaction.headerDeps ≠ []) ∨ HasHeaderDeps m k :=
    fun k => widened (fun e => e.inner.transaction.headerDeps ≠ []) k
  -- an input of the new entry had no spender in the pool
  have unspent : ∀ o ∈ pe.inner.transaction.inputPts, ∀ k, ¬ Spends m k o := by
    intro o input k spent
    have recorded := (exact.inputs_exact o k).mpr ⟨by simp, spent⟩
    rw [fresh o input] at recorded
    cases recorded
  refine ⟨?_, ?_, ?_, nonempty, ?_, ?_⟩
  · intro k e found
    by_cases same : k = id
    · subst same
      rw [Finmap.lookup_insert] at found
      cases found
      exact keyed
    · rw [Finmap.lookup_insert_of_ne _ same] at found
      exact exact.keyed k e found
  · intro o k k' first second
    rw [spends] at first second
    rcases first with ⟨rfl, input⟩ | first <;> rcases second with ⟨rfl, input'⟩ | second
    · rfl
    · exact absurd second (unspent o input k')
    · exact absurd first (unspent o input' k)
    · exact exact.single_spender o k k' first second
  · intro o k
    rw [inputs, spends]
    by_cases input : o ∈ pe.inner.transaction.inputPts
    · have old := unspent o input k
      simp [input, old, eq_comm]
    · rw [if_neg input, exact.inputs_exact o k]
      simp [input]
  · intro o k
    rw [deps, exact.deps_exact o k, depends]
    simp only [Finset.notMem_empty, not_false_eq_true, true_and]
    tauto
  · intro k
    rw [headers, exact.headerDeps_exact k, hasHeaders]

variable (env) in
/-- The indexes between `insert_entry` and the two counter updates of `add_entry`: everything is
exact except that the new entry, of status `status` and size `size`, is not counted yet. -/
structure Uncounted (status : Status) (size : Nat) (s : PoolMap H I) : Prop where
  edges : EdgesExact env ∅ ∅ s.entries s.edges
  symmetric : s.links.Symmetric
  keys : KeysAgree s
  counts : ∀ st, s.counter st + (if status = st then 1 else 0) = s.countStatus st
  total_size : s.totalTxSize + size = s.sumSizes

namespace Uncounted

variable {status : Status} {size : Nat}

/-- After `_record_ancestors` and `record_entry_edges` accepted the entry, `insert_entry` leaves
it recorded everywhere but in the counters. -/
theorem insertEntry {sE s₁ s₂ : PoolMap H I} {entry entry₁ : TxEntry H} {ancestors parents : Finset I}
    (consE : Consistent env ∅ ∅ sE) (agreeE : KeysAgree sE) (absent : entry.proposalShortId env ∉ sE.entries)
    (parentsSub : parents ⊆ ancestors)
    (recordedA : PoolMap.recordAncestors env sE entry ancestors parents = some (s₁, entry₁))
    (edgesRan : PoolMap.recordEntryEdges env s₁ entry₁ = (s₂, none)) :
    Uncounted env status entry₁.size (PoolMap.insertEntry env s₂ entry₁ status) := by
  obtain ⟨ancestorsIn, sameRtx, s₁Eq⟩ := PoolMap.recordAncestors_eq env recordedA
  obtain ⟨edges, s₂Eq, inputs, fresh, deps, nonempty, headers⟩ := PoolMap.recordEntryEdges_ok env edgesRan
  have sameId : entry₁.proposalShortId env = entry.proposalShortId env := by
    simp only [TxEntry.proposalShortId, TxEntry.transaction, sameRtx]
  set id := entry.proposalShortId env
  have edges₁ : s₁.edges = sE.edges := by rw [s₁Eq]
  rw [sameId, edges₁] at inputs deps headers
  rw [edges₁] at fresh nonempty
  have absentLinks : id ∉ sE.links.inner := fun linked => absent ((agreeE id).mp linked)
  have parentsLinked : ∀ p ∈ parents, p ∈ sE.links.inner :=
    fun p listed => (agreeE p).mpr (ancestorsIn p (parentsSub listed))
  -- the new entry as `insert_entry` builds it
  set pe : PoolEntry H I :=
    { id := id, score := entry₁.asScoreKey env.cyclesWeight, status := status, inner := entry₁,
      evictKey := entry₁.asEvictKey env.cyclesWeight }
  have entries₃ : (PoolMap.insertEntry env s₂ entry₁ status).entries = sE.entries.insert id pe := by
    simp only [PoolMap.insertEntry, sameId, s₂Eq, s₁Eq, pe]
  have links₃ : (PoolMap.insertEntry env s₂ entry₁ status).links =
      ((sortedElems parents).foldl (fun links parent => links.addChild parent id) sE.links).addLink id
        ⟨parents, ∅⟩ := by
    simp only [PoolMap.insertEntry, s₂Eq, s₁Eq, id]
  have edges₃ : (PoolMap.insertEntry env s₂ entry₁ status).edges = edges := by
    simp only [PoolMap.insertEntry, s₂Eq]
  have counter₃ : ∀ st, (PoolMap.insertEntry env s₂ entry₁ status).counter st = sE.counter st := by
    intro st
    rw [s₂Eq, s₁Eq]
    cases st <;> rfl
  have total₃ : (PoolMap.insertEntry env s₂ entry₁ status).totalTxSize = sE.totalTxSize := by
    rw [s₂Eq, s₁Eq]
    rfl
  refine ⟨?_, ?_, ?_, fun st => ?_, ?_⟩
  · rw [entries₃, edges₃]
    exact consE.edges.insert absent sameId fresh inputs deps (nonempty consE.edges.deps_nonempty) headers
  · rw [links₃]
    exact TxLinksMap.symmetric_addLink_parents consE.links.symmetric absentLinks parentsLinked
  · intro k
    rw [links₃, entries₃, TxLinksMap.mem_addLink, TxLinksMap.mem_foldl_addChild, Finmap.mem_insert, agreeE k]
  · have added := FiniteMap.sumBy_insert_of_notMem absent pe (fun e => if e.status = st then 1 else 0)
    have before := consE.counters.counts st
    simp only [PoolMap.countStatus] at before ⊢
    rw [counter₃, entries₃, added, ← before]
    simp only [pe]
    omega
  · have added := FiniteMap.sumBy_insert_of_notMem absent pe (·.inner.size)
    have before := consE.counters.total_size
    simp only [PoolMap.sumSizes] at before ⊢
    rw [total₃, entries₃, added, ← before]
    simp only [pe]
    omega

theorem recordEntryDescendants {s : PoolMap H I} {entry : TxEntry H} (un : Uncounted env status size s)
    (present : entry.proposalShortId env ∈ s.entries) :
    Uncounted env status size (PoolMap.recordEntryDescendants env s entry) := by
  obtain ⟨frames, edges, counter, total⟩ := PoolMap.recordEntryDescendants_frame env s entry
  -- the collected children spend an output or use one as a dep, so they are in the pool
  have within : ∀ c ∈ PoolMap.collectChildren s.edges entry.transaction.outputPts, c ∈ s.links.inner := by
    intro c collected
    rw [un.keys c]
    obtain ⟨o, -, dep | spender⟩ := (PoolMap.mem_collectChildren _ _ c).mp collected
    · exact ((un.edges.deps_exact o c).mp dep).2.mem
    · exact ((un.edges.inputs_exact o c).mp spender).2.mem
  obtain ⟨symm, keys⟩ := PoolMap.recordEntryDescendants_links env un.symmetric ((un.keys _).mpr present) within
  refine ⟨?_, symm, fun k => ?_, fun st => ?_, ?_⟩
  · rw [edges]
    exact un.edges.of_sameFrames frames
  · rw [keys, un.keys k, SameFrames.mem_iff frames]
  · rw [counter, PoolMap.countStatus_congr frames]
    exact un.counts st
  · rw [total, PoolMap.sumSizes_congr frames]
    exact un.total_size

/-- The counter updates of `add_entry` count the new entry; the size total is exact as long as the
sum of the sizes fits in `usize`. -/
theorem count {s s₅ : PoolMap H I} {cycles : Nat} (un : Uncounted env status size s)
    (tracked : PoolMap.trackEntryStatics s none (some status) = some s₅)
    (bounded : (PoolMap.updateStatForAddTx s₅ size cycles).sumSizes ≤ u64Max) :
    Consistent env ∅ ∅ (PoolMap.updateStatForAddTx s₅ size cycles) ∧
      KeysAgree (PoolMap.updateStatForAddTx s₅ size cycles) := by
  obtain ⟨entries, edges, links, total, -, counts⟩ := PoolMap.trackEntryStatics_eq tracked
  set s' := PoolMap.updateStatForAddTx s₅ size cycles
  have entries' : s'.entries = s.entries := entries
  have edges' : s'.edges = s.edges := edges
  have links' : s'.links = s.links := links
  have sizes : s'.sumSizes = s.sumSizes := by
    simp only [PoolMap.sumSizes, entries']
  have counted : ∀ st, s'.countStatus st = s.countStatus st := by
    intro st
    simp only [PoolMap.countStatus, entries']
  -- the checked addition does not overflow while the sum of the sizes fits
  have totalEq : s'.totalTxSize = s.totalTxSize + size := by
    have fits : s.totalTxSize + size ≤ u64Max := by
      have exact := un.total_size
      omega
    simp only [s', PoolMap.updateStatForAddTx, checkedAdd, total]
    rw [if_pos fits, Option.getD_some]
  refine ⟨⟨?_, ⟨fun k linked => ?_, ?_⟩, ⟨fun st => ?_, ?_⟩⟩, fun k => ?_⟩
  · rw [entries', edges']
    exact un.edges
  · rw [links'] at linked
    rw [entries']
    exact (un.keys k).mp linked
  · rw [links']
    exact un.symmetric
  · have moved := counts st
    simp only [reduceCtorEq, if_false, add_zero, Option.some.injEq] at moved
    rw [PoolMap.counter_updateStatForAddTx, counted, moved]
    exact un.counts st
  · rw [totalEq, sizes]
    exact un.total_size
  · rw [links', entries']
    exact un.keys k

end Uncounted

/-- `add_entry` keeps the indexes consistent unless it rejects the entry as a double spend, and the
size total stays exact while the sizes sum to at most `usize::MAX`. -/
theorem Consistent.addEntry {s s' : PoolMap H I} {entry : TxEntry H} {status : Status}
    {result : Except (Reject H I) (Bool × List (TxEntry H))} (cons : Consistent env ∅ ∅ s) (agree : KeysAgree s)
    (ran : PoolMap.addEntry env s entry status = some (s', result))
    (accepted : ∀ o old new, result ≠ .error (.rbfRejected o old new)) (bounded : s'.sumSizes ≤ u64Max) :
    Consistent env ∅ ∅ s' ∧ KeysAgree s' := by
  unfold PoolMap.addEntry at ran
  split_ifs at ran with present
  · simp only [Option.some.injEq, Prod.mk.injEq] at ran
    obtain ⟨rfl, -⟩ := ran
    exact ⟨cons, agree⟩
  rw [Option.bind_eq_bind] at ran
  obtain ⟨⟨s₁, entry₁, recorded⟩, checked, rest⟩ := Option.bind_eq_some_iff.mp ran
  obtain ⟨onError, onOk⟩ := cons.checkAndRecordAncestors agree checked
  cases recorded with
  | error reject =>
    -- the ancestor limit rejects before anything is written
    simp only [pure, Option.some.injEq, Prod.mk.injEq] at rest
    obtain ⟨rfl, -⟩ := rest
    rw [onError reject rfl]
    exact ⟨cons, agree⟩
  | ok evicts =>
    obtain ⟨sE, ancestors, parents, consE, agreeE, withinE, parentsSub, recordedA⟩ := onOk evicts rfl
    dsimp only at rest
    split at rest
    · rename_i s₂ reject edgesRan
      simp only [pure, Option.some.injEq, Prod.mk.injEq] at rest
      obtain ⟨-, rfl⟩ := rest
      obtain ⟨o, old, rfl⟩ := PoolMap.recordEntryEdges_reject env edgesRan
      exact absurd rfl (accepted o old _)
    · rename_i s₂ edgesRan
      rw [Option.bind_eq_bind] at rest
      obtain ⟨s₅, tracked, finished⟩ := Option.bind_eq_some_iff.mp rest
      simp only [pure, Option.some.injEq, Prod.mk.injEq] at finished
      obtain ⟨rfl, -⟩ := finished
      have absent : entry.proposalShortId env ∉ sE.entries := fun member => present (withinE.mem member)
      have inserted : Uncounted env status entry₁.size (PoolMap.insertEntry env s₂ entry₁ status) :=
        Uncounted.insertEntry consE agreeE absent parentsSub recordedA edgesRan
      have present₁ : entry₁.proposalShortId env ∈ (PoolMap.insertEntry env s₂ entry₁ status).entries := by
        simp [PoolMap.insertEntry, Finmap.mem_insert]
      exact (inserted.recordEntryDescendants present₁).count tracked bounded

end Ckb.TxPool
