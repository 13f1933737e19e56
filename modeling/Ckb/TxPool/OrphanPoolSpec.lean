import Ckb.TxPool.OrphanPool

namespace Ckb.TxPool

namespace OrphanPool

variable {H I : Type} [DecidableEq H] [LinearOrder I] {fromTxHash : H → I}

/-- `id` is in the set of `outPoint`. -/
def Indexes (pool : OrphanPool H I) (outPoint : OutPoint H) (id : I) : Prop :=
  id ∈ (pool.byOutPoint.lookup outPoint).getD ∅

variable (fromTxHash) in
structure Indexed (pool : OrphanPool H I) : Prop where
  exact : ∀ outPoint id, pool.Indexes outPoint id ↔ ∃ entry, pool.entries.lookup id = some entry ∧
    outPoint ∈ entry.tx.inputPts
  nonempty : ∀ outPoint ids, pool.byOutPoint.lookup outPoint = some ids → ids ≠ ∅
  keyed : ∀ id entry, pool.entries.lookup id = some entry → fromTxHash entry.tx.hash = id

theorem indexed_new : Indexed fromTxHash (new : OrphanPool H I) where
  exact := by simp [new, Indexes]
  nonempty := by simp [new]
  keyed := by simp [new]

/-! The index under one id -/

variable {byOutPoint : FiniteMap (OutPoint H) (Finset I)} {id id' : I} {outPoint outPoint' : OutPoint H}

theorem mem_unindex :
    id' ∈ ((unindex id byOutPoint outPoint).lookup outPoint').getD ∅ ↔
      id' ∈ (byOutPoint.lookup outPoint').getD ∅ ∧ ¬ (outPoint' = outPoint ∧ id' = id) := by
  unfold unindex
  by_cases same : outPoint' = outPoint
  · subst same
    cases found : byOutPoint.lookup outPoint' with
    | none => simp [found]
    | some ids =>
      by_cases empty : ids.erase id = ∅
      · have gone : id' ∉ ids.erase id := by simp [empty]
        simp only [Finset.mem_erase] at gone
        simp only [empty, if_true, Finmap.lookup_erase, Option.getD_none, Finset.notMem_empty,
          false_iff, Option.getD_some, true_and, not_and]
        exact fun member same => gone ⟨same, member⟩
      · simp [empty, and_comm]
  · cases found : byOutPoint.lookup outPoint with
    | none => simp [same]
    | some ids =>
      dsimp only
      split_ifs <;> simp [same, Finmap.lookup_erase_ne same, Finmap.lookup_insert_of_ne _ same]

theorem mem_foldl_unindex (outPoints : List (OutPoint H)) :
    id' ∈ ((outPoints.foldl (unindex id) byOutPoint).lookup outPoint').getD ∅ ↔
      id' ∈ (byOutPoint.lookup outPoint').getD ∅ ∧ ¬ (outPoint' ∈ outPoints ∧ id' = id) := by
  induction outPoints generalizing byOutPoint with
  | nil => simp
  | cons outPoint rest ih =>
    rw [List.foldl_cons, ih, mem_unindex, List.mem_cons]
    tauto

theorem nonempty_foldl_unindex (outPoints : List (OutPoint H))
    (nonempty : ∀ outPoint ids, byOutPoint.lookup outPoint = some ids → ids ≠ ∅) :
    ∀ outPoint ids, (outPoints.foldl (unindex id) byOutPoint).lookup outPoint = some ids → ids ≠ ∅ := by
  induction outPoints generalizing byOutPoint with
  | nil => exact nonempty
  | cons outPoint rest ih =>
    refine ih fun outPoint' ids found => ?_
    unfold unindex at found
    cases old : byOutPoint.lookup outPoint with
    | none =>
      rw [old] at found
      exact nonempty _ _ found
    | some oldIds =>
      simp only [old] at found
      by_cases same : outPoint' = outPoint
      · subst same
        split_ifs at found with empty
        · simp at found
        · simp only [Finmap.lookup_insert, Option.some_inj] at found
          exact found ▸ empty
      · split_ifs at found
        · rw [Finmap.lookup_erase_ne same] at found
          exact nonempty _ _ found
        · rw [Finmap.lookup_insert_of_ne _ same] at found
          exact nonempty _ _ found

theorem mem_foldl_index (outPoints : List (OutPoint H)) :
    id' ∈ ((outPoints.foldl (index id) byOutPoint).lookup outPoint').getD ∅ ↔
      id' ∈ (byOutPoint.lookup outPoint').getD ∅ ∨ outPoint' ∈ outPoints ∧ id' = id := by
  induction outPoints generalizing byOutPoint with
  | nil => simp
  | cons outPoint rest ih =>
    rw [List.foldl_cons, ih, List.mem_cons]
    by_cases same : outPoint' = outPoint
    · subst same
      simp only [index, Finmap.lookup_insert, Option.getD_some, Finset.mem_insert]
      tauto
    · simp only [index, Finmap.lookup_insert_of_ne _ same]
      tauto

theorem nonempty_foldl_index (outPoints : List (OutPoint H))
    (nonempty : ∀ outPoint ids, byOutPoint.lookup outPoint = some ids → ids ≠ ∅) :
    ∀ outPoint ids, (outPoints.foldl (index id) byOutPoint).lookup outPoint = some ids → ids ≠ ∅ := by
  induction outPoints generalizing byOutPoint with
  | nil => exact nonempty
  | cons outPoint rest ih =>
    refine ih fun outPoint' ids found => ?_
    by_cases same : outPoint' = outPoint
    · subst same
      simp only [index, Finmap.lookup_insert, Option.some_inj] at found
      exact found ▸ Finset.nonempty_iff_ne_empty.mp (Finset.insert_nonempty _ _)
    · rw [index, Finmap.lookup_insert_of_ne _ same] at found
      exact nonempty _ _ found

/-! `remove_orphan_tx` -/

variable {pool : OrphanPool H I}

theorem removeOrphanTx_entries (pool : OrphanPool H I) (id : I) :
    (pool.removeOrphanTx id).1.entries = pool.entries.erase id ∧ (pool.removeOrphanTx id).2 = pool.entries.lookup id := by
  unfold removeOrphanTx
  cases found : pool.entries.lookup id with
  | none => exact ⟨(FiniteMap.erase_of_notMem (Finmap.lookup_eq_none.mp found)).symm, rfl⟩
  | some entry => exact ⟨rfl, rfl⟩

theorem Indexed.removeOrphanTx (indexed : Indexed fromTxHash pool) (id : I) :
    Indexed fromTxHash (pool.removeOrphanTx id).1 := by
  unfold OrphanPool.removeOrphanTx
  cases found : pool.entries.lookup id with
  | none => exact indexed
  | some entry =>
    refine ⟨fun outPoint id' => ?_, nonempty_foldl_unindex _ indexed.nonempty, fun id' entry' stored => ?_⟩
    · simp only [Indexes, mem_foldl_unindex]
      rw [← Indexes, indexed.exact]
      by_cases same : id' = id
      · subst same
        simp [found]
      · simp [same, Finmap.lookup_erase_ne same]
    · have other : id' ≠ id := by
        rintro rfl
        simp at stored
      rw [Finmap.lookup_erase_ne other] at stored
      exact indexed.keyed id' entry' stored

/-! Eviction -/

/-- `after` is `before` less some entries, their hashes pushed onto the evicted ones in the order
they were taken out. -/
structure Shrinks (before after : OrphanPool H I × List H) : Prop where
  sub : ∀ id entry, after.1.entries.lookup id = some entry → before.1.entries.lookup id = some entry
  evicted : ∃ removed : List (OrphanEntry H), after.2 = before.2 ++ removed.map (·.tx.hash) ∧
    after.1.len + removed.length = before.1.len ∧
    ∀ entry ∈ removed, ∃ id, before.1.entries.lookup id = some entry ∧ after.1.entries.lookup id = none

omit [DecidableEq H] in
theorem Shrinks.refl (state : OrphanPool H I × List H) : Shrinks state state :=
  ⟨fun _ _ found => found, [], by simp, rfl, by simp⟩

omit [DecidableEq H] in
theorem Shrinks.trans {first second third : OrphanPool H I × List H} (before : Shrinks first second)
    (after : Shrinks second third) : Shrinks first third := by
  obtain ⟨sub₁, removed₁, evicted₁, counted₁, gone₁⟩ := before
  obtain ⟨sub₂, removed₂, evicted₂, counted₂, gone₂⟩ := after
  refine ⟨fun id entry found => sub₁ id entry (sub₂ id entry found), removed₁ ++ removed₂, ?_, ?_, ?_⟩
  · rw [evicted₂, evicted₁, List.map_append, List.append_assoc]
  · rw [List.length_append]
    omega
  · intro entry member
    rcases List.mem_append.mp member with member | member
    · obtain ⟨id, found, absent⟩ := gone₁ entry member
      refine ⟨id, found, ?_⟩
      cases still : third.1.entries.lookup id with
      | none => rfl
      | some entry' => simp [sub₂ id entry' still] at absent
    · obtain ⟨id, found, absent⟩ := gone₂ entry member
      exact ⟨id, sub₁ id entry found, absent⟩

theorem evict_of_lookup_eq_none {state : OrphanPool H I × List H} (absent : state.1.entries.lookup id = none) :
    evict state id = state := by
  simp [evict, removeOrphanTx, absent]

theorem evict_of_lookup_eq_some {state : OrphanPool H I × List H} {entry : OrphanEntry H}
    (found : state.1.entries.lookup id = some entry) :
    evict state id = ((state.1.removeOrphanTx id).1, state.2 ++ [entry.tx.hash]) := by
  simp [evict, removeOrphanTx, found]

theorem evict_entries (state : OrphanPool H I × List H) (id : I) :
    (evict state id).1.entries = state.1.entries.erase id := by
  cases found : state.1.entries.lookup id with
  | none => rw [evict_of_lookup_eq_none found, FiniteMap.erase_of_notMem (Finmap.lookup_eq_none.mp found)]
  | some entry => rw [evict_of_lookup_eq_some found, (removeOrphanTx_entries state.1 id).1]

theorem shrinks_evict (state : OrphanPool H I × List H) (id : I) : Shrinks state (evict state id) := by
  cases found : state.1.entries.lookup id with
  | none =>
    rw [evict_of_lookup_eq_none found]
    exact Shrinks.refl state
  | some entry =>
    have erased : (state.1.removeOrphanTx id).1.entries = state.1.entries.erase id :=
      (removeOrphanTx_entries state.1 id).1
    rw [evict_of_lookup_eq_some found]
    refine ⟨fun id' entry' present => ?_, [entry], rfl, ?_, ?_⟩
    · change (state.1.removeOrphanTx id).1.entries.lookup id' = some entry' at present
      have other : id' ≠ id := by
        rintro rfl
        simp [erased] at present
      rwa [erased, Finmap.lookup_erase_ne other] at present
    · change (state.1.removeOrphanTx id).1.entries.keys.card + 1 = state.1.entries.keys.card
      rw [erased, Finmap.keys_erase]
      exact Finset.card_erase_add_one (Finmap.mem_keys.mpr (Finmap.mem_of_lookup_eq_some found))
    · simp only [List.mem_singleton]
      rintro _ rfl
      exact ⟨id, found, by simp [erased]⟩

theorem Indexed.evict {state : OrphanPool H I × List H} (indexed : Indexed fromTxHash state.1) (id : I) :
    Indexed fromTxHash (evict state id).1 := by
  cases found : state.1.entries.lookup id with
  | none =>
    rw [evict_of_lookup_eq_none found]
    exact indexed
  | some entry =>
    rw [evict_of_lookup_eq_some found]
    exact indexed.removeOrphanTx id

theorem entries_foldl_evict (ids : List I) (state : OrphanPool H I × List H) :
    (ids.foldl evict state).1.entries = ids.foldl (fun entries id => entries.erase id) state.1.entries := by
  induction ids generalizing state with
  | nil => rfl
  | cons id rest ih => rw [List.foldl_cons, List.foldl_cons, ih, evict_entries]

theorem foldl_evict (ids : List I) (state : OrphanPool H I × List H) (indexed : Indexed fromTxHash state.1) :
    Indexed fromTxHash (ids.foldl evict state).1 ∧ Shrinks state (ids.foldl evict state) := by
  induction ids generalizing state with
  | nil => exact ⟨indexed, Shrinks.refl state⟩
  | cons id rest ih =>
    obtain ⟨indexed', shrinks⟩ := ih (evict state id) (indexed.evict id)
    exact ⟨indexed', (shrinks_evict state id).trans shrinks⟩

/-- The eviction loop takes out the first entry while more than the maximum are left; one turn per
entry over the maximum is enough, and the `expect` is never reached. -/
theorem evictLoop_spec : ∀ (fuel : Nat) (state : OrphanPool H I × List H), Indexed fromTxHash state.1 →
    state.1.len ≤ fuel + defaultMaxOrphanTransactions →
    ∃ result, evictLoop fuel state = some result ∧ Indexed fromTxHash result.1 ∧ Shrinks state result ∧
      result.1.len ≤ defaultMaxOrphanTransactions
  | 0, state, indexed, bound => ⟨state, rfl, indexed, Shrinks.refl state, by omega⟩
  | fuel + 1, state, indexed, bound => by
    by_cases crowded : state.1.len > defaultMaxOrphanTransactions
    · -- the pool is not empty, so its least id is evicted
      have nonempty : sortedElems state.1.entries.keys ≠ [] := by
        intro empty
        rw [sortedElems_eq_nil] at empty
        simp [len, empty] at crowded
      obtain ⟨id, rest, listed⟩ := List.exists_cons_of_ne_nil nonempty
      have present : id ∈ state.1.entries.keys := mem_sortedElems.mp (listed ▸ List.mem_cons_self)
      obtain ⟨-, removed, -, counted, -⟩ := shrinks_evict state id
      have shorter : (evict state id).1.len + 1 = state.1.len := by
        have card := Finset.card_erase_add_one present
        simp only [len, evict_entries, Finmap.keys_erase] at card ⊢
        exact card
      obtain ⟨result, run, indexed', shrinks, small⟩ :=
        evictLoop_spec fuel (evict state id) (indexed.evict id) (by omega)
      refine ⟨result, ?_, indexed', (shrinks_evict state id).trans shrinks, small⟩
      simp only [evictLoop, if_pos crowded, listed, List.head?_cons]
      exact run
    · exact ⟨state, by simp [evictLoop, crowded], indexed, Shrinks.refl state, by omega⟩

theorem expired_gone (pool : OrphanPool H I) (now : Nat) {id : I} {entry : OrphanEntry H} :
    let expires := (sortedElems pool.entries.keys).filterMap fun id =>
      (pool.entries.lookup id).bind fun entry => if entry.expiresAt ≤ now then some id else none
    (expires.foldl evict (pool, [])).1.entries.lookup id = some entry → now < entry.expiresAt := by
  intro expires found
  rw [entries_foldl_evict, FiniteMap.lookup_foldl_erase] at found
  split_ifs at found with listed
  by_contra expired
  apply listed
  simp only [expires, List.mem_filterMap, mem_sortedElems, Finmap.mem_keys]
  exact ⟨id, Finmap.mem_of_lookup_eq_some found, by simp [found, show entry.expiresAt ≤ now by omega]⟩

theorem limitSize_spec (indexed : Indexed fromTxHash pool) (now : Nat) :
    ∃ result, pool.limitSize now = some result ∧ Indexed fromTxHash result.1 ∧ Shrinks (pool, []) result ∧
      result.1.len ≤ defaultMaxOrphanTransactions ∧
      ∀ id entry, result.1.entries.lookup id = some entry → now < entry.expiresAt := by
  obtain ⟨indexed', expiredOut⟩ := foldl_evict
    ((sortedElems pool.entries.keys).filterMap fun id =>
      (pool.entries.lookup id).bind fun entry => if entry.expiresAt ≤ now then some id else none) (pool, []) indexed
  obtain ⟨result, run, indexed'', shrinks, small⟩ := evictLoop_spec _ _ indexed' (Nat.le_add_right _ _)
  refine ⟨result, run, indexed'', expiredOut.trans shrinks, small, fun id entry found => ?_⟩
  exact expired_gone pool now (shrinks.sub id entry found)

/-! `add_orphan_tx` -/

variable {tx : TransactionView H} {entry : OrphanEntry H}

theorem Indexed.insertEntry (indexed : Indexed fromTxHash pool) (fresh : id ∉ pool.entries)
    (keyed : fromTxHash entry.tx.hash = id) : Indexed fromTxHash (pool.insertEntry id entry) where
  exact outPoint id' := by
    simp only [Indexes, OrphanPool.insertEntry, mem_foldl_index]
    rw [← Indexes, indexed.exact]
    by_cases same : id' = id
    · subst same
      simp [Finmap.lookup_eq_none.mpr fresh]
    · simp [same, Finmap.lookup_insert_of_ne _ same]
  nonempty := nonempty_foldl_index _ indexed.nonempty
  keyed id' entry' stored := by
    by_cases same : id' = id
    · subst same
      simp only [OrphanPool.insertEntry, Finmap.lookup_insert, Option.some_inj] at stored
      exact stored ▸ keyed
    · rw [OrphanPool.insertEntry, Finmap.lookup_insert_of_ne _ same] at stored
      exact indexed.keyed id' entry' stored

theorem len_insertEntry (fresh : id ∉ pool.entries) : (pool.insertEntry id entry).len = pool.len + 1 := by
  simp only [len, insertEntry, FiniteMap.keys_insert]
  exact Finset.card_insert_of_notMem (fun member => fresh (Finmap.mem_keys.mp member))

/-- `add_orphan_tx` never panics and keeps the index; a new transaction is inserted and then the
pool is cut back to at most the maximum, with nothing expired left. -/
theorem addOrphanTx_spec (indexed : Indexed fromTxHash pool) (tx : TransactionView H)
    (peer declaredCycle createdAt now : Nat) :
    ∃ result, pool.addOrphanTx fromTxHash tx peer declaredCycle createdAt now = some result ∧
      Indexed fromTxHash result.1 ∧
      (fromTxHash tx.hash ∈ pool.entries → result = (pool, [])) ∧
      (fromTxHash tx.hash ∉ pool.entries →
        Shrinks (pool.insertEntry (fromTxHash tx.hash) (OrphanEntry.new tx peer declaredCycle createdAt), []) result ∧
        result.1.len ≤ defaultMaxOrphanTransactions ∧
        ∀ id entry, result.1.entries.lookup id = some entry → now < entry.expiresAt) := by
  by_cases known : fromTxHash tx.hash ∈ pool.entries
  · exact ⟨(pool, []), by simp [addOrphanTx, known], indexed, fun _ => rfl, fun fresh => absurd known fresh⟩
  · have inserted : Indexed fromTxHash
        (pool.insertEntry (fromTxHash tx.hash) (OrphanEntry.new tx peer declaredCycle createdAt)) :=
      indexed.insertEntry known rfl
    obtain ⟨result, run, indexed', shrinks, small, fresh⟩ := limitSize_spec inserted now
    refine ⟨result, ?_, indexed', fun present => absurd present known, fun _ => ⟨shrinks, small, fresh⟩⟩
    simp only [addOrphanTx, if_neg known]
    exact run

/-! `find_by_previous` -/

theorem mem_findByPrevious (indexed : Indexed fromTxHash pool) (tx : TransactionView H) (id : I) :
    id ∈ pool.findByPrevious tx ↔
      ∃ entry, pool.entries.lookup id = some entry ∧ ∃ outPoint ∈ tx.outputPts, outPoint ∈ entry.tx.inputPts := by
  simp only [findByPrevious, List.mem_flatMap, List.mem_filterMap, mem_sortedElems]
  constructor
  · rintro ⟨ids, ⟨outPoint, output, found⟩, member⟩
    obtain ⟨entry, stored, spent⟩ := (indexed.exact outPoint id).mp (by simp [Indexes, found, member])
    exact ⟨entry, stored, outPoint, output, spent⟩
  · rintro ⟨entry, stored, outPoint, output, spent⟩
    have indexes := (indexed.exact outPoint id).mpr ⟨entry, stored, spent⟩
    unfold Indexes at indexes
    cases found : pool.byOutPoint.lookup outPoint with
    | none => simp [found] at indexes
    | some ids =>
      rw [found, Option.getD_some] at indexes
      exact ⟨ids, ⟨outPoint, output, found⟩, indexes⟩

/-! Runs -/

theorem len_removeOrphanTx_le (pool : OrphanPool H I) (id : I) : (pool.removeOrphanTx id).1.len ≤ pool.len := by
  simp only [len, (removeOrphanTx_entries pool id).1, Finmap.keys_erase]
  exact Finset.card_erase_le

theorem removeOrphanTxs_spec (ids : List I) (pool : OrphanPool H I) (indexed : Indexed fromTxHash pool) :
    Indexed fromTxHash (pool.removeOrphanTxs ids) ∧ (pool.removeOrphanTxs ids).len ≤ pool.len := by
  induction ids generalizing pool with
  | nil => exact ⟨indexed, le_refl _⟩
  | cons id rest ih =>
    obtain ⟨indexed', shorter⟩ := ih _ (indexed.removeOrphanTx id)
    exact ⟨indexed', le_trans shorter (len_removeOrphanTx_le pool id)⟩

theorem Step.bounded {pool' : OrphanPool H I} (step : Step fromTxHash pool pool') (indexed : Indexed fromTxHash pool)
    (small : pool.len ≤ defaultMaxOrphanTransactions) :
    Indexed fromTxHash pool' ∧ pool'.len ≤ defaultMaxOrphanTransactions := by
  cases step with
  | addOrphanTx tx peer declaredCycle createdAt now result added =>
    obtain ⟨result', run, indexed', known, fresh⟩ := addOrphanTx_spec indexed tx peer declaredCycle createdAt now
    rw [added, Option.some_inj] at run
    subst run
    refine ⟨indexed', ?_⟩
    by_cases present : fromTxHash tx.hash ∈ pool.entries
    · rw [known present]
      exact small
    · exact (fresh present).2.1
  | removeOrphanTx id => exact ⟨indexed.removeOrphanTx id, le_trans (len_removeOrphanTx_le pool id) small⟩
  | removeOrphanTxs ids =>
    obtain ⟨indexed', shorter⟩ := removeOrphanTxs_spec ids pool indexed
    exact ⟨indexed', le_trans shorter small⟩

theorem Reachable.bounded (reachable : Reachable fromTxHash pool) :
    Indexed fromTxHash pool ∧ pool.len ≤ defaultMaxOrphanTransactions := by
  induction reachable with
  | refl => exact ⟨indexed_new, by simp [new, len]⟩
  | tail _ step ih => exact step.bounded ih.1 ih.2

/-! What every reachable pool does -/

theorem orphan_pool_reachable_indexed (reachable : Reachable fromTxHash pool) :
    Indexed fromTxHash pool ∧ pool.len ≤ defaultMaxOrphanTransactions :=
  reachable.bounded

theorem add_orphan_tx_bounded (reachable : Reachable fromTxHash pool) (tx : TransactionView H)
    (peer declaredCycle createdAt now : Nat) :
    ∃ result, pool.addOrphanTx fromTxHash tx peer declaredCycle createdAt now = some result ∧
      Reachable fromTxHash result.1 ∧ result.1.len ≤ defaultMaxOrphanTransactions ∧
      (fromTxHash tx.hash ∈ pool.entries → result = (pool, [])) ∧
      (fromTxHash tx.hash ∉ pool.entries →
        Shrinks (pool.insertEntry (fromTxHash tx.hash) (OrphanEntry.new tx peer declaredCycle createdAt), []) result ∧
        result.1.len + result.2.length = pool.len + 1 ∧
        ∀ id entry, result.1.entries.lookup id = some entry → now < entry.expiresAt) := by
  have bounded := reachable.bounded
  obtain ⟨result, run, -, known, fresh⟩ := addOrphanTx_spec bounded.1 tx peer declaredCycle createdAt now
  have next : Reachable fromTxHash result.1 := reachable.tail (Step.addOrphanTx pool tx peer declaredCycle createdAt now result run)
  refine ⟨result, run, next, next.bounded.2, known, fun absent => ⟨(fresh absent).1, ?_, (fresh absent).2.2⟩⟩
  -- the evicted hashes are one for each entry taken out of the pool with the new one
  obtain ⟨-, removed, evicted, counted, -⟩ := (fresh absent).1
  rw [evicted, List.nil_append, List.length_map, counted, len_insertEntry absent]

theorem find_by_previous_spends (reachable : Reachable fromTxHash pool) (tx : TransactionView H) (id : I) :
    id ∈ pool.findByPrevious tx ↔
      ∃ entry, pool.get id = some entry ∧ ∃ outPoint ∈ tx.outputPts, outPoint ∈ entry.tx.inputPts :=
  mem_findByPrevious reachable.bounded.1 tx id

theorem remove_orphan_tx_unindexes (reachable : Reachable fromTxHash pool) (id : I) :
    (pool.removeOrphanTx id).2 = pool.get id ∧
    (pool.removeOrphanTx id).1.get = Function.update pool.get id none ∧
    ∀ outPoint id', (pool.removeOrphanTx id).1.Indexes outPoint id' ↔ pool.Indexes outPoint id' ∧ id' ≠ id := by
  have indexed := reachable.bounded.1
  have indexed' := indexed.removeOrphanTx id
  obtain ⟨erased, taken⟩ := removeOrphanTx_entries pool id
  have view : (pool.removeOrphanTx id).1.get = Function.update pool.get id none := by
    funext id'
    by_cases same : id' = id
    · subst same
      simp [get, erased]
    · simp [get, erased, same, Finmap.lookup_erase_ne same]
  refine ⟨taken, view, fun outPoint id' => ?_⟩
  rw [indexed'.exact, indexed.exact]
  by_cases same : id' = id
  · subst same
    simp [erased]
  · simp [erased, same, Finmap.lookup_erase_ne same]

/-- An orphan spending the first output of the transaction with hash `5`. -/
def sampleTx : TransactionView Nat := ⟨7, [], [], [⟨⟨5, 0⟩, 0⟩], [], [], []⟩

def sampleParent : TransactionView Nat := ⟨5, [], [], [], [⟨100, ⟨0, .data, []⟩, none⟩], [[]], []⟩

def sampleOrphans : OrphanPool Nat Nat := (new : OrphanPool Nat Nat).insertEntry 7 (OrphanEntry.new sampleTx 0 0 0)

theorem sampleOrphans_reachable : Reachable (fun hash => hash) sampleOrphans :=
  .single (Step.addOrphanTx new sampleTx 0 0 0 0 (sampleOrphans, []) rfl)

-- the parent's output is spent by the orphan
example : sampleOrphans.findByPrevious sampleParent = [7] := by decide

theorem sampleOrphans_indexed :
    Indexed (fun hash => hash) sampleOrphans ∧ sampleOrphans.len ≤ defaultMaxOrphanTransactions :=
  orphan_pool_reachable_indexed sampleOrphans_reachable

/-- A second orphan, spending another output of the transaction with hash `5`. -/
def freshTx : TransactionView Nat := ⟨9, [], [], [⟨⟨5, 1⟩, 0⟩], [], [], []⟩

theorem sampleOrphans_add_fresh :
    freshTx.hash ∉ sampleOrphans.entries ∧
    ∃ result, sampleOrphans.addOrphanTx (fun hash => hash) freshTx 1 0 10 10 = some result ∧
      Reachable (fun hash => hash) result.1 ∧ result.1.len ≤ defaultMaxOrphanTransactions ∧
      (freshTx.hash ∈ sampleOrphans.entries → result = (sampleOrphans, [])) ∧
      (freshTx.hash ∉ sampleOrphans.entries →
        Shrinks (sampleOrphans.insertEntry freshTx.hash (OrphanEntry.new freshTx 1 0 10), []) result ∧
        result.1.len + result.2.length = sampleOrphans.len + 1 ∧
        ∀ id entry, result.1.entries.lookup id = some entry → 10 < entry.expiresAt) :=
  ⟨by decide, add_orphan_tx_bounded sampleOrphans_reachable freshTx 1 0 10 10⟩

theorem sampleOrphans_find_child :
    7 ∈ sampleOrphans.findByPrevious sampleParent ↔
      ∃ entry, sampleOrphans.get 7 = some entry ∧ ∃ outPoint ∈ sampleParent.outputPts, outPoint ∈ entry.tx.inputPts :=
  find_by_previous_spends sampleOrphans_reachable sampleParent 7

theorem sampleOrphans_remove :
    (sampleOrphans.removeOrphanTx 7).2 = sampleOrphans.get 7 ∧
    (sampleOrphans.removeOrphanTx 7).1.get = Function.update sampleOrphans.get 7 none ∧
    ∀ outPoint id', (sampleOrphans.removeOrphanTx 7).1.Indexes outPoint id' ↔
      sampleOrphans.Indexes outPoint id' ∧ id' ≠ 7 :=
  remove_orphan_tx_unindexes sampleOrphans_reachable 7

end OrphanPool

end Ckb.TxPool
