import Ckb.TxPool.ScanModified

/-!
The pieces of a round of `txs_to_commit`: which entry a round evaluates, the ancestors it
packages with it, and what fetching the package does to the scanner. While `modified_entries`
holds what `ModifiedOk` allows, the ancestors are one entry for each proposed ancestor not yet
fetched, in the order of their counts, and the package maps each of them and the entry under its
own short id.
-/

namespace Ckb.TxPool

variable {H I : Type} [LinearOrder I] {env : PoolEnv H I} {pool : PoolMap H I}

theorem nextBestEntry_mem {modifiedEntries : FiniteMap I (TxEntry H)} {entry : TxEntry H}
    (best : nextBestEntry env modifiedEntries = some entry) : ∃ id, modifiedEntries.lookup id = some entry := by
  unfold nextBestEntry at best
  -- the fold only ever keeps an entry of the map
  refine foldl_invariant (fun found : Option (TxEntry H) => ∀ e, found = some e → ∃ id, modifiedEntries.lookup id = some e)
    _ ?_ ?_ entry best
  · intro found e member within e' chosen
    obtain ⟨id, -, listed⟩ := List.mem_filterMap.mp member
    cases found with
    | none =>
      cases chosen
      exact ⟨id, listed⟩
    | some kept =>
      dsimp only at chosen
      split at chosen
      · cases chosen
        exact within _ rfl
      · cases chosen
        exact ⟨id, listed⟩
  · intro e absurd
    cases absurd

namespace ScanState

variable {state : ScanState H I}

theorem candidate_eq_some {entry : TxEntry H} {usingModified : Bool} {iter : List (TxEntry H)}
    (chosen : state.candidate env = some (entry, usingModified, iter)) :
    (usingModified = false ∧ state.iter = entry :: iter) ∨
      (usingModified = true ∧ iter = state.iter ∧ ∃ id, state.modifiedEntries.lookup id = some entry) := by
  unfold candidate at chosen
  split at chosen
  · next head rest best sourced best' =>
    split at chosen
    · cases chosen
      exact .inr ⟨rfl, sourced.symm, nextBestEntry_mem best'⟩
    · cases chosen
      exact .inl ⟨rfl, sourced⟩
  · next head rest sourced none' =>
    cases chosen
    exact .inl ⟨rfl, sourced⟩
  · next best sourced best' =>
    cases chosen
    exact .inr ⟨rfl, sourced.symm, nextBestEntry_mem best'⟩
  · cases chosen

variable (ready : ScanReady env pool)
  (ok : ∀ k, ModifiedOk pool state.failedTxs state.fetchedTxs state.fetchedTxs k (state.modifiedEntries.lookup k))
include ready ok

theorem retrieveEntry_of_hasProposed {id : I} (proposed : pool.hasProposed id = true) (unfetched : id ∉ state.fetchedTxs) :
    ∃ entry, state.retrieveEntry pool id = some entry ∧ entry.proposalShortId env = id := by
  cases retrieved : state.retrieveEntry pool id with
  | none =>
    have absent := (Option.or_eq_none_iff.mp retrieved).2
    simp [PoolMap.hasProposed, absent] at proposed
  | some entry =>
    exact ⟨entry, rfl, ((ok id).retrieve ready proposed unfetched retrieved).1.proposalShortId ready⟩

theorem map_filterMap_onlyUnconfirmed {ids : List I} (proposed : ∀ a ∈ ids, pool.hasProposed a = true) :
    (ids.filterMap (state.onlyUnconfirmed pool)).map (·.proposalShortId env) = ids.filter (· ∉ state.fetchedTxs) := by
  induction ids with
  | nil => rfl
  | cons a rest ih =>
    have restProposed : ∀ b ∈ rest, pool.hasProposed b = true := fun b member => proposed b (List.mem_cons_of_mem a member)
    by_cases fetchedA : a ∈ state.fetchedTxs
    · rw [List.filterMap_cons_none (by simp [onlyUnconfirmed, fetchedA]), ih restProposed,
        List.filter_cons_of_neg (by simp [fetchedA])]
    · obtain ⟨entry, retrieved, key⟩ := retrieveEntry_of_hasProposed ready ok (proposed a List.mem_cons_self) fetchedA
      rw [List.filterMap_cons_some (show state.onlyUnconfirmed pool a = some entry by simp [onlyUnconfirmed, fetchedA, retrieved]),
        List.map_cons, ih restProposed,
        List.filter_cons_of_pos (by simp [fetchedA]), key]

theorem ancestors_perm (txEntry : TxEntry H) :
    (state.ancestors env pool txEntry).map (·.proposalShortId env) |>.Perm
      (((sortedElems (pool.calcAncestors (txEntry.proposalShortId env))).filter (pool.hasProposed ·)).filter
        (· ∉ state.fetchedTxs)) := by
  have proposed : ∀ a ∈ (sortedElems (pool.calcAncestors (txEntry.proposalShortId env))).filter (pool.hasProposed ·),
      pool.hasProposed a = true := fun a member => (List.mem_filter.mp member).2
  rw [← map_filterMap_onlyUnconfirmed ready ok proposed]
  exact ((List.perm_insertionSort _ _).map _)

omit ready ok in
theorem mem_ancestors {txEntry entry : TxEntry H} (member : entry ∈ state.ancestors env pool txEntry) :
    ∃ a ∈ pool.calcAncestors (txEntry.proposalShortId env), pool.hasProposed a = true ∧ a ∉ state.fetchedTxs ∧
      (state.modifiedEntries.lookup a).or (pool.getProposed a) = some entry := by
  obtain ⟨a, listed, retrieved⟩ := List.mem_filterMap.mp ((List.perm_insertionSort _ _).subset member)
  obtain ⟨ancestor, proposed⟩ := List.mem_filter.mp listed
  by_cases fetchedA : a ∈ state.fetchedTxs
  · simp [onlyUnconfirmed, fetchedA] at retrieved
  · refine ⟨a, mem_sortedElems.mp ancestor, by simpa using proposed, fetchedA, ?_⟩
    simpa [onlyUnconfirmed, fetchedA, retrieveEntry] using retrieved

omit ready ok in
theorem pairwise_ancestors (txEntry : TxEntry H) :
    (state.ancestors env pool txEntry).Pairwise fun a b => a.ancestorsCount ≤ b.ancestorsCount := by
  let byCount := fun a b : TxEntry H => a.ancestorsCount ≤ b.ancestorsCount
  have : Std.Total byCount := ⟨fun a b => le_total a.ancestorsCount b.ancestorsCount⟩
  have : IsTrans (TxEntry H) byCount := ⟨fun _ _ _ => le_trans⟩
  exact List.pairwise_insertionSort byCount _

end ScanState

theorem linkedHashMapOf_of_nodup {package : List (TxEntry H)} (nodup : (package.map (·.proposalShortId env)).Nodup) :
    linkedHashMapOf env package = package.map fun e => (e.proposalShortId env, e) := by
  -- an accumulated map that shares no id with what is still to come only grows at its end
  have grows : ∀ (rest : List (TxEntry H)) (map : List (I × TxEntry H)), (rest.map (·.proposalShortId env)).Nodup →
      (∀ p ∈ map, p.1 ∉ rest.map (·.proposalShortId env)) →
      rest.foldl (fun map entry => map.filter (·.1 ≠ entry.proposalShortId env) ++
        [(entry.proposalShortId env, entry)]) map = map ++ rest.map fun e => (e.proposalShortId env, e) := by
    intro rest
    induction rest with
    | nil => simp
    | cons entry rest ih =>
      intro map nodupRest apart
      obtain ⟨notLater, restNodup⟩ := List.nodup_cons.mp nodupRest
      have kept : map.filter (·.1 ≠ entry.proposalShortId env) = map := by
        apply List.filter_eq_self.mpr
        intro p member
        have other : p.1 ≠ entry.proposalShortId env := fun same => apart p member (same ▸ List.mem_cons_self)
        simpa using other
      rw [List.foldl_cons, kept, ih _ restNodup]
      · simp
      · intro p member
        rcases List.mem_append.mp member with earlier | single
        · exact fun later => apart p earlier (List.mem_cons_of_mem _ later)
        · rw [List.mem_singleton.mp single]
          simpa using notLater
  rw [linkedHashMapOf, grows package [] nodup (by simp), List.nil_append]

namespace ScanState

theorem foldl_fetch (package : List (TxEntry H)) (state : ScanState H I)
    (sizeFits : state.size + (package.map (·.size)).sum ≤ u64Max)
    (cyclesFits : state.cycles + (package.map (·.cycles)).sum ≤ u64Max) :
    (package.map fun e => (e.proposalShortId env, e)).foldl fetch state =
      { state with
        fetchedTxs := state.fetchedTxs ∪ (package.map (·.proposalShortId env)).toFinset
        cycles := state.cycles + (package.map (·.cycles)).sum
        size := state.size + (package.map (·.size)).sum
        entries := state.entries ++ package
        modifiedEntries := (package.map (·.proposalShortId env)).foldl (fun m k => m.erase k) state.modifiedEntries } := by
  induction package generalizing state with
  | nil => simp
  | cons entry rest ih =>
    simp only [List.map_cons, List.sum_cons] at sizeFits cyclesFits
    have size : saturatingAdd state.size entry.size = state.size + entry.size := by
      unfold saturatingAdd
      omega
    have cycles : saturatingAdd state.cycles entry.cycles = state.cycles + entry.cycles := by
      unfold saturatingAdd
      omega
    rw [List.map_cons, List.foldl_cons, ih]
    · simp only [fetch, size, cycles, List.map_cons, List.sum_cons, List.foldl_cons, List.toFinset_cons,
        List.append_assoc, List.singleton_append, Finset.insert_union, Finset.union_insert, add_assoc]
    · simp only [fetch, size]
      omega
    · simp only [fetch, cycles]
      omega

end ScanState

end Ckb.TxPool
