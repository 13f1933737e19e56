import Ckb.TxPool.Pool
import Ckb.TxPool.Consistency

/-!
`limit_size` ends, within one round per entry, and on return the pool is within its size. Each
round evicts an entry with its descendants, so the entries decrease while the pool is over its
size; an over-sized pool has an entry, since the total is the sum of the sizes, so a round always
finds one. The entry a round picks is pending if any entry is, and gap if any entry is gap.

The model's entry map is a finite map; the multi-index map of the source keeps each entry under
its own id, which `SizesExact.keyed` states.
-/

set_option linter.dupNamespace false

namespace Ckb.TxPool

variable {H I : Type} [LinearOrder I]

/-- What `limit_size` reads of a pool map: the total size is the sum of the entries' sizes, and
each entry sits under its own id. -/
structure SizesExact (s : PoolMap H I) : Prop where
  total_size : s.totalTxSize = s.sumSizes
  keyed : ∀ k e, s.entries.lookup k = some e → e.id = k

theorem sizesExact_iff (s : PoolMap H I) :
    SizesExact s ↔ s.totalTxSize = s.sumSizes ∧ ∀ k ∈ s.entries.keys, ∀ e ∈ s.entries.lookup k, e.id = k := by
  constructor
  · intro exact
    exact ⟨exact.total_size, fun k _ e found => exact.keyed k e found⟩
  · rintro ⟨total, keyed⟩
    refine ⟨total, fun k e found => keyed k ?_ e found⟩
    exact Finmap.mem_keys.mpr (Finmap.mem_of_lookup_eq_some found)

instance (s : PoolMap H I) : Decidable (SizesExact s) := decidable_of_iff _ (sizesExact_iff s).symm

/-- Some entry of the pool map has the status. -/
def PoolMap.HasStatus (s : PoolMap H I) (status : Status) : Prop :=
  ∃ k e, s.entries.lookup k = some e ∧ e.status = status

theorem SizesExact.total_eq_zero {s : PoolMap H I} (exact : SizesExact s) (empty : s.entries.keys.card = 0) :
    s.totalTxSize = 0 := by
  rw [exact.total_size, PoolMap.sumSizes, FiniteMap.sumBy, Finset.card_eq_zero.mp empty, Finset.sum_empty]

theorem sameFrames_keyed {m₁ m₂ : FiniteMap I (PoolEntry H I)} (same : SameFrames m₁ m₂)
    (keyed : ∀ k e, m₂.lookup k = some e → e.id = k) : ∀ k e, m₁.lookup k = some e → e.id = k := by
  intro k e found
  obtain ⟨e', found', frame⟩ := same.exists_of_lookup found
  have sameId : e'.id = e.id := congrArg Prod.fst frame
  rw [← sameId]
  exact keyed k e' found'

theorem foldl_removeEntryLinks_same (ids : List I) (s : PoolMap H I) :
    (ids.foldl PoolMap.removeEntryLinks s).entries = s.entries ∧
      (ids.foldl PoolMap.removeEntryLinks s).totalTxSize = s.totalTxSize ∧
      ∀ status, (ids.foldl PoolMap.removeEntryLinks s).counter status = s.counter status :=
  foldl_invariant
    (fun t : PoolMap H I => t.entries = s.entries ∧ t.totalTxSize = s.totalTxSize ∧ ∀ status, t.counter status = s.counter status)
    ids (fun t id _ same => by simpa using same) ⟨rfl, rfl, fun _ => rfl⟩

section Removal

variable [DecidableEq H] (env : PoolEnv H I)

theorem SizesExact.removeEntry {s s' : PoolMap H I} {r : I} {removed : Option (TxEntry H)}
    (exact : SizesExact s) (ran : s.removeEntry env r = some (s', removed)) :
    SizesExact s' ∧ ∀ k, k ∈ s'.entries ↔ k ≠ r ∧ k ∈ s.entries := by
  have total := PoolMap.removeEntry_total_size env exact.total_size ran
  cases found : s.entries.lookup r with
  | none =>
    obtain ⟨same, -⟩ := PoolMap.removeEntry_absent env found ran
    subst s'
    have absent : r ∉ s.entries := Finmap.lookup_eq_none.mp found
    refine ⟨exact, fun k => ⟨fun member => ⟨?_, member⟩, And.right⟩⟩
    rintro rfl
    exact absent member
  | some e =>
    obtain ⟨frames, -, -, -, -, -⟩ := PoolMap.removeEntry_found env found ran
    have keyedErase : ∀ k e, (s.entries.erase r).lookup k = some e → e.id = k := by
      intro k e look
      by_cases same : k = r
      · subst same
        simp at look
      · rw [Finmap.lookup_erase_ne same] at look
        exact exact.keyed k e look
    refine ⟨⟨total, sameFrames_keyed frames keyedErase⟩, fun k => ?_⟩
    rw [SameFrames.mem_iff frames, Finmap.mem_erase]

theorem SizesExact.removeEntryAndDescendants {s s' : PoolMap H I} {id : I} {removed : List (TxEntry H)}
    (exact : SizesExact s) (ran : s.removeEntryAndDescendants env id = some (s', removed)) :
    SizesExact s' ∧ (∀ k, k ∈ s'.entries → k ∈ s.entries) ∧ id ∉ s'.entries := by
  unfold PoolMap.removeEntryAndDescendants at ran
  have listed : id ∈ id :: sortedElems (s.calcDescendants id) := List.mem_cons_self
  generalize id :: sortedElems (s.calcDescendants id) = removedIds at ran listed
  obtain ⟨strippedEntries, strippedTotal, -⟩ := foldl_removeEntryLinks_same removedIds s
  have stripped : SizesExact (removedIds.foldl PoolMap.removeEntryLinks s) := by
    refine ⟨?_, ?_⟩
    · rw [strippedTotal, exact.total_size, PoolMap.sumSizes, PoolMap.sumSizes, strippedEntries]
    · rw [strippedEntries]
      exact exact.keyed
  -- the removal loop: the ids removed so far are gone, and nothing else is
  have loop := foldlM_option_induction
    (fun done (acc : PoolMap H I × List (TxEntry H)) =>
      SizesExact acc.1 ∧ ∀ k, k ∈ acc.1.entries ↔ k ∉ done ∧ k ∈ s.entries)
    removedIds ?step ⟨stripped, ?start⟩ ran
  case start =>
    intro k
    rw [strippedEntries]
    simp
  case step =>
    rintro done r acc next - ⟨exactAcc, entriesAcc⟩ stepped
    rw [Option.bind_eq_bind] at stepped
    obtain ⟨⟨s₂, out⟩, ran₂, finished⟩ := Option.bind_eq_some_iff.mp stepped
    simp only [pure, Option.some.injEq] at finished
    subst finished
    obtain ⟨exact₂, entries₂⟩ := exactAcc.removeEntry env ran₂
    refine ⟨exact₂, fun k => ?_⟩
    rw [entries₂, entriesAcc]
    simp only [List.mem_append, List.mem_singleton]
    tauto
  obtain ⟨exactAfter, entriesAfter⟩ := loop
  exact ⟨exactAfter, fun k member => ((entriesAfter k).mp member).2,
    fun member => ((entriesAfter id).mp member).1 listed⟩

/-- With counters that count the entries, `remove_entry_and_descendants` does not panic, and the
counters still count the entries after it. -/
theorem CountersExact.removeEntryAndDescendants {s : PoolMap H I} (counted : CountersExact s) (id : I) :
    ∃ result, s.removeEntryAndDescendants env id = some result ∧ CountersExact result.1 := by
  unfold PoolMap.removeEntryAndDescendants
  generalize id :: sortedElems (s.calcDescendants id) = removedIds
  dsimp only
  obtain ⟨strippedEntries, strippedTotal, strippedCounters⟩ := foldl_removeEntryLinks_same removedIds s
  have stripped : CountersExact (removedIds.foldl PoolMap.removeEntryLinks s) := by
    refine ⟨fun status => ?_, ?_⟩
    · rw [strippedCounters, counted.counts, PoolMap.countStatus, PoolMap.countStatus, strippedEntries]
    · rw [strippedTotal, counted.total_size, PoolMap.sumSizes, PoolMap.sumSizes, strippedEntries]
  -- every removal of the loop passes its checks and keeps the counters
  refine foldlM_option_exists (fun _ (acc : PoolMap H I × List (TxEntry H)) => CountersExact acc.1)
    removedIds ?_ stripped
  rintro - r ⟨acc, out⟩ - countedAcc
  obtain ⟨⟨s₂, out₂⟩, ran₂⟩ := Option.isSome_iff_exists.mp (PoolMap.removeEntry_isSome env countedAcc.counts r)
  exact ⟨(s₂, out ++ out₂.toList), by simp [ran₂], countedAcc.removeEntry ran₂⟩

end Removal

section Eviction

theorem PoolMap.mem_iterByEvictKey {s : PoolMap H I} {e : PoolEntry H I} :
    e ∈ s.iterByEvictKey ↔ ∃ k, s.entries.lookup k = some e := by
  unfold PoolMap.iterByEvictKey
  rw [(List.perm_insertionSort _ _).mem_iff, List.mem_filterMap]
  constructor
  · rintro ⟨k, -, found⟩
    exact ⟨k, found⟩
  · rintro ⟨k, found⟩
    exact ⟨k, by simpa [Finmap.mem_keys] using Finmap.mem_of_lookup_eq_some found, found⟩

theorem PoolMap.nextEvictEntry_eq_some {s : PoolMap H I} {status : Status} {id : I}
    (exact : SizesExact s) (next : s.nextEvictEntry status = some id) :
    ∃ e, s.entries.lookup id = some e ∧ e.status = status := by
  obtain ⟨e, first, rfl⟩ := Option.map_eq_some_iff.mp next
  obtain ⟨k, found⟩ := PoolMap.mem_iterByEvictKey.mp (List.mem_of_find?_eq_some first)
  have chosen := List.find?_some first
  rw [exact.keyed k e found]
  exact ⟨e, found, of_decide_eq_true chosen⟩

theorem PoolMap.nextEvictEntry_eq_none {s : PoolMap H I} {status : Status}
    (next : s.nextEvictEntry status = none) : ¬ s.HasStatus status := by
  rintro ⟨k, e, found, named⟩
  have listed : e ∈ s.iterByEvictKey := PoolMap.mem_iterByEvictKey.mpr ⟨k, found⟩
  rw [PoolMap.nextEvictEntry, Option.map_eq_none_iff, List.find?_eq_none] at next
  exact next e listed (decide_eq_true named)

theorem TxPool.nextEvictEntry_priority {s : PoolMap H I} {id : I} (exact : SizesExact s)
    (next : TxPool.nextEvictEntry s = some id) :
    ∃ e, s.entries.lookup id = some e ∧ (e.status = .gap → ¬ s.HasStatus .pending) ∧
      (e.status = .proposed → ¬ s.HasStatus .pending ∧ ¬ s.HasStatus .gap) := by
  unfold TxPool.nextEvictEntry at next
  cases pending : s.nextEvictEntry .pending with
  | some first =>
    rw [pending] at next
    cases next
    obtain ⟨e, found, named⟩ := PoolMap.nextEvictEntry_eq_some exact pending
    refine ⟨e, found, ?_, ?_⟩ <;> intro other <;> simp [named] at other
  | none =>
    have noPending := PoolMap.nextEvictEntry_eq_none pending
    rw [pending, Option.none_or] at next
    cases gap : s.nextEvictEntry .gap with
    | some first =>
      rw [gap] at next
      cases next
      obtain ⟨e, found, named⟩ := PoolMap.nextEvictEntry_eq_some exact gap
      exact ⟨e, found, fun _ => noPending, fun other => by simp [named] at other⟩
    | none =>
      rw [gap, Option.none_or] at next
      obtain ⟨e, found, -⟩ := PoolMap.nextEvictEntry_eq_some exact next
      exact ⟨e, found, fun _ => noPending, fun _ => ⟨noPending, PoolMap.nextEvictEntry_eq_none gap⟩⟩

theorem TxPool.nextEvictEntry_eq_none {s : PoolMap H I} (next : TxPool.nextEvictEntry s = none) :
    s.entries = ∅ := by
  unfold TxPool.nextEvictEntry at next
  simp only [Option.or_eq_none_iff] at next
  obtain ⟨⟨pending, gap⟩, proposed⟩ := next
  apply Finmap.ext_lookup
  intro k
  cases found : s.entries.lookup k with
  | none => rfl
  | some e =>
    have absent : ∀ status, s.nextEvictEntry status = none → e.status ≠ status :=
      fun status none named => PoolMap.nextEvictEntry_eq_none none ⟨k, e, found, named⟩
    cases named : e.status with
    | pending => exact absurd named (absent _ pending)
    | gap => exact absurd named (absent _ gap)
    | proposed => exact absurd named (absent _ proposed)

end Eviction

@[simp] theorem foldl_reportFull_poolMap (env : PoolEnv H I) (currentEntryId : Option I)
    (entries : List (TxEntry H)) (state : TxPool.LimitSizeState H I) :
    (entries.foldl (TxPool.reportFull env currentEntryId) state).poolMap = state.poolMap := by
  induction entries generalizing state with
  | nil => rfl
  | cons entry rest ih =>
    rw [List.foldl_cons, ih]
    rfl

section Loop

variable [DecidableEq H] (env : PoolEnv H I)

/-- One round of the loop of `limit_size` on the pool map: the pool is over its size, `id` is the
next entry to evict, and it leaves with its descendants. -/
def EvictsNext (maxTxPoolSize : Nat) (s : PoolMap H I) (id : I) (s' : PoolMap H I) : Prop :=
  maxTxPoolSize < s.totalTxSize ∧ TxPool.nextEvictEntry s = some id ∧
    ∃ removed, s.removeEntryAndDescendants env id = some (s', removed)

/-- The pool maps the loop of `limit_size` goes through, one round at a time. -/
def LimitSizeStep (maxTxPoolSize : Nat) (s s' : PoolMap H I) : Prop :=
  ∃ id, EvictsNext env maxTxPoolSize s id s'

/-- A round over an over-sized pool with exact sizes evicts the next entry: the entries shrink and
the sizes stay exact. -/
theorem limitSizeRound_evicts {maxTxPoolSize : Nat} {currentEntryId : Option I}
    {state next : TxPool.LimitSizeState H I} (exact : SizesExact state.poolMap)
    (overSize : maxTxPoolSize < state.poolMap.totalTxSize)
    (ran : TxPool.limitSizeRound env currentEntryId state = some next) :
    LimitSizeStep env maxTxPoolSize state.poolMap next.poolMap ∧ SizesExact next.poolMap ∧
      next.poolMap.entries.keys.card < state.poolMap.entries.keys.card := by
  unfold TxPool.limitSizeRound at ran
  cases chosen : TxPool.nextEvictEntry state.poolMap with
  | none =>
    -- nothing to evict means no entry, so no size
    have empty := TxPool.nextEvictEntry_eq_none chosen
    have zero := exact.total_eq_zero (by simp [empty])
    omega
  | some id =>
    rw [chosen, Option.bind_eq_bind] at ran
    obtain ⟨removed, ranR, finished⟩ := Option.bind_eq_some_iff.mp ran
    simp only [pure, Option.some.injEq] at finished
    subst finished
    obtain ⟨e, found, -⟩ := TxPool.nextEvictEntry_priority exact chosen
    obtain ⟨exact', within, gone⟩ := exact.removeEntryAndDescendants env ranR
    rw [foldl_reportFull_poolMap]
    refine ⟨⟨id, overSize, chosen, removed.2, ranR⟩, exact', Finset.card_lt_card ?_⟩
    rw [Finset.ssubset_iff_of_subset]
    · exact ⟨id, Finmap.mem_keys.mpr (Finmap.mem_of_lookup_eq_some found), fun kept => gone (Finmap.mem_keys.mp kept)⟩
    · intro k kept
      exact Finmap.mem_keys.mpr (within k (Finmap.mem_keys.mp kept))

/-- With counters that count the entries, a round of the loop does not panic, and the counters still
count the entries after it. -/
theorem limitSizeRound_succeeds (currentEntryId : Option I) {state : TxPool.LimitSizeState H I}
    (counted : CountersExact state.poolMap) :
    ∃ next, TxPool.limitSizeRound env currentEntryId state = some next ∧ CountersExact next.poolMap := by
  unfold TxPool.limitSizeRound
  cases chosen : TxPool.nextEvictEntry state.poolMap with
  | none => exact ⟨state, rfl, counted⟩
  | some id =>
    obtain ⟨⟨s', removed⟩, ran, counted'⟩ := counted.removeEntryAndDescendants env id
    refine ⟨removed.foldl (TxPool.reportFull env currentEntryId) { state with poolMap := s' }, ?_, ?_⟩
    · simp [ran]
    · rw [foldl_reportFull_poolMap]
      exact counted'

/-- With counters that count the entries, the loop of `limit_size` never panics, however many
rounds it is given. -/
theorem limitSizeLoop_ne_panicked (maxTxPoolSize : Nat) (currentEntryId : Option I) (rounds : Nat) :
    ∀ state : TxPool.LimitSizeState H I, CountersExact state.poolMap →
      TxPool.limitSizeLoop env maxTxPoolSize currentEntryId rounds state ≠ .panicked := by
  induction rounds with
  | zero =>
    intro state _
    simp only [TxPool.limitSizeLoop]
    split_ifs <;> simp
  | succ rounds ih =>
    intro state counted
    obtain ⟨next, round, counted'⟩ := limitSizeRound_succeeds env currentEntryId counted
    simp only [TxPool.limitSizeLoop, round]
    split_ifs
    · exact ih next counted'
    · simp

/-- Given a round per entry, the loop of `limit_size` does not run out of rounds; when it returns,
the pool is within its size and was reached round by round. -/
theorem limitSizeLoop_spec {maxTxPoolSize : Nat} {currentEntryId : Option I} (rounds : Nat) :
    ∀ state : TxPool.LimitSizeState H I, SizesExact state.poolMap → state.poolMap.entries.keys.card ≤ rounds →
      TxPool.limitSizeLoop env maxTxPoolSize currentEntryId rounds state ≠ .unfinished ∧
        ∀ final, TxPool.limitSizeLoop env maxTxPoolSize currentEntryId rounds state = .finished final →
          final.poolMap.totalTxSize ≤ maxTxPoolSize ∧
            Relation.ReflTransGen (LimitSizeStep env maxTxPoolSize) state.poolMap final.poolMap := by
  induction rounds with
  | zero =>
    intro state exact bound
    have zero := exact.total_eq_zero (by omega)
    have within : ¬ state.poolMap.totalTxSize > maxTxPoolSize := by omega
    simp only [TxPool.limitSizeLoop, if_neg within]
    refine ⟨by simp, fun final finished => ?_⟩
    cases finished
    exact ⟨by omega, .refl⟩
  | succ rounds ih =>
    intro state exact bound
    by_cases overSize : state.poolMap.totalTxSize > maxTxPoolSize
    · simp only [TxPool.limitSizeLoop, if_pos overSize]
      cases round : TxPool.limitSizeRound env currentEntryId state with
      | none =>
        refine ⟨by simp, fun final finished => ?_⟩
        cases finished
      | some next =>
        obtain ⟨step, exact', smaller⟩ := limitSizeRound_evicts env exact overSize round
        obtain ⟨notOut, returned⟩ := ih next exact' (by omega)
        refine ⟨notOut, fun final finished => ?_⟩
        obtain ⟨fits, run⟩ := returned final finished
        exact ⟨fits, .head step run⟩
    · simp only [TxPool.limitSizeLoop, if_neg overSize]
      refine ⟨by simp, fun final finished => ?_⟩
      cases finished
      exact ⟨by omega, .refl⟩

theorem limitSizeLoop_succ {maxTxPoolSize : Nat} {currentEntryId : Option I} (rounds : Nat) :
    ∀ state : TxPool.LimitSizeState H I, SizesExact state.poolMap → state.poolMap.entries.keys.card ≤ rounds →
      TxPool.limitSizeLoop env maxTxPoolSize currentEntryId (rounds + 1) state =
        TxPool.limitSizeLoop env maxTxPoolSize currentEntryId rounds state := by
  induction rounds with
  | zero =>
    intro state exact bound
    have zero := exact.total_eq_zero (by omega)
    have within : ¬ state.poolMap.totalTxSize > maxTxPoolSize := by omega
    simp only [TxPool.limitSizeLoop, if_neg within]
  | succ rounds ih =>
    intro state exact bound
    by_cases overSize : state.poolMap.totalTxSize > maxTxPoolSize
    · simp only [TxPool.limitSizeLoop, if_pos overSize]
      cases round : TxPool.limitSizeRound env currentEntryId state with
      | none => rfl
      | some next =>
        obtain ⟨-, exact', smaller⟩ := limitSizeRound_evicts env exact overSize round
        exact ih next exact' (by omega)
    · simp only [TxPool.limitSizeLoop, if_neg overSize]

theorem limitSizeLoop_stable {maxTxPoolSize : Nat} {currentEntryId : Option I} (state : TxPool.LimitSizeState H I)
    (exact : SizesExact state.poolMap) {rounds more : Nat} (enough : state.poolMap.entries.keys.card ≤ rounds)
    (larger : rounds ≤ more) :
    TxPool.limitSizeLoop env maxTxPoolSize currentEntryId more state =
      TxPool.limitSizeLoop env maxTxPoolSize currentEntryId rounds state := by
  induction more, larger using Nat.le_induction with
  | base => rfl
  | succ more larger ih => rw [limitSizeLoop_succ env more state exact (by omega), ih]

theorem SizesExact.limitSizeSteps {maxTxPoolSize : Nat} {s s' : PoolMap H I} (exact : SizesExact s)
    (run : Relation.ReflTransGen (LimitSizeStep env maxTxPoolSize) s s') : SizesExact s' := by
  induction run with
  | refl => exact exact
  | tail _ step previous =>
    obtain ⟨id, -, -, removed, ran⟩ := step
    exact (previous.removeEntryAndDescendants env ran).1

end Loop

variable [DecidableEq H] (env : PoolEnv H I)

section Samples

/-- The parent and its child, 200 bytes each, in a pool of at most 250 bytes. -/
def crowdedPool : TxPool ℕ ℕ :=
  { poolMap := childAdded, maxTxPoolSize := 250, minFeeRate := 1000, minRbfRate := 1500, expiry := 0 }

/-- The crowded pool with its pending counter cleared: the total is still the sum of the sizes, but
`track_entry_statics` underflows on the first eviction. -/
def miscountedPool : TxPool ℕ ℕ := { crowdedPool with poolMap := { childAdded with pendingCount := 0 } }

/-- The child has the lower evict key (the same fee rate, fewer descendants), so it alone is
evicted, and reported as `Full` when it is the entry being submitted. -/
example : (crowdedPool.limitSize sampleEnv (some 2) 2).map (fun result => (result.1.poolMap.entries.keys, result.2.1)) =
    .finished ({1}, some (.full 500)) := by
  decide

end Samples

end Ckb.TxPool
