import Ckb.TxPool.ScanPackage

/-!
What holds between rounds of `txs_to_commit`, and that one round keeps it. The packaged entries
are distinct proposed entries of the pool, no entry is an ancestor of one packaged before it, the
fetched ids are closed under proposed ancestors, and the size and cycles are the packaged entries'
sums within the limits. An id that failed from `modified_entries` would take the block past a
limit; since what packaging it adds only drops by what is packaged, it never fits again, and an
entry that is packaged therefore has exact aggregates. Each round lowers a measure: a package
fetches an id, a failure or a skip drops an entry of the iterator or of `modified_entries`.
-/

namespace Ckb.TxPool

variable {H I : Type} [LinearOrder I] {env : PoolEnv H I} {pool : PoolMap H I} {sizeLimit cyclesLimit : Nat}

namespace ScanState

variable {state next : ScanState H I}

theorem round_eq_some (stepped : state.round env pool sizeLimit cyclesLimit = some next) :
    (∃ entry rest, state.iter = entry :: rest ∧ state.skipProposedEntry (entry.proposalShortId env) = true ∧
        next = { state with iter := rest }) ∨
      ((∀ entry rest, state.iter = entry :: rest → state.skipProposedEntry (entry.proposalShortId env) = false) ∧
        state.evaluate env pool sizeLimit cyclesLimit = some next) := by
  unfold round at stepped
  split at stepped
  · next entry rest listed =>
    by_cases skipped : state.skipProposedEntry (entry.proposalShortId env) = true
    · rw [if_pos skipped] at stepped
      cases stepped
      exact .inl ⟨entry, rest, listed, skipped, rfl⟩
    · rw [if_neg skipped] at stepped
      refine .inr ⟨fun entry' rest' listed' => ?_, stepped⟩
      rw [listed] at listed'
      cases listed'
      simpa using skipped
  · next exhausted =>
    exact .inr ⟨fun entry rest listed => by simp [exhausted] at listed, stepped⟩

theorem evaluate_eq_some (stepped : state.evaluate env pool sizeLimit cyclesLimit = some next) :
    ∃ txEntry usingModified iter, state.candidate env = some (txEntry, usingModified, iter) ∧
      (((cyclesLimit < saturatingAdd state.cycles txEntry.ancestorsCycles ∨
          sizeLimit < saturatingAdd state.size txEntry.ancestorsSize) ∧
        next = if usingModified then
          { state with
            iter, consecutiveFailed := state.consecutiveFailed + 1,
            modifiedEntries := state.modifiedEntries.erase (txEntry.proposalShortId env),
            failedTxs := insert (txEntry.proposalShortId env) state.failedTxs }
        else { state with iter, consecutiveFailed := state.consecutiveFailed + 1 }) ∨
      (saturatingAdd state.cycles txEntry.ancestorsCycles ≤ cyclesLimit ∧
        saturatingAdd state.size txEntry.ancestorsSize ≤ sizeLimit ∧ next = state.packageRound env pool iter txEntry)) := by
  unfold evaluate at stepped
  split at stepped
  · cases stepped
  · next txEntry usingModified iter chosen =>
    refine ⟨txEntry, usingModified, iter, chosen, ?_⟩
    dsimp only at stepped
    by_cases exceeded : saturatingAdd state.cycles txEntry.ancestorsCycles > cyclesLimit ∨
        saturatingAdd state.size txEntry.ancestorsSize > sizeLimit
    · rw [if_pos exceeded] at stepped
      -- a `break` after too many failures is no successor
      split at stepped
      · cases stepped
      · refine .inl ⟨exceeded, ?_⟩
        cases usingModified <;> simpa using stepped.symm
    · rw [if_neg exceeded] at stepped
      cases stepped
      exact .inr ⟨by omega, by omega, rfl⟩

end ScanState

variable (env pool sizeLimit cyclesLimit)

/-- What holds between rounds of `txs_to_commit`. -/
structure ScanInv (state : ScanState H I) : Prop where
  iter : state.iter.Sublist pool.sortedProposedIter
  nodup : (state.entries.map (·.proposalShortId env)).Nodup
  fetched : state.fetchedTxs = (state.entries.map (·.proposalShortId env)).toFinset
  entries : ∀ e ∈ state.entries, EntryOf pool (e.proposalShortId env) e
  closed : ∀ k ∈ state.fetchedTxs, ∀ a ∈ pool.calcAncestors k, pool.hasProposed a = true → a ∈ state.fetchedTxs
  ordered : state.entries.Pairwise fun e later => later.proposalShortId env ∉ pool.calcAncestors (e.proposalShortId env)
  size : state.size = (state.entries.map (·.size)).sum
  cycles : state.cycles = (state.entries.map (·.cycles)).sum
  size_le : state.size ≤ sizeLimit
  cycles_le : state.cycles ≤ cyclesLimit
  modified : ∀ k, ModifiedOk pool state.failedTxs state.fetchedTxs state.fetchedTxs k (state.modifiedEntries.lookup k)
  failed : ∀ k ∈ state.failedTxs, k ∉ state.fetchedTxs ∧
    (sizeLimit < state.size + pool.remaining .size state.fetchedTxs k ∨
      cyclesLimit < state.cycles + pool.remaining .cycles state.fetchedTxs k)

/-- The rounds still to run at most: a package fetches an id and may fill `modified_entries`
again, any other round drops an entry of the iterator or of `modified_entries`. -/
def scanMeasure (state : ScanState H I) : Nat :=
  (pool.entries.keys.card - state.fetchedTxs.card) * (pool.entries.keys.card + 1) + state.iter.length +
    state.modifiedEntries.keys.card

variable {env pool sizeLimit cyclesLimit}

theorem ScanInv.new : ScanInv env pool sizeLimit cyclesLimit (ScanState.new pool) where
  iter := List.Sublist.refl _
  nodup := List.nodup_nil
  fetched := rfl
  entries := fun _ absurd => by simp [ScanState.new] at absurd
  closed := fun _ absurd => by simp [ScanState.new] at absurd
  ordered := List.Pairwise.nil
  size := rfl
  cycles := rfl
  size_le := Nat.zero_le _
  cycles_le := Nat.zero_le _
  modified := fun _ _ _ _ _ _ absurd => by simp [ScanState.new] at absurd
  failed := fun _ absurd => by simp [ScanState.new] at absurd

namespace ScanInv

variable {state : ScanState H I} (inv : ScanInv env pool sizeLimit cyclesLimit state)
include inv

theorem card_fetched_le : state.fetchedTxs.card ≤ pool.entries.keys.card := by
  apply Finset.card_le_card
  intro k fetchedK
  rw [inv.fetched, List.mem_toFinset] at fetchedK
  obtain ⟨e, member, rfl⟩ := List.mem_map.mp fetchedK
  exact Finmap.mem_keys.mpr (PoolMap.mem_entries_of_hasProposed (inv.entries e member).hasProposed)

theorem card_modified_le : state.modifiedEntries.keys.card ≤ pool.entries.keys.card := by
  apply Finset.card_le_card
  intro k present
  obtain ⟨e, found⟩ := Finmap.mem_iff.mp (Finmap.mem_keys.mp present)
  have ok := inv.modified k
  rw [found] at ok
  exact Finmap.mem_keys.mpr (PoolMap.mem_entries_of_hasProposed ok.hasProposed)

theorem not_failed {id : I} (sizeFits : state.size + pool.remaining .size state.fetchedTxs id ≤ sizeLimit)
    (cyclesFits : state.cycles + pool.remaining .cycles state.fetchedTxs id ≤ cyclesLimit) : id ∉ state.failedTxs := by
  intro failedId
  obtain ⟨-, exceeded⟩ := inv.failed id failedId
  omega

theorem withIter {iter : List (TxEntry H)} (sub : iter.Sublist state.iter) (consecutiveFailed : Nat) :
    ScanInv env pool sizeLimit cyclesLimit { state with iter, consecutiveFailed } :=
  { inv with iter := sub.trans inv.iter }

theorem failModified {id : I} {entry : TxEntry H} (found : state.modifiedEntries.lookup id = some entry)
    (exceeded : cyclesLimit < saturatingAdd state.cycles entry.ancestorsCycles ∨
      sizeLimit < saturatingAdd state.size entry.ancestorsSize) (consecutiveFailed : Nat) :
    ScanInv env pool sizeLimit cyclesLimit { state with
      consecutiveFailed, modifiedEntries := state.modifiedEntries.erase id, failedTxs := insert id state.failedTxs } := by
  have ok := inv.modified id
  rw [found] at ok
  obtain ⟨-, unfetched, -, exact⟩ := ok
  have saturated : saturatingAdd state.cycles entry.ancestorsCycles ≤ state.cycles + entry.ancestorsCycles ∧
      saturatingAdd state.size entry.ancestorsSize ≤ state.size + entry.ancestorsSize := by
    unfold saturatingAdd
    omega
  refine { inv with modified := fun k => ?_, failed := fun k failedK => ?_ }
  · by_cases same : k = id
    · subst same
      rw [Finmap.lookup_erase]
      exact fun _ _ notFailed => absurd (Finset.mem_insert_self k _) notFailed
    · rw [Finmap.lookup_erase_ne same]
      exact (inv.modified k).mono_failed (Finset.subset_insert _ _)
  · dsimp only at failedK ⊢
    rcases Finset.mem_insert.mp failedK with rfl | earlier
    · refine ⟨unfetched, ?_⟩
      by_cases failedBefore : k ∈ state.failedTxs
      · exact (inv.failed k failedBefore).2
      · -- an entry that never failed has exact aggregates
        have size := exact failedBefore .size
        have cycles := exact failedBefore .cycles
        simp only [Weight.ancestors] at size cycles
        omega
    · exact inv.failed k earlier

/-- The entry a round evaluates is the pool's entry under its short id, not yet fetched, with
aggregates at least what packaging it adds, and exact unless it failed before. -/
theorem candidate (ready : ScanReady env pool) {entry : TxEntry H} {usingModified : Bool} {iter : List (TxEntry H)}
    (chosen : state.candidate env = some (entry, usingModified, iter))
    (notSkipped : ∀ e rest, state.iter = e :: rest → state.skipProposedEntry (e.proposalShortId env) = false) :
    EntryOf pool (entry.proposalShortId env) entry ∧ entry.proposalShortId env ∉ state.fetchedTxs ∧
      (∀ w, pool.remaining w state.fetchedTxs (entry.proposalShortId env) ≤ w.ancestors entry) ∧
      (entry.proposalShortId env ∉ state.failedTxs →
        ∀ w, w.ancestors entry = pool.remaining w state.fetchedTxs (entry.proposalShortId env)) ∧
      ((usingModified = false ∧ state.iter = entry :: iter) ∨
        (usingModified = true ∧ iter = state.iter ∧
          state.modifiedEntries.lookup (entry.proposalShortId env) = some entry)) := by
  rcases ScanState.candidate_eq_some chosen with ⟨rfl, listed⟩ | ⟨rfl, rfl, id, found⟩
  · -- the head of the iterator, which the skip check let through
    have fresh := notSkipped entry iter listed
    simp only [ScanState.skipProposedEntry, Bool.or_eq_false_iff, decide_eq_false_iff_not] at fresh
    obtain ⟨⟨unfetched, unmodified⟩, notFailed⟩ := fresh
    obtain ⟨id, got⟩ := PoolMap.mem_sortedProposedIter (inv.iter.subset (listed ▸ List.mem_cons_self))
    have key := ready.proposalShortId_of_getProposed got
    subst key
    have retrieved : (state.modifiedEntries.lookup (entry.proposalShortId env)).or
        (pool.getProposed (entry.proposalShortId env)) = some entry := by
      rw [Finmap.lookup_eq_none.mpr unmodified, Option.none_or, got]
    obtain ⟨entryOf, bounded, exact⟩ :=
      (inv.modified _).retrieve ready (PoolMap.hasProposed_of_getProposed got) unfetched retrieved
    exact ⟨entryOf, unfetched, bounded, exact, .inl ⟨rfl, listed⟩⟩
  · -- the best modified entry, kept under its own short id
    have ok := inv.modified id
    rw [found] at ok
    have key := ok.proposalShortId ready
    subst key
    obtain ⟨entryOf, unfetched, bounded, exact⟩ := ok
    exact ⟨entryOf, unfetched, bounded, exact, .inr ⟨rfl, rfl, found⟩⟩

omit inv in
theorem sum_own_eq {entries : List (TxEntry H)} (nodup : (entries.map (·.proposalShortId env)).Nodup)
    (entryOf : ∀ x ∈ entries, EntryOf pool (x.proposalShortId env) x) (w : Weight) :
    (entries.map w.own).sum = ∑ a ∈ (entries.map (·.proposalShortId env)).toFinset, pool.weightOf w a := by
  rw [List.sum_toFinset _ nodup, List.map_map]
  congr 1
  apply List.map_congr_left
  intro x member
  exact ((entryOf x member).weightOf w).symm

end ScanInv

variable (env pool) in
/-- What a state packages with `entry`, as a list of entries. -/
structure Packaged (state : ScanState H I) (entry : TxEntry H) (package : List (TxEntry H)) : Prop where
  nodup : (package.map (·.proposalShortId env)).Nodup
  entries : ∀ x ∈ package, EntryOf pool (x.proposalShortId env) x ∧ x.proposalShortId env ∉ state.fetchedTxs ∧
    x.proposalShortId env ∉ state.failedTxs
  within : ∀ x ∈ package, x.proposalShortId env = entry.proposalShortId env ∨
    x.proposalShortId env ∈ pool.calcAncestors (entry.proposalShortId env)
  complete : ∀ a ∈ pool.calcAncestors (entry.proposalShortId env), pool.hasProposed a = true →
    a ∈ state.fetchedTxs ∨ a ∈ package.map (·.proposalShortId env)
  ordered : package.Pairwise fun e later => later.proposalShortId env ∉ pool.calcAncestors (e.proposalShortId env)
  weights : ∀ w, (package.map w.own).sum ≤ pool.remaining w state.fetchedTxs (entry.proposalShortId env)

namespace ScanInv

variable {state : ScanState H I} (inv : ScanInv env pool sizeLimit cyclesLimit state) (ready : ScanReady env pool)
include inv ready

/-- An entry that fits is packaged after its proposed ancestors not yet fetched, each before its
descendants, and the package adds no more than what the entry's aggregates promise. -/
theorem packaged {entry : TxEntry H} (entryOf : EntryOf pool (entry.proposalShortId env) entry)
    (unfetched : entry.proposalShortId env ∉ state.fetchedTxs)
    (bounded : ∀ w, pool.remaining w state.fetchedTxs (entry.proposalShortId env) ≤ w.ancestors entry)
    (sizeFits : state.size + entry.ancestorsSize ≤ sizeLimit) (cyclesFits : state.cycles + entry.ancestorsCycles ≤ cyclesLimit) :
    state.package env pool entry = (state.ancestors env pool entry ++ [entry]).map (fun e => (e.proposalShortId env, e)) ∧
      Packaged env pool state entry (state.ancestors env pool entry ++ [entry]) := by
  have boundedSize : pool.remaining .size state.fetchedTxs (entry.proposalShortId env) ≤ entry.ancestorsSize := bounded .size
  have boundedCycles : pool.remaining .cycles state.fetchedTxs (entry.proposalShortId env) ≤ entry.ancestorsCycles :=
    bounded .cycles
  have notFailed : entry.proposalShortId env ∉ state.failedTxs := inv.not_failed (by omega) (by omega)
  -- each ancestor is retrieved exact: one that failed would not let its descendant fit
  have ancestorFacts : ∀ x ∈ state.ancestors env pool entry,
      x.proposalShortId env ∈ pool.calcAncestors (entry.proposalShortId env) ∧ EntryOf pool (x.proposalShortId env) x ∧
        x.proposalShortId env ∉ state.fetchedTxs ∧ x.proposalShortId env ∉ state.failedTxs ∧
        ∀ w, w.ancestors x = pool.remaining w state.fetchedTxs (x.proposalShortId env) := by
    intro x member
    obtain ⟨a, ancestor, proposed, unfetchedA, retrieved⟩ := ScanState.mem_ancestors member
    obtain ⟨xOf, -, exact⟩ := (inv.modified a).retrieve ready proposed unfetchedA retrieved
    have key := xOf.proposalShortId ready
    rw [key]
    have sizeA := pool.remaining_ancestor_add .size (ready.acyclic a) ancestor unfetchedA
    have cyclesA := pool.remaining_ancestor_add .cycles (ready.acyclic a) ancestor unfetchedA
    have notFailedA : a ∉ state.failedTxs := inv.not_failed (by omega) (by omega)
    exact ⟨ancestor, xOf, unfetchedA, notFailedA, exact notFailedA⟩
  have perm := ScanState.ancestors_perm ready inv.modified entry
  have nodupAncestors : ((state.ancestors env pool entry).map (·.proposalShortId env)).Nodup :=
    perm.nodup_iff.mpr (((nodup_sortedElems _).filter _).filter _)
  have nodup : ((state.ancestors env pool entry ++ [entry]).map (·.proposalShortId env)).Nodup := by
    rw [List.map_append, List.nodup_append]
    refine ⟨nodupAncestors, List.nodup_singleton _, fun a aMember b bMember same => ?_⟩
    obtain ⟨x, xMember, rfl⟩ := List.mem_map.mp aMember
    rw [List.map_singleton, List.mem_singleton] at bMember
    subst bMember
    exact ready.acyclic _ (same ▸ (ancestorFacts x xMember).1)
  refine ⟨by rw [ScanState.package, linkedHashMapOf_of_nodup nodup], ⟨nodup, ?_, ?_, ?_, ?_, ?_⟩⟩
  · intro x member
    rcases List.mem_append.mp member with earlier | single
    · obtain ⟨-, xOf, unfetchedX, notFailedX, -⟩ := ancestorFacts x earlier
      exact ⟨xOf, unfetchedX, notFailedX⟩
    · rw [List.mem_singleton.mp single]
      exact ⟨entryOf, unfetched, notFailed⟩
  · intro x member
    rcases List.mem_append.mp member with earlier | single
    · exact .inr (ancestorFacts x earlier).1
    · exact .inl (by rw [List.mem_singleton.mp single])
  · intro a ancestor proposed
    by_cases fetchedA : a ∈ state.fetchedTxs
    · exact .inl fetchedA
    · have listed : a ∈ ((sortedElems (pool.calcAncestors (entry.proposalShortId env))).filter (pool.hasProposed ·)).filter
          (· ∉ state.fetchedTxs) := by
        simp [ancestor, proposed, fetchedA]
      have inAncestors : a ∈ (state.ancestors env pool entry).map (·.proposalShortId env) := perm.mem_iff.mpr listed
      rw [List.map_append]
      exact .inr (List.mem_append_left _ inAncestors)
  · rw [List.pairwise_append]
    refine ⟨?_, List.pairwise_singleton _ _, fun x member y single => ?_⟩
    · -- by exact counts, an ancestor has fewer ancestors left than its descendant
      refine (ScanState.pairwise_ancestors entry).imp_of_mem fun {x y} xMember yMember counted older => ?_
      obtain ⟨-, xOf, -, -, xExact⟩ := ancestorFacts x xMember
      obtain ⟨-, -, unfetchedY, -, yExact⟩ := ancestorFacts y yMember
      have fewer := pool.remaining_ancestor_add .count (ready.acyclic _) older unfetchedY
      have counts := xExact .count
      have countY := yExact .count
      rw [xOf.weightOf .count] at fewer
      simp only [Weight.own] at fewer
      simp only [Weight.ancestors] at counts countY
      omega
    · rw [List.mem_singleton.mp single]
      intro descendant
      exact ready.acyclic _ (pool.links.calcAncestors_trans (ancestorFacts x member).1 descendant)
  · intro w
    have sum := sum_own_eq nodup (fun x member => by
      rcases List.mem_append.mp member with earlier | single
      · exact (ancestorFacts x earlier).2.1
      · rw [List.mem_singleton.mp single]
        exact entryOf) w
    have within : ((state.ancestors env pool entry ++ [entry]).map (·.proposalShortId env)).toFinset ⊆
        insert (entry.proposalShortId env) (pool.calcAncestors (entry.proposalShortId env) \ state.fetchedTxs) := by
      intro a member
      obtain ⟨x, xMember, rfl⟩ := List.mem_map.mp (List.mem_toFinset.mp member)
      rcases List.mem_append.mp xMember with earlier | single
      · obtain ⟨ancestor, -, unfetchedX, -⟩ := ancestorFacts x earlier
        exact Finset.mem_insert_of_mem (Finset.mem_sdiff.mpr ⟨ancestor, unfetchedX⟩)
      · rw [List.mem_singleton.mp single]
        exact Finset.mem_insert_self _ _
    have outside : entry.proposalShortId env ∉ pool.calcAncestors (entry.proposalShortId env) \ state.fetchedTxs :=
      fun member => ready.acyclic _ (Finset.mem_sdiff.mp member).1
    have bounded := Finset.sum_le_sum_of_subset (f := pool.weightOf w) within
    rw [Finset.sum_insert outside] at bounded
    rw [sum, PoolMap.remaining]
    omega

theorem packageRound (sizeBound : sizeLimit ≤ u64Max) (cyclesBound : cyclesLimit ≤ u64Max) {entry : TxEntry H}
    {iter : List (TxEntry H)} (sub : iter.Sublist state.iter) (entryOf : EntryOf pool (entry.proposalShortId env) entry)
    (unfetched : entry.proposalShortId env ∉ state.fetchedTxs)
    (bounded : ∀ w, pool.remaining w state.fetchedTxs (entry.proposalShortId env) ≤ w.ancestors entry)
    (sizeFits : state.size + entry.ancestorsSize ≤ sizeLimit) (cyclesFits : state.cycles + entry.ancestorsCycles ≤ cyclesLimit) :
    ScanInv env pool sizeLimit cyclesLimit (state.packageRound env pool iter entry) ∧
      state.fetchedTxs.card < (state.packageRound env pool iter entry).fetchedTxs.card ∧
      (state.packageRound env pool iter entry).iter = iter := by
  obtain ⟨packageEq, spec⟩ := inv.packaged ready entryOf unfetched bounded sizeFits cyclesFits
  obtain ⟨package, packageDef⟩ : ∃ p, p = state.ancestors env pool entry ++ [entry] := ⟨_, rfl⟩
  rw [← packageDef] at packageEq spec
  obtain ⟨ids, idsDef⟩ : ∃ l, l = package.map (·.proposalShortId env) := ⟨_, rfl⟩
  have sizeSum : (package.map (·.size)).sum ≤ pool.remaining .size state.fetchedTxs (entry.proposalShortId env) :=
    spec.weights .size
  have cyclesSum : (package.map (·.cycles)).sum ≤ pool.remaining .cycles state.fetchedTxs (entry.proposalShortId env) :=
    spec.weights .cycles
  have boundedSize := bounded .size
  have boundedCycles := bounded .cycles
  simp only [Weight.ancestors] at boundedSize boundedCycles
  have fetchedEq : (package.map fun e => (e.proposalShortId env, e)).foldl ScanState.fetch { state with iter } = _ :=
    ScanState.foldl_fetch package { state with iter } (by dsimp only; omega) (by dsimp only; omega)
  rw [← idsDef] at fetchedEq
  have pairs : (package.map fun e => (e.proposalShortId env, e)).map (·.1) = ids := by
    rw [idsDef, List.map_map]
    rfl
  simp only [ScanState.packageRound]
  rw [packageEq, fetchedEq]
  dsimp only
  have packagedEntry : ∀ x ∈ package, x.proposalShortId env ∈ ids := fun x member => idsDef ▸ List.mem_map_of_mem member
  have fresh : ∀ x ∈ package, x.proposalShortId env ∉ state.fetchedTxs := fun x member => (spec.entries x member).2.1
  -- the ids the package leaves `modified_entries` without, before the update
  have cleared : ∀ k, (ids.foldl (fun m k => m.erase k) state.modifiedEntries).lookup k =
      if k ∈ ids.toFinset then none else state.modifiedEntries.lookup k := by
    intro k
    rw [FiniteMap.lookup_foldl_erase]
    simp only [List.mem_toFinset]
  have packagedPairs : ∀ p ∈ package.map (fun e => (e.proposalShortId env, e)), EntryOf pool p.1 p.2 := by
    intro p member
    obtain ⟨x, xMember, rfl⟩ := List.mem_map.mp member
    exact (spec.entries x xMember).1
  have freshPairs : ∀ p ∈ package.map (fun e => (e.proposalShortId env, e)), p.1 ∉ state.fetchedTxs := by
    intro p member
    obtain ⟨x, xMember, rfl⟩ := List.mem_map.mp member
    exact fresh x xMember
  have clearedPairs : ∀ p ∈ package.map (fun e => (e.proposalShortId env, e)),
      (ids.foldl (fun m k => m.erase k) state.modifiedEntries).lookup p.1 = none := by
    intro p member
    obtain ⟨x, xMember, rfl⟩ := List.mem_map.mp member
    rw [cleared, if_pos (List.mem_toFinset.mpr (packagedEntry x xMember))]
  have updated := ModifiedOk.updateModifiedEntries env ready packagedPairs (by rw [pairs, idsDef]; exact spec.nodup)
    freshPairs inv.closed clearedPairs (fun k => by
      rw [pairs, cleared]
      exact (inv.modified k).fetch)
  rw [pairs] at updated
  have grown : state.fetchedTxs ⊂ state.fetchedTxs ∪ ids.toFinset := by
    refine Finset.ssubset_iff_subset_ne.mpr ⟨Finset.subset_union_left, fun same => unfetched ?_⟩
    rw [same]
    have listed : entry ∈ package := by
      rw [packageDef]
      exact List.mem_append_right _ (List.mem_singleton_self entry)
    exact Finset.mem_union_right _ (List.mem_toFinset.mpr (packagedEntry entry listed))
  refine ⟨⟨sub.trans inv.iter, ?_, ?_, ?_, ?_, ?_, ?_, ?_, by dsimp only; omega, by dsimp only; omega, updated, ?_⟩, Finset.card_lt_card grown, rfl⟩
  · rw [List.map_append, List.nodup_append]
    refine ⟨inv.nodup, spec.nodup, fun a aMember b bMember same => ?_⟩
    obtain ⟨x, xMember, rfl⟩ := List.mem_map.mp bMember
    have fetchedA : a ∈ state.fetchedTxs := by
      rw [inv.fetched]
      exact List.mem_toFinset.mpr aMember
    exact fresh x xMember (same ▸ fetchedA)
  · dsimp only
    rw [inv.fetched, idsDef, List.map_append, List.toFinset_append]
  · intro x member
    rcases List.mem_append.mp member with earlier | later
    · exact inv.entries x earlier
    · exact (spec.entries x later).1
  · -- an ancestor of a packaged id is fetched before, or is in the package
    intro k member a ancestor proposed
    rcases Finset.mem_union.mp member with earlier | packagedK
    · exact Finset.mem_union_left _ (inv.closed k earlier a ancestor proposed)
    · obtain ⟨x, xMember, rfl⟩ := List.mem_map.mp (List.mem_toFinset.mp (idsDef ▸ packagedK))
      have below : a ∈ pool.calcAncestors (entry.proposalShortId env) := by
        rcases spec.within x xMember with same | older
        · exact same ▸ ancestor
        · exact pool.links.calcAncestors_trans older ancestor
      rcases spec.complete a below proposed with fetchedA | inPackage
      · exact Finset.mem_union_left _ fetchedA
      · exact Finset.mem_union_right _ (List.mem_toFinset.mpr (idsDef ▸ inPackage))
  · rw [List.pairwise_append]
    refine ⟨inv.ordered, spec.ordered, fun x xMember y yMember older => ?_⟩
    have fetchedX : x.proposalShortId env ∈ state.fetchedTxs := by
      rw [inv.fetched]
      exact List.mem_toFinset.mpr (List.mem_map_of_mem xMember)
    exact fresh y yMember (inv.closed _ fetchedX _ older (spec.entries y yMember).1.hasProposed)
  · dsimp only
    rw [inv.size, List.map_append, List.sum_append]
  · dsimp only
    rw [inv.cycles, List.map_append, List.sum_append]
  · -- a failed id is not packaged, and what it would add dropped by no more than the package added
    intro k failedK
    obtain ⟨unfetchedK, exceeded⟩ := inv.failed k failedK
    have outside : k ∉ ids.toFinset := fun packagedK => by
      obtain ⟨x, xMember, rfl⟩ := List.mem_map.mp (List.mem_toFinset.mp (idsDef ▸ packagedK))
      exact (spec.entries x xMember).2.2 failedK
    have entryOfAll : ∀ x ∈ package, EntryOf pool (x.proposalShortId env) x := fun x member => (spec.entries x member).1
    have sizeDrop := pool.remaining_le_add_sum .size state.fetchedTxs ids.toFinset k
    have cyclesDrop := pool.remaining_le_add_sum .cycles state.fetchedTxs ids.toFinset k
    rw [idsDef, ← sum_own_eq spec.nodup entryOfAll, Weight.own_size] at sizeDrop
    rw [idsDef, ← sum_own_eq spec.nodup entryOfAll, Weight.own_cycles] at cyclesDrop
    rw [← idsDef] at sizeDrop cyclesDrop
    refine ⟨Finset.notMem_union.mpr ⟨unfetchedK, outside⟩, ?_⟩
    dsimp only
    omega

theorem round (sizeBelow : sizeLimit < u64Max) (cyclesBelow : cyclesLimit < u64Max) {next : ScanState H I}
    (stepped : state.round env pool sizeLimit cyclesLimit = some next) :
    ScanInv env pool sizeLimit cyclesLimit next ∧ scanMeasure pool next < scanMeasure pool state := by
  rcases ScanState.round_eq_some stepped with ⟨e, rest, listed, -, rfl⟩ | ⟨notSkipped, evaluated⟩
  · -- a skipped entry leaves the iterator
    refine ⟨inv.withIter (listed ▸ List.sublist_cons_self e rest) state.consecutiveFailed, ?_⟩
    simp only [scanMeasure, listed, List.length_cons]
    omega
  obtain ⟨entry, usingModified, iter, chosen, ⟨exceeded, rfl⟩ | ⟨cyclesOk, sizeOk, rfl⟩⟩ :=
    ScanState.evaluate_eq_some evaluated
  all_goals obtain ⟨entryOf, unfetched, bounded, -, source⟩ := inv.candidate ready chosen notSkipped
  · cases usingModified with
    | false =>
      -- a failed head of the iterator is passed over
      obtain ⟨-, listed⟩ := source.resolve_right (by simp)
      rw [if_neg Bool.false_ne_true]
      refine ⟨inv.withIter (listed ▸ List.sublist_cons_self entry iter) _, ?_⟩
      simp only [scanMeasure, listed, List.length_cons]
      omega
    | true =>
      -- a failed modified entry leaves `modified_entries`
      obtain ⟨-, rfl, found⟩ := source.resolve_left (by simp)
      rw [if_pos rfl]
      refine ⟨inv.failModified found exceeded _, ?_⟩
      have present : entry.proposalShortId env ∈ state.modifiedEntries.keys :=
        Finmap.mem_keys.mpr (Finmap.mem_of_lookup_eq_some found)
      have shrunk := Finset.card_erase_of_mem present
      have nonempty := Finset.card_pos.mpr ⟨_, present⟩
      simp only [scanMeasure, Finmap.keys_erase]
      omega
  · have sizeFits : state.size + entry.ancestorsSize ≤ sizeLimit := by
      unfold saturatingAdd at sizeOk
      omega
    have cyclesFits : state.cycles + entry.ancestorsCycles ≤ cyclesLimit := by
      unfold saturatingAdd at cyclesOk
      omega
    have sub : iter.Sublist state.iter := by
      rcases source with ⟨-, listed⟩ | ⟨-, rfl, -⟩
      · exact listed ▸ List.sublist_cons_self entry iter
      · exact List.Sublist.refl _
    obtain ⟨after, grew, iterEq⟩ := inv.packageRound ready sizeBelow.le cyclesBelow.le sub entryOf unfetched bounded
      sizeFits cyclesFits
    refine ⟨after, ?_⟩
    -- a package fetches an id, which outweighs what `modified_entries` may gain
    have fetchedLe := after.card_fetched_le
    have modifiedLe := after.card_modified_le
    have shorter := sub.length_le
    simp only [scanMeasure, iterEq]
    set n := pool.entries.keys.card
    have key : (n - (state.packageRound env pool iter entry).fetchedTxs.card) * (n + 1) + (n + 1) ≤
        (n - state.fetchedTxs.card) * (n + 1) := by
      rw [← Nat.succ_mul]
      exact Nat.mul_le_mul_right _ (by omega)
    omega

end ScanInv

end Ckb.TxPool
