import Ckb.TxPool.ScanReady

/-!
What `modified_entries` holds at each id while the scanner runs. An entry there is the pool's
proposed entry, not yet fetched, and its aggregates over its ancestors are at least what packaging
it still adds, exactly that unless it has failed: a failed entry leaves the map, and a later
ancestor takes it from the pool again with only that ancestor's weight off. An id outside the map
that is proposed, not fetched and not failed has no fetched ancestor. `update_modified_entries`
keeps this when a package's ids join the fetched ones.
-/

namespace Ckb.TxPool

variable {H I : Type} [LinearOrder I] {env : PoolEnv H I} {pool : PoolMap H I}

variable (pool) in
/-- What `modified_entries` may hold at `id`, its aggregates lacking the weights of `subtracted`. -/
def ModifiedOk (failed fetched subtracted : Finset I) (id : I) : Option (TxEntry H) → Prop
  | some entry => EntryOf pool id entry ∧ id ∉ fetched ∧ (∀ w, pool.remaining w subtracted id ≤ w.ancestors entry) ∧
      (id ∉ failed → ∀ w, w.ancestors entry = pool.remaining w subtracted id)
  | none => pool.hasProposed id = true → id ∉ fetched → id ∉ failed → ∀ a ∈ pool.calcAncestors id, a ∉ subtracted

namespace ModifiedOk

variable {failed fetched subtracted : Finset I} {id : I}

theorem none_of_mem (fetchedId : id ∈ fetched) : ModifiedOk pool failed fetched subtracted id none :=
  fun _ unfetched => absurd fetchedId unfetched

theorem none_of_not_hasProposed (notProposed : pool.hasProposed id = false) :
    ModifiedOk pool failed fetched subtracted id none :=
  fun proposed => absurd proposed (by simp [notProposed])

theorem hasProposed {entry : TxEntry H} (ok : ModifiedOk pool failed fetched subtracted id (some entry)) :
    pool.hasProposed id = true :=
  ok.1.hasProposed

theorem proposalShortId (ready : ScanReady env pool) {entry : TxEntry H}
    (ok : ModifiedOk pool failed fetched subtracted id (some entry)) : entry.proposalShortId env = id :=
  ok.1.proposalShortId ready

theorem mono_failed {failed' : Finset I} (sub : failed ⊆ failed') {found : Option (TxEntry H)}
    (ok : ModifiedOk pool failed fetched subtracted id found) : ModifiedOk pool failed' fetched subtracted id found := by
  cases found with
  | some entry =>
    obtain ⟨entryOf, unfetched, bounded, exact⟩ := ok
    exact ⟨entryOf, unfetched, bounded, fun notFailed => exact fun failedId => notFailed (sub failedId)⟩
  | none => exact fun proposed unfetched notFailed => ok proposed unfetched fun failedId => notFailed (sub failedId)

theorem fetch {added : Finset I} {found : Option (TxEntry H)} (ok : ModifiedOk pool failed fetched subtracted id found) :
    ModifiedOk pool failed (fetched ∪ added) subtracted id (if id ∈ added then none else found) := by
  by_cases packaged : id ∈ added
  · rw [if_pos packaged]
    exact none_of_mem (Finset.mem_union_right _ packaged)
  · rw [if_neg packaged]
    cases found with
    | some entry =>
      obtain ⟨entryOf, unfetched, bounded, exact⟩ := ok
      exact ⟨entryOf, by simp [unfetched, packaged], bounded, exact⟩
    | none => exact fun proposed unfetched => ok proposed fun fetchedId => unfetched (Finset.mem_union_left _ fetchedId)

theorem insert_of_notMem {a : I} (other : a ∉ pool.calcAncestors id) {found : Option (TxEntry H)}
    (ok : ModifiedOk pool failed fetched subtracted id found) :
    ModifiedOk pool failed fetched (insert a subtracted) id found := by
  cases found with
  | some entry =>
    obtain ⟨entryOf, unfetched, bounded, exact⟩ := ok
    refine ⟨entryOf, unfetched, fun w => ?_, fun notFailed w => ?_⟩
    · rw [PoolMap.remaining_insert_of_notMem w other]
      exact bounded w
    · rw [PoolMap.remaining_insert_of_notMem w other]
      exact exact notFailed w
  | none =>
    intro proposed unfetched notFailed b ancestor subtractedB
    rcases Finset.mem_insert.mp subtractedB with rfl | earlier
    · exact other ancestor
    · exact ok proposed unfetched notFailed b ancestor earlier

/-- What `retrieve_entry` returns for a proposed id that is not fetched: the entry of the map, or
else the pool's, whose aggregates are exact when no ancestor is fetched. -/
theorem retrieve (ready : ScanReady env pool) {found : Option (TxEntry H)} {entry : TxEntry H}
    (ok : ModifiedOk pool failed fetched subtracted id found) (proposed : pool.hasProposed id = true)
    (unfetched : id ∉ fetched) (retrieved : found.or (pool.getProposed id) = some entry) :
    EntryOf pool id entry ∧ (∀ w, pool.remaining w subtracted id ≤ w.ancestors entry) ∧
      (id ∉ failed → ∀ w, w.ancestors entry = pool.remaining w subtracted id) := by
  cases found with
  | some modified =>
    rw [Option.some_or, Option.some_inj] at retrieved
    subst retrieved
    exact ⟨ok.1, ok.2.2.1, ok.2.2.2⟩
  | none =>
    rw [Option.none_or] at retrieved
    obtain ⟨pe, present, -, rfl⟩ := PoolMap.getProposed_eq_some.mp retrieved
    have base := ready.ancestors_eq present
    refine ⟨EntryOf.of_getProposed retrieved, fun w => ?_, fun notFailed w => ?_⟩
    · rw [base w]
      exact PoolMap.remaining_antitone w (Finset.empty_subset _) id
    · rw [base w, PoolMap.remaining_of_disjoint w (ok proposed unfetched notFailed)]

/-- `update_modified_entries` at one descendant `id` of the packaged entry `a`: the entry of the
map, or else the pool's, with `a`'s weight taken off. -/
theorem subAncestorWeight (ready : ScanReady env pool) {a : I} {entry : TxEntry H} {found : Option (TxEntry H)}
    (entryOf : EntryOf pool a entry) (ancestor : a ∈ pool.calcAncestors id) (fresh : a ∉ subtracted)
    (proposed : pool.hasProposed id = true) (unfetched : id ∉ fetched)
    (ok : ModifiedOk pool failed fetched subtracted id found) :
    ModifiedOk pool failed fetched (insert a subtracted) id ((found.or (pool.get id)).map (·.subAncestorWeight entry)) := by
  have takeOff : ∀ w, pool.remaining w (insert a subtracted) id + w.own entry = pool.remaining w subtracted id := by
    intro w
    rw [← entryOf.weightOf w]
    exact PoolMap.remaining_insert_add w ancestor fresh
  cases found with
  | some modified =>
    obtain ⟨modifiedOf, -, bounded, exact⟩ := ok
    rw [Option.some_or, Option.map_some]
    refine ⟨modifiedOf.subAncestorWeight entry, unfetched, fun w => ?_, fun notFailed w => ?_⟩
    · have before := bounded w
      have after := takeOff w
      rw [Weight.ancestors_subAncestorWeight]
      omega
    · have before := exact notFailed w
      have after := takeOff w
      rw [Weight.ancestors_subAncestorWeight]
      omega
  | none =>
    -- the descendant is taken from the pool, whose aggregates leave out nothing
    obtain ⟨pe, present, isProposed⟩ := PoolMap.hasProposed_iff.mp proposed
    have fromPool : pool.get id = some pe.inner := by simp [PoolMap.get, present]
    have peOf : EntryOf pool id pe.inner :=
      EntryOf.of_getProposed (PoolMap.getProposed_eq_some.mpr ⟨pe, present, isProposed, rfl⟩)
    have base := ready.ancestors_eq present
    rw [Option.none_or, fromPool, Option.map_some]
    refine ⟨peOf.subAncestorWeight entry, unfetched, fun w => ?_, fun notFailed w => ?_⟩
    · have before := PoolMap.remaining_antitone (s := pool) w (Finset.empty_subset subtracted) id
      have after := takeOff w
      rw [Weight.ancestors_subAncestorWeight, base w]
      omega
    · have untouched := PoolMap.remaining_of_disjoint w (ok proposed unfetched notFailed)
      have after := takeOff w
      rw [Weight.ancestors_subAncestorWeight, base w]
      omega

end ModifiedOk

section Update

theorem mem_modifiedDescendants {alreadyAdded : List (I × TxEntry H)} {added k : I} :
    k ∈ modifiedDescendants pool alreadyAdded added ↔
      k ∈ pool.calcDescendants added ∧ k ∉ alreadyAdded.map (·.1) ∧ pool.hasProposed k = true := by
  simp [modifiedDescendants]

variable (env) (ready : ScanReady env pool)
include ready

theorem lookup_updateModifiedDescendant {modifiedEntries : FiniteMap I (TxEntry H)} {descId : I}
    (keyed : ∀ e, modifiedEntries.lookup descId = some e → e.proposalShortId env = descId) (entry : TxEntry H) (k : I) :
    (updateModifiedDescendant env pool entry modifiedEntries descId).lookup k =
      if k = descId then ((modifiedEntries.lookup descId).or (pool.get descId)).map (·.subAncestorWeight entry)
      else modifiedEntries.lookup k := by
  unfold updateModifiedDescendant
  split
  · next desc retrieved =>
    have key : (desc.subAncestorWeight entry).proposalShortId env = descId := by
      rcases Option.or_eq_some_iff.mp retrieved with modified | ⟨-, fromPool⟩
      · exact keyed desc modified
      · obtain ⟨pe, present, rfl⟩ := Option.map_eq_some_iff.mp fromPool
        exact ready.keyed descId pe present
    rw [insertModified, key, retrieved, Option.map_some]
    by_cases same : k = descId
    · subst same
      simp
    · rw [if_neg same, Finmap.lookup_insert_of_ne _ same, Finmap.lookup_erase_ne same]
  · next absent =>
    by_cases same : k = descId
    · subst same
      rw [if_pos rfl, absent, Option.map_none, (Option.or_eq_none_iff.mp absent).1]
    · rw [if_neg same]

theorem lookup_foldl_updateModifiedDescendant (entry : TxEntry H) {descIds : List I} (nodup : descIds.Nodup)
    {modifiedEntries : FiniteMap I (TxEntry H)}
    (keyed : ∀ d ∈ descIds, ∀ e, modifiedEntries.lookup d = some e → e.proposalShortId env = d) (k : I) :
    (descIds.foldl (updateModifiedDescendant env pool entry) modifiedEntries).lookup k =
      if k ∈ descIds then ((modifiedEntries.lookup k).or (pool.get k)).map (·.subAncestorWeight entry)
      else modifiedEntries.lookup k := by
  induction descIds generalizing modifiedEntries with
  | nil => simp
  | cons d rest ih =>
    obtain ⟨notLater, restNodup⟩ := List.nodup_cons.mp nodup
    have step := lookup_updateModifiedDescendant env ready (keyed d List.mem_cons_self) entry
    -- the ids still to come are not `d`, so one step leaves them as they were
    have later : ∀ d' ∈ rest, (updateModifiedDescendant env pool entry modifiedEntries d).lookup d' =
        modifiedEntries.lookup d' := by
      intro d' member
      rw [step, if_neg (fun same : d' = d => notLater (same ▸ member))]
    rw [List.foldl_cons, ih restNodup fun d' member e found =>
      keyed d' (List.mem_cons_of_mem d member) e ((later d' member).symm.trans found)]
    by_cases inRest : k ∈ rest
    · rw [if_pos inRest, if_pos (List.mem_cons_of_mem d inRest), later k inRest]
    · rw [if_neg inRest, step]
      by_cases same : k = d
      · subst same
        simp
      · simp [same, inRest]

variable {failed fetched : Finset I} {alreadyAdded : List (I × TxEntry H)}

/-- `update_modified_entries` over a part `done` of the package `alreadyAdded`: each of its entries
has its weight taken off its proposed descendants outside the package. -/
theorem ModifiedOk.foldl_updateModifiedAdded
    (packaged : ∀ p ∈ alreadyAdded, EntryOf pool p.1 p.2) (fresh : ∀ p ∈ alreadyAdded, p.1 ∉ fetched)
    (closed : ∀ k ∈ fetched, ∀ a ∈ pool.calcAncestors k, pool.hasProposed a = true → a ∈ fetched) :
    ∀ (done : List (I × TxEntry H)) (subtracted : Finset I) (modifiedEntries : FiniteMap I (TxEntry H)),
      (∀ p ∈ done, p ∈ alreadyAdded) → (done.map (·.1)).Nodup → (∀ p ∈ done, p.1 ∉ subtracted) →
      (∀ p ∈ alreadyAdded, modifiedEntries.lookup p.1 = none) →
      (∀ k, ModifiedOk pool failed (fetched ∪ (alreadyAdded.map (·.1)).toFinset) subtracted k (modifiedEntries.lookup k)) →
      ∀ k, ModifiedOk pool failed (fetched ∪ (alreadyAdded.map (·.1)).toFinset) (subtracted ∪ (done.map (·.1)).toFinset) k
        ((done.foldl (updateModifiedAdded env pool alreadyAdded) modifiedEntries).lookup k) := by
  intro done
  induction done with
  | nil => simp
  | cons added rest ih =>
    intro subtracted modifiedEntries within nodup freshDone cleared ok
    obtain ⟨a, entry⟩ := added
    obtain ⟨notLater, restNodup⟩ := List.nodup_cons.mp nodup
    have member := within (a, entry) List.mem_cons_self
    have unfetchedA : a ∉ fetched := fresh _ member
    have keyed : ∀ d ∈ modifiedDescendants pool alreadyAdded a, ∀ e,
        modifiedEntries.lookup d = some e → e.proposalShortId env = d := by
      intro d _ e found
      exact (found ▸ ok d).proposalShortId ready
    have step := lookup_foldl_updateModifiedDescendant env ready entry
      (show (modifiedDescendants pool alreadyAdded a).Nodup from (nodup_sortedElems _).filter _) keyed
    have stepOk : ∀ k, ModifiedOk pool failed (fetched ∪ (alreadyAdded.map (·.1)).toFinset) (insert a subtracted) k
        ((updateModifiedAdded env pool alreadyAdded modifiedEntries (a, entry)).lookup k) := by
      intro k
      rw [updateModifiedAdded]
      dsimp only
      rw [step k]
      by_cases descendant : k ∈ modifiedDescendants pool alreadyAdded a
      · rw [if_pos descendant]
        obtain ⟨below, outside, proposed⟩ := mem_modifiedDescendants.mp descendant
        have ancestor : a ∈ pool.calcAncestors k := (pool.links.mem_calcDescendants ready.links.symmetric a k).mp below
        -- a fetched descendant would have its proposed ancestor `a` fetched already
        have unfetched : k ∉ fetched := fun fetchedK => unfetchedA (closed k fetchedK a ancestor (packaged _ member).hasProposed)
        exact (ok k).subAncestorWeight ready (packaged _ member) ancestor (freshDone _ List.mem_cons_self) proposed
          (by simp [unfetched, outside])
      · rw [if_neg descendant]
        by_cases ancestor : a ∈ pool.calcAncestors k
        · -- a descendant left out is in the package or not proposed, and has no entry in the map
          have below := (pool.links.mem_calcDescendants ready.links.symmetric a k).mpr ancestor
          by_cases inPackage : k ∈ alreadyAdded.map (·.1)
          · obtain ⟨p, pMember, rfl⟩ := List.mem_map.mp inPackage
            rw [cleared p pMember]
            exact ModifiedOk.none_of_mem (Finset.mem_union_right _ (List.mem_toFinset.mpr inPackage))
          · have notProposed : pool.hasProposed k = false := by
              by_contra proposed
              exact descendant (mem_modifiedDescendants.mpr ⟨below, inPackage, by simpa using proposed⟩)
            cases found : modifiedEntries.lookup k with
            | none => exact ModifiedOk.none_of_not_hasProposed notProposed
            | some e =>
              have proposed := (found ▸ ok k).hasProposed
              simp [notProposed] at proposed
        · exact (ok k).insert_of_notMem ancestor
    have clearedAfter : ∀ p ∈ alreadyAdded,
        (updateModifiedAdded env pool alreadyAdded modifiedEntries (a, entry)).lookup p.1 = none := by
      intro p pMember
      have outside : p.1 ∉ modifiedDescendants pool alreadyAdded a := fun descendant =>
        (mem_modifiedDescendants.mp descendant).2.1 (List.mem_map_of_mem pMember)
      rw [updateModifiedAdded]
      dsimp only
      rw [step, if_neg outside, cleared p pMember]
    have freshRest : ∀ p ∈ rest, p.1 ∉ insert a subtracted := by
      intro p pMember inserted
      rcases Finset.mem_insert.mp inserted with same | earlier
      · have listed : p.1 ∈ rest.map (·.1) := List.mem_map_of_mem pMember
        exact notLater (same ▸ listed)
      · exact freshDone p (List.mem_cons_of_mem _ pMember) earlier
    have done := ih (insert a subtracted) _ (fun p pMember => within p (List.mem_cons_of_mem _ pMember)) restNodup
      freshRest clearedAfter stepOk
    intro k
    have same : insert a subtracted ∪ (rest.map (·.1)).toFinset = subtracted ∪ (((a, entry) :: rest).map (·.1)).toFinset := by
      ext x
      simp only [Finset.mem_union, Finset.mem_insert, List.mem_toFinset, List.map_cons, List.mem_cons]
      tauto
    rw [List.foldl_cons, ← same]
    exact done k

theorem ModifiedOk.updateModifiedEntries
    (packaged : ∀ p ∈ alreadyAdded, EntryOf pool p.1 p.2) (nodup : (alreadyAdded.map (·.1)).Nodup)
    (fresh : ∀ p ∈ alreadyAdded, p.1 ∉ fetched)
    (closed : ∀ k ∈ fetched, ∀ a ∈ pool.calcAncestors k, pool.hasProposed a = true → a ∈ fetched)
    {modifiedEntries : FiniteMap I (TxEntry H)} (cleared : ∀ p ∈ alreadyAdded, modifiedEntries.lookup p.1 = none)
    (ok : ∀ k, ModifiedOk pool failed (fetched ∪ (alreadyAdded.map (·.1)).toFinset) fetched k (modifiedEntries.lookup k))
    (k : I) :
    ModifiedOk pool failed (fetched ∪ (alreadyAdded.map (·.1)).toFinset) (fetched ∪ (alreadyAdded.map (·.1)).toFinset) k
      ((updateModifiedEntries env pool alreadyAdded modifiedEntries).lookup k) :=
  ModifiedOk.foldl_updateModifiedAdded env ready packaged fresh closed alreadyAdded fetched modifiedEntries
    (fun _ member => member) nodup fresh cleared ok k

end Update

end Ckb.TxPool
