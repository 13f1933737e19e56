import Ckb.TxPool.PoolMap
import Mathlib.Algebra.BigOperators.Group.Finset.Basic

/-!
What each pool-map helper leaves alone. The structural invariants read of an entry only its id,
status, resolved transaction and size (its frame); the index-key updates change the aggregates and
the sort keys, never a frame, so they are invisible to those invariants.
-/

namespace Ckb.TxPool

variable {H I : Type} [LinearOrder I] (env : PoolEnv H I)

def PoolEntry.frame (e : PoolEntry H I) : I × Status × ResolvedTransaction H × Nat :=
  (e.id, e.status, e.inner.rtx, e.inner.size)

/-- Two entry maps hold the same ids with the same frames. -/
def SameFrames (m₁ m₂ : FiniteMap I (PoolEntry H I)) : Prop :=
  ∀ id, (m₁.lookup id).map PoolEntry.frame = (m₂.lookup id).map PoolEntry.frame

namespace SameFrames

variable {m₁ m₂ m₃ : FiniteMap I (PoolEntry H I)}

theorem refl (m : FiniteMap I (PoolEntry H I)) : SameFrames m m := fun _ => rfl

theorem symm (same : SameFrames m₁ m₂) : SameFrames m₂ m₁ := fun id => (same id).symm

theorem trans (first : SameFrames m₁ m₂) (second : SameFrames m₂ m₃) : SameFrames m₁ m₃ :=
  fun id => (first id).trans (second id)

theorem mem_iff (same : SameFrames m₁ m₂) (id : I) : id ∈ m₁ ↔ id ∈ m₂ := by
  have frames := same id
  simp only [← Finmap.lookup_isSome]
  cases found₁ : m₁.lookup id <;> cases found₂ : m₂.lookup id <;> simp_all

theorem keys_eq (same : SameFrames m₁ m₂) : m₁.keys = m₂.keys := by
  ext id
  simp only [Finmap.mem_keys]
  exact same.mem_iff id

theorem exists_of_lookup (same : SameFrames m₁ m₂) {id : I} {e : PoolEntry H I}
    (found : m₁.lookup id = some e) : ∃ e', m₂.lookup id = some e' ∧ e'.frame = e.frame := by
  have frames := same id
  rw [found] at frames
  cases found₂ : m₂.lookup id with
  | none => simp [found₂] at frames
  | some e' =>
    rw [found₂] at frames
    exact ⟨e', rfl, (Option.some.inj frames).symm⟩

theorem erase (same : SameFrames m₁ m₂) (id : I) : SameFrames (m₁.erase id) (m₂.erase id) := by
  intro k
  by_cases hk : k = id
  · subst hk
    simp [Finmap.lookup_erase]
  · simp [Finmap.lookup_erase_ne hk, same k]

theorem sumBy_eq (same : SameFrames m₁ m₂) (weight : I × Status × ResolvedTransaction H × Nat → Nat) :
    FiniteMap.sumBy m₁ (weight ∘ PoolEntry.frame) = FiniteMap.sumBy m₂ (weight ∘ PoolEntry.frame) := by
  apply FiniteMap.sumBy_congr
  intro id
  rw [← Option.map_map, ← Option.map_map, same id]

end SameFrames

theorem sameFrames_modify (m : FiniteMap I (PoolEntry H I)) (id : I) (f : PoolEntry H I → PoolEntry H I)
    (keeps : ∀ e, (f e).frame = e.frame) : SameFrames (m.modify id f) m := by
  intro k
  rw [FiniteMap.lookup_modify]
  split
  · cases m.lookup k <;> simp [keeps]
  · rfl

theorem sameFrames_foldl_modify (ids : List I) (m : FiniteMap I (PoolEntry H I))
    (f : I → PoolEntry H I → PoolEntry H I) (keeps : ∀ id e, (f id e).frame = e.frame) :
    SameFrames (ids.foldl (fun m id => m.modify id (f id)) m) m := by
  induction ids generalizing m with
  | nil => exact SameFrames.refl m
  | cons id rest ih =>
    exact (ih (m.modify id (f id))).trans (sameFrames_modify m id (f id) (keeps id))

namespace PoolMap

/-- The number of entries with the given status. -/
def countStatus (s : PoolMap H I) (status : Status) : Nat :=
  s.entries.sumBy fun e => if e.status = status then 1 else 0

/-- The sum of the sizes of the entries. -/
def sumSizes (s : PoolMap H I) : Nat := s.entries.sumBy (·.inner.size)

theorem countStatus_congr {s₁ s₂ : PoolMap H I} (same : SameFrames s₁.entries s₂.entries)
    (status : Status) : s₁.countStatus status = s₂.countStatus status :=
  same.sumBy_eq fun frame => if frame.2.1 = status then 1 else 0

theorem sumSizes_congr {s₁ s₂ : PoolMap H I} (same : SameFrames s₁.entries s₂.entries) :
    s₁.sumSizes = s₂.sumSizes :=
  same.sumBy_eq fun frame => frame.2.2.2

theorem countStatus_sum (s : PoolMap H I) :
    s.countStatus .pending + s.countStatus .gap + s.countStatus .proposed = s.entries.keys.card := by
  unfold countStatus FiniteMap.sumBy
  rw [← Finset.sum_add_distrib, ← Finset.sum_add_distrib, Finset.card_eq_sum_ones]
  refine Finset.sum_congr rfl fun k listed => ?_
  obtain ⟨e, found⟩ := Finmap.mem_iff.mp (Finmap.mem_keys.mp listed)
  rw [found]
  cases named : e.status <;> simp [named]

theorem updateAncestorsIndexKey_frames (s : PoolMap H I) (child : TxEntry H) (op : EntryOp) :
    SameFrames (updateAncestorsIndexKey env s child op).entries s.entries := by
  apply sameFrames_foldl_modify
  intro id e
  cases op <;> rfl

theorem updateDescendantsIndexKey_frames (s : PoolMap H I) (parent : TxEntry H) (op : EntryOp) :
    SameFrames (updateDescendantsIndexKey env s parent op).entries s.entries := by
  apply sameFrames_foldl_modify
  intro id e
  cases op <;> rfl

@[simp] theorem updateAncestorsIndexKey_links (s : PoolMap H I) (child : TxEntry H) (op : EntryOp) :
    (updateAncestorsIndexKey env s child op).links = s.links := rfl

@[simp] theorem updateAncestorsIndexKey_edges (s : PoolMap H I) (child : TxEntry H) (op : EntryOp) :
    (updateAncestorsIndexKey env s child op).edges = s.edges := rfl

@[simp] theorem updateDescendantsIndexKey_links (s : PoolMap H I) (parent : TxEntry H) (op : EntryOp) :
    (updateDescendantsIndexKey env s parent op).links = s.links := rfl

@[simp] theorem updateDescendantsIndexKey_edges (s : PoolMap H I) (parent : TxEntry H) (op : EntryOp) :
    (updateDescendantsIndexKey env s parent op).edges = s.edges := rfl

/-- The counter `track_entry_statics` keeps for a status. -/
def counter (s : PoolMap H I) : Status → Nat
  | .pending => s.pendingCount
  | .gap => s.gapCount
  | .proposed => s.proposedCount

omit [LinearOrder I] in
@[simp] theorem counter_withEntries (s : PoolMap H I) (entries : FiniteMap I (PoolEntry H I))
    (status : Status) : ({ s with entries := entries } : PoolMap H I).counter status = s.counter status := by
  cases status <;> rfl

omit [LinearOrder I] in
@[simp] theorem counter_updateStatForRemoveTx (s : PoolMap H I) (txSize cycles : Nat) (status : Status) :
    (updateStatForRemoveTx s txSize cycles).counter status = s.counter status := by
  cases status <;> rfl

@[simp] theorem counter_updateAncestorsIndexKey (s : PoolMap H I) (child : TxEntry H) (op : EntryOp)
    (status : Status) : (updateAncestorsIndexKey env s child op).counter status = s.counter status := by
  cases status <;> rfl

@[simp] theorem counter_updateDescendantsIndexKey (s : PoolMap H I) (parent : TxEntry H) (op : EntryOp)
    (status : Status) : (updateDescendantsIndexKey env s parent op).counter status = s.counter status := by
  cases status <;> rfl

@[simp] theorem counter_removeEntryEdges [DecidableEq H] (s : PoolMap H I) (entry : TxEntry H) (status : Status) :
    (removeEntryEdges env s entry).counter status = s.counter status := by
  cases status <;> rfl

@[simp] theorem counter_removeEntryLinks (s : PoolMap H I) (id : I) (status : Status) :
    (removeEntryLinks s id).counter status = s.counter status := by
  cases status <;> rfl

omit [LinearOrder I] in
@[simp] theorem counter_updateStatForAddTx (s : PoolMap H I) (txSize cycles : Nat) (status : Status) :
    (updateStatForAddTx s txSize cycles).counter status = s.counter status := by
  cases status <;> rfl

omit [LinearOrder I] in
theorem trackEntryStatics_eq {s s' : PoolMap H I} {remove add : Option Status}
    (tracked : trackEntryStatics s remove add = some s') :
    s'.entries = s.entries ∧ s'.edges = s.edges ∧ s'.links = s.links ∧
      s'.totalTxSize = s.totalTxSize ∧ s'.maxAncestorsCount = s.maxAncestorsCount ∧
      ∀ status, s'.counter status + (if remove = some status then 1 else 0) =
        s.counter status + (if add = some status then 1 else 0) := by
  unfold trackEntryStatics at tracked
  rcases remove with _ | _ | _ | _ <;> rcases add with _ | _ | _ | _ <;>
    simp only [Option.bind_eq_bind, Option.bind] at tracked <;>
    (repeat' split at tracked) <;> simp_all <;> (cases tracked; simp) <;>
    (intro status; cases status <;> simp [counter] <;> omega)

omit [LinearOrder I] in
/-- Removing an entry passes the checks of `track_entry_statics` when its status's counter is
not zero and the counters sum to one more than the entries. -/
theorem trackEntryStatics_remove_isSome {s : PoolMap H I} {status : Status} (held : s.counter status ≠ 0)
    (total : s.counter .pending + s.counter .gap + s.counter .proposed = s.entries.keys.card + 1) :
    (trackEntryStatics s (some status) none).isSome := by
  cases status <;> simp only [counter] at held total <;>
    simp [trackEntryStatics, held] <;> omega

end PoolMap

end Ckb.TxPool
