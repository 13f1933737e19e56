import Ckb.TxPool.CommitTxsScanner
import Ckb.TxPool.Indexes
import Ckb.TxPool.Reachable

/-!
What the commit scanner reads of an entry: its size, its cycles and its count, each as the entry's
own part and as the aggregate over the entry and its ancestors. In a pool whose aggregates are
exact, what packaging an entry still adds once some ids are in the block is `remaining`: its own
weight and that of its ancestors outside those ids. The modified entries the scanner keeps are
the pool's proposed entries with their ancestors' aggregates lowered, which `EntryOf` states.
-/

namespace Ckb.TxPool

variable {H I : Type} [LinearOrder I]

inductive Weight where
  | size
  | cycles
  | count
deriving DecidableEq

namespace Weight

def own : Weight → TxEntry H → Nat
  | size, e => e.size
  | cycles, e => e.cycles
  | count, _ => 1

def ancestors : Weight → TxEntry H → Nat
  | size, e => e.ancestorsSize
  | cycles, e => e.ancestorsCycles
  | count, e => e.ancestorsCount

@[simp] theorem own_size : (size.own : TxEntry H → Nat) = (·.size) := rfl

@[simp] theorem own_cycles : (cycles.own : TxEntry H → Nat) = (·.cycles) := rfl

@[simp] theorem own_subAncestorWeight (w : Weight) (self entry : TxEntry H) :
    w.own (self.subAncestorWeight entry) = w.own self := by
  cases w <;> rfl

@[simp] theorem ancestors_subAncestorWeight (w : Weight) (self entry : TxEntry H) :
    w.ancestors (self.subAncestorWeight entry) = w.ancestors self - w.own entry := by
  cases w <;> rfl

end Weight

namespace PoolMap

/-- The weight of the entry `id`, nothing when the pool has no such entry. -/
def weightOf (s : PoolMap H I) (w : Weight) (id : I) : Nat :=
  ((s.entries.lookup id).map fun e => w.own e.inner).getD 0

/-- What packaging `id` adds once `fetched` is in the block. -/
def remaining (s : PoolMap H I) (w : Weight) (fetched : Finset I) (id : I) : Nat :=
  ∑ a ∈ s.calcAncestors id \ fetched, s.weightOf w a + s.weightOf w id

variable {s : PoolMap H I}

theorem weightOf_of_lookup {id : I} {entry : PoolEntry H I} (found : s.entries.lookup id = some entry) (w : Weight) :
    s.weightOf w id = w.own entry.inner := by
  simp [weightOf, found]

theorem getProposed_eq_some {id : I} {entry : TxEntry H} :
    s.getProposed id = some entry ↔ ∃ pe, s.entries.lookup id = some pe ∧ pe.status = .proposed ∧ pe.inner = entry := by
  unfold getProposed
  cases s.entries.lookup id with
  | none => simp
  | some pe => by_cases proposed : pe.status = .proposed <;> simp [proposed]

theorem hasProposed_iff {id : I} :
    s.hasProposed id = true ↔ ∃ pe, s.entries.lookup id = some pe ∧ pe.status = .proposed := by
  simp only [hasProposed, Option.isSome_iff_exists, getProposed_eq_some]
  constructor
  · rintro ⟨entry, pe, found, proposed, -⟩
    exact ⟨pe, found, proposed⟩
  · rintro ⟨pe, found, proposed⟩
    exact ⟨pe.inner, pe, found, proposed, rfl⟩

theorem hasProposed_of_getProposed {id : I} {entry : TxEntry H} (found : s.getProposed id = some entry) :
    s.hasProposed id = true := by
  simp [hasProposed, found]

theorem mem_entries_of_hasProposed {id : I} (proposed : s.hasProposed id = true) : id ∈ s.entries := by
  obtain ⟨pe, found, -⟩ := hasProposed_iff.mp proposed
  exact Finmap.mem_of_lookup_eq_some found

theorem mem_sortedProposedIter {entry : TxEntry H} (member : entry ∈ s.sortedProposedIter) :
    ∃ id, s.getProposed id = some entry := by
  simp only [sortedProposedIter, scoreSortedIterByStatus, List.mem_filterMap] at member
  obtain ⟨pe, sorted, chosen⟩ := member
  obtain ⟨id, -, found⟩ := List.mem_filterMap.mp ((List.perm_insertionSort _ _).subset sorted)
  refine ⟨id, getProposed_eq_some.mpr ⟨pe, found, ?_⟩⟩
  by_cases proposed : pe.status = .proposed <;> simp_all

theorem length_sortedProposedIter : s.sortedProposedIter.length ≤ s.entries.keys.card := by
  simp only [sortedProposedIter, scoreSortedIterByStatus]
  calc _ ≤ (((sortedElems s.entries.keys).filterMap s.entries.lookup).insertionSort _).length :=
        List.length_filterMap_le _ _
    _ = ((sortedElems s.entries.keys).filterMap s.entries.lookup).length := List.length_insertionSort _ _
    _ ≤ (sortedElems s.entries.keys).length := List.length_filterMap_le _ _
    _ = s.entries.keys.card := by
        rw [← List.toFinset_card_of_nodup (nodup_sortedElems _), toFinset_sortedElems]

/-! `remaining` as ids are fetched. -/

variable (w : Weight)

theorem remaining_antitone {fetched fetched' : Finset I} (sub : fetched ⊆ fetched') (id : I) :
    s.remaining w fetched' id ≤ s.remaining w fetched id := by
  have fewer : ∑ a ∈ s.calcAncestors id \ fetched', s.weightOf w a ≤ ∑ a ∈ s.calcAncestors id \ fetched, s.weightOf w a :=
    Finset.sum_le_sum_of_subset (Finset.sdiff_subset_sdiff (subset_refl _) sub)
  unfold remaining
  omega

theorem remaining_of_disjoint {fetched : Finset I} {id : I} (untouched : ∀ a ∈ s.calcAncestors id, a ∉ fetched) :
    s.remaining w fetched id = s.remaining w ∅ id := by
  have same : s.calcAncestors id \ fetched = s.calcAncestors id \ ∅ := by
    rw [Finset.sdiff_empty, Finset.sdiff_eq_self_iff_disjoint, Finset.disjoint_left]
    exact untouched
  rw [remaining, remaining, same]

theorem remaining_insert_add {fetched : Finset I} {id a : I} (ancestor : a ∈ s.calcAncestors id) (fresh : a ∉ fetched) :
    s.remaining w (insert a fetched) id + s.weightOf w a = s.remaining w fetched id := by
  have member : a ∈ s.calcAncestors id \ fetched := Finset.mem_sdiff.mpr ⟨ancestor, fresh⟩
  have split := Finset.sum_erase_add _ (s.weightOf w) member
  rw [← Finset.sdiff_insert] at split
  unfold remaining
  omega

theorem remaining_insert_of_notMem {fetched : Finset I} {id a : I} (other : a ∉ s.calcAncestors id) :
    s.remaining w (insert a fetched) id = s.remaining w fetched id := by
  have outside : a ∉ s.calcAncestors id \ fetched := fun member => other (Finset.mem_sdiff.mp member).1
  rw [remaining, remaining, Finset.sdiff_insert, Finset.erase_eq_of_notMem outside]

theorem remaining_ancestor_add {fetched : Finset I} {id a : I} (acyclic : a ∉ s.calcAncestors a)
    (ancestor : a ∈ s.calcAncestors id) (fresh : a ∉ fetched) :
    s.remaining w fetched a + s.weightOf w id ≤ s.remaining w fetched id := by
  have within : insert a (s.calcAncestors a \ fetched) ⊆ s.calcAncestors id \ fetched := by
    intro b member
    rcases Finset.mem_insert.mp member with rfl | further
    · exact Finset.mem_sdiff.mpr ⟨ancestor, fresh⟩
    · obtain ⟨older, unfetched⟩ := Finset.mem_sdiff.mp further
      exact Finset.mem_sdiff.mpr ⟨s.links.calcAncestors_trans ancestor older, unfetched⟩
  have outside : a ∉ s.calcAncestors a \ fetched := fun member => acyclic (Finset.mem_sdiff.mp member).1
  have bounded := Finset.sum_le_sum_of_subset (f := s.weightOf w) within
  rw [Finset.sum_insert outside] at bounded
  unfold remaining
  omega

theorem remaining_le_add_sum (fetched added : Finset I) (id : I) :
    s.remaining w fetched id ≤ s.remaining w (fetched ∪ added) id + ∑ a ∈ added, s.weightOf w a := by
  have covered : s.calcAncestors id \ fetched ⊆ (s.calcAncestors id \ (fetched ∪ added)) ∪ added := by
    intro a member
    obtain ⟨ancestor, unfetched⟩ := Finset.mem_sdiff.mp member
    by_cases packaged : a ∈ added
    · exact Finset.mem_union_right _ packaged
    · exact Finset.mem_union_left _ (Finset.mem_sdiff.mpr ⟨ancestor, by simp [unfetched, packaged]⟩)
  have apart : Disjoint (s.calcAncestors id \ (fetched ∪ added)) added :=
    Finset.disjoint_of_subset_right Finset.subset_union_right Finset.sdiff_disjoint
  have bounded := Finset.sum_le_sum_of_subset (f := s.weightOf w) covered
  rw [Finset.sum_union apart] at bounded
  unfold remaining
  omega

end PoolMap

variable (env : PoolEnv H I)

/-- What the scanner needs of the pool: each entry under its own short id, links that mirror each
other within the entries, no transaction among its own ancestors, and exact aggregates. -/
structure ScanReady (pool : PoolMap H I) : Prop where
  keyed : ∀ id entry, pool.entries.lookup id = some entry → entry.inner.proposalShortId env = id
  links : LinksWithin pool.entries pool.links
  acyclic : ∀ id, id ∉ pool.calcAncestors id
  aggregates : AggregatesExact env pool

/-- `entry` is the proposed entry `id` of the pool, with whatever aggregates over its ancestors. -/
def EntryOf (pool : PoolMap H I) (id : I) (entry : TxEntry H) : Prop :=
  ∃ pe, pool.getProposed id = some pe ∧ entry.rtx = pe.rtx ∧ entry.size = pe.size ∧ entry.cycles = pe.cycles

variable {env} {pool : PoolMap H I}

namespace ScanReady

variable (ready : ScanReady env pool)
include ready

theorem mem_entries_of_mem_calcAncestors {id a : I} (ancestor : a ∈ pool.calcAncestors id) : a ∈ pool.entries :=
  ready.links.linked a (pool.links.mem_inner_of_mem_calcAncestors ready.links.symmetric ancestor)

theorem proposalShortId_of_getProposed {id : I} {entry : TxEntry H} (found : pool.getProposed id = some entry) :
    entry.proposalShortId env = id := by
  obtain ⟨pe, present, -, rfl⟩ := PoolMap.getProposed_eq_some.mp found
  exact ready.keyed id pe present

theorem ancestors_eq {id : I} {entry : PoolEntry H I} (found : pool.entries.lookup id = some entry) (w : Weight) :
    w.ancestors entry.inner = pool.remaining w ∅ id := by
  obtain ⟨count, size, cycles, -⟩ := ready.aggregates id entry found
  rw [PoolMap.remaining, Finset.sdiff_empty, PoolMap.weightOf_of_lookup found]
  cases w with
  | size => rw [Weight.ancestors, size, add_comm]; rfl
  | cycles => rw [Weight.ancestors, cycles, add_comm]; rfl
  | count =>
    have ones : ∀ a ∈ pool.calcAncestors id, pool.weightOf .count a = 1 := by
      intro a ancestor
      obtain ⟨pe, present⟩ := Finmap.mem_iff.mp (ready.mem_entries_of_mem_calcAncestors ancestor)
      rw [PoolMap.weightOf_of_lookup present, Weight.own]
    rw [Weight.ancestors, count, Finset.sum_congr rfl ones, Finset.sum_const, smul_eq_mul, mul_one, Weight.own,
      add_comm]

omit ready in
/-- The conditions of a pool ready for the scanner, checked on its keys, so that a concrete pool
decides them. -/
theorem of_keys (keyed : ∀ id ∈ pool.entries.keys, ∀ e ∈ pool.entries.lookup id, e.inner.proposalShortId env = id)
    (linked : ∀ id ∈ pool.links.inner.keys, id ∈ pool.entries.keys)
    (children : ∀ p ∈ pool.links.inner.keys, ∀ c ∈ pool.links.directIds .children p, p ∈ pool.links.directIds .parents c)
    (parents : ∀ c ∈ pool.links.inner.keys, ∀ p ∈ pool.links.directIds .parents c, c ∈ pool.links.directIds .children p)
    (acyclic : ∀ id ∈ pool.links.inner.keys, id ∉ pool.calcAncestors id) (aggregates : AggregatesExact env pool) :
    ScanReady env pool where
  keyed := FiniteMap.forall_lookup_iff.mpr keyed
  links := ⟨fun id member => Finmap.mem_keys.mp (linked id (Finmap.mem_keys.mpr member)),
    TxLinksMap.symmetric_of_keys children parents⟩
  acyclic := by
    intro id
    by_cases member : id ∈ pool.links.inner
    · exact acyclic id (Finmap.mem_keys.mpr member)
    · rw [PoolMap.calcAncestors, TxLinksMap.calcAncestors_eq_empty member]
      exact Finset.notMem_empty id
  aggregates := aggregates

end ScanReady

namespace EntryOf

theorem of_getProposed {id : I} {entry : TxEntry H} (found : pool.getProposed id = some entry) : EntryOf pool id entry :=
  ⟨entry, found, rfl, rfl, rfl⟩

theorem hasProposed {id : I} {entry : TxEntry H} (entryOf : EntryOf pool id entry) : pool.hasProposed id = true := by
  obtain ⟨pe, found, -⟩ := entryOf
  exact PoolMap.hasProposed_of_getProposed found

theorem proposalShortId (ready : ScanReady env pool) {id : I} {entry : TxEntry H} (entryOf : EntryOf pool id entry) :
    entry.proposalShortId env = id := by
  obtain ⟨pe, found, rtx, -⟩ := entryOf
  rw [← ready.proposalShortId_of_getProposed found]
  simp [TxEntry.proposalShortId, TxEntry.transaction, rtx]

theorem weightOf {id : I} {entry : TxEntry H} (entryOf : EntryOf pool id entry) (w : Weight) :
    pool.weightOf w id = w.own entry := by
  obtain ⟨pe, found, -, size, cycles⟩ := entryOf
  obtain ⟨poolEntry, present, -, rfl⟩ := PoolMap.getProposed_eq_some.mp found
  rw [PoolMap.weightOf_of_lookup present]
  cases w with
  | size => exact size.symm
  | cycles => exact cycles.symm
  | count => rfl

theorem subAncestorWeight {id : I} {self : TxEntry H} (entryOf : EntryOf pool id self) (entry : TxEntry H) :
    EntryOf pool id (self.subAncestorWeight entry) := by
  obtain ⟨pe, found, rtx, size, cycles⟩ := entryOf
  exact ⟨pe, found, rtx, size, cycles⟩

end EntryOf

end Ckb.TxPool
