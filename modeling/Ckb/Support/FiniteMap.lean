import Mathlib.Data.Finmap
import Mathlib.Algebra.BigOperators.Group.Finset.Basic
import Mathlib.Data.List.Sort

/-!
Finite maps and finite sets as the models of hash maps and hash sets. A hash table iterates in an
order the program does not fix; the model iterates a set in increasing order, which is one of the
orders the table may produce.
-/

/-- A finite map whose values all have one type. -/
abbrev FiniteMap (K V : Type*) := Finmap (fun _ : K => V)

namespace FiniteMap

variable {K V : Type*} [DecidableEq K]

/-- Apply `f` to the value stored under `k`, if there is one (`get_mut(k).map(f)`). -/
def modify (m : FiniteMap K V) (k : K) (f : V → V) : FiniteMap K V :=
  match m.lookup k with
  | some v => m.insert k (f v)
  | none => m

@[simp] theorem lookup_modify_self (m : FiniteMap K V) (k : K) (f : V → V) :
    (m.modify k f).lookup k = (m.lookup k).map f := by
  unfold modify
  cases found : m.lookup k <;> simp [found]

@[simp] theorem lookup_modify_ne (m : FiniteMap K V) {k k' : K} (f : V → V) (other : k' ≠ k) :
    (m.modify k f).lookup k' = m.lookup k' := by
  unfold modify
  cases m.lookup k <;> simp [Finmap.lookup_insert_of_ne _ other]

theorem modify_of_lookup {m : FiniteMap K V} {k : K} {v : V} (found : m.lookup k = some v) (f : V → V) :
    m.modify k f = m.insert k (f v) := by
  rw [modify, found]

theorem modify_of_lookup_eq_none {m : FiniteMap K V} {k : K} (absent : m.lookup k = none) (f : V → V) :
    m.modify k f = m := by
  rw [modify, absent]

theorem lookup_modify (m : FiniteMap K V) (k k' : K) (f : V → V) :
    (m.modify k f).lookup k' = if k' = k then (m.lookup k').map f else m.lookup k' := by
  by_cases same : k' = k
  · subst same
    simp
  · simp [same]

@[simp] theorem mem_modify (m : FiniteMap K V) (k k' : K) (f : V → V) :
    k' ∈ m.modify k f ↔ k' ∈ m := by
  simp only [← Finmap.lookup_isSome, lookup_modify]
  split <;> simp_all

theorem keys_insert (m : FiniteMap K V) (k : K) (v : V) : (m.insert k v).keys = insert k m.keys := by
  ext k'
  simp [Finmap.mem_keys, Finmap.mem_insert]

theorem lookup_foldl_modify (m : FiniteMap K V) (keys : List K) (f : V → V)
    (idem : ∀ v, f (f v) = f v) (k : K) :
    (keys.foldl (fun m key => m.modify key f) m).lookup k =
      if k ∈ keys then (m.lookup k).map f else m.lookup k := by
  induction keys generalizing m with
  | nil => simp
  | cons key rest ih =>
    rw [List.foldl_cons, ih, lookup_modify]
    by_cases inRest : k ∈ rest
    · by_cases same : k = key
      · subst same
        cases m.lookup k <;> simp [idem]
      · simp [inRest, same]
    · by_cases same : k = key
      · subst same
        simp [inRest]
      · simp [inRest, same]

theorem mem_foldl_modify (m : FiniteMap K V) (keys : List K) (f : V → V) (k : K) :
    k ∈ keys.foldl (fun m key => m.modify key f) m ↔ k ∈ m := by
  induction keys generalizing m with
  | nil => rfl
  | cons key rest ih => rw [List.foldl_cons, ih, mem_modify]

theorem erase_of_notMem {m : FiniteMap K V} {k : K} (absent : k ∉ m) : m.erase k = m := by
  apply Finmap.ext_lookup
  intro k'
  by_cases same : k' = k
  · subst same
    simp [Finmap.lookup_eq_none.mpr absent]
  · simp [Finmap.lookup_erase_ne same]

theorem erase_insert_empty (k : K) (v : V) : ((∅ : FiniteMap K V).insert k v).erase k = ∅ := by
  apply Finmap.ext_lookup
  intro k'
  by_cases same : k' = k
  · subst same
    simp
  · simp [Finmap.lookup_erase_ne same, Finmap.lookup_insert_of_ne _ same]

theorem lookup_singleton_eq_some {k k' : K} {v v' : V} :
    (Finmap.singleton k v : FiniteMap K V).lookup k' = some v' ↔ k' = k ∧ v' = v := by
  constructor
  · intro found
    obtain rfl := (Finmap.mem_singleton _ _ _).mp (Finmap.mem_of_lookup_eq_some found)
    rw [Finmap.lookup_singleton_eq, Option.some.injEq] at found
    exact ⟨rfl, found.symm⟩
  · rintro ⟨rfl, rfl⟩
    exact Finmap.lookup_singleton_eq

theorem forall_lookup_iff {m : FiniteMap K V} {P : K → V → Prop} :
    (∀ k v, m.lookup k = some v → P k v) ↔ ∀ k ∈ m.keys, ∀ v ∈ m.lookup k, P k v := by
  constructor
  · intro all k _ v found
    exact all k v found
  · intro all k v found
    exact all k (Finmap.mem_keys.mpr (Finmap.mem_of_lookup_eq_some found)) v found

theorem insert_erase_of_lookup {m : FiniteMap K V} {k : K} {v : V} (found : m.lookup k = some v) :
    (m.erase k).insert k v = m := by
  apply Finmap.ext_lookup
  intro k'
  by_cases same : k' = k
  · subst same
    simp [found]
  · simp [Finmap.lookup_insert_of_ne _ same, Finmap.lookup_erase_ne same]

/-- The sum of `weight` over the values of the map. -/
def sumBy (m : FiniteMap K V) (weight : V → Nat) : Nat :=
  ∑ k ∈ m.keys, ((m.lookup k).map weight).getD 0

theorem sumBy_congr {m₁ m₂ : FiniteMap K V} {weight : V → Nat}
    (same : ∀ k, (m₁.lookup k).map weight = (m₂.lookup k).map weight) :
    m₁.sumBy weight = m₂.sumBy weight := by
  have keys : m₁.keys = m₂.keys := by
    ext k
    have agree := same k
    simp only [Finmap.mem_keys, ← Finmap.lookup_isSome]
    cases found₁ : m₁.lookup k <;> cases found₂ : m₂.lookup k <;> simp_all
  unfold sumBy
  rw [keys]
  exact Finset.sum_congr rfl fun k _ => by rw [same k]

theorem sumBy_insert_of_notMem {m : FiniteMap K V} {k : K} (absent : k ∉ m) (v : V) (weight : V → Nat) :
    sumBy (m.insert k v) weight = weight v + m.sumBy weight := by
  have fresh : k ∉ m.keys := by rwa [Finmap.mem_keys]
  unfold sumBy
  rw [keys_insert, Finset.sum_insert fresh, Finmap.lookup_insert]
  congr 1
  apply Finset.sum_congr rfl
  intro k' present
  have other : k' ≠ k := fun same => fresh (same ▸ present)
  rw [Finmap.lookup_insert_of_ne _ other]

theorem sumBy_erase {m : FiniteMap K V} {k : K} {v : V} (found : m.lookup k = some v) (weight : V → Nat) :
    sumBy (m.erase k) weight + weight v = m.sumBy weight := by
  have inserted := sumBy_insert_of_notMem (Finmap.notMem_erase_self (s := m) (a := k)) v weight
  rw [insert_erase_of_lookup found] at inserted
  omega

theorem sumBy_insert {m : FiniteMap K V} {k : K} {v : V} (found : m.lookup k = some v) (v' : V)
    (weight : V → Nat) : sumBy (m.insert k v') weight + weight v = m.sumBy weight + weight v' := by
  have replaced : ((m.insert k v').erase k) = m.erase k := by
    apply Finmap.ext_lookup
    intro k'
    by_cases same : k' = k
    · subst same
      simp
    · simp [Finmap.lookup_erase_ne same, Finmap.lookup_insert_of_ne _ same]
  have before := sumBy_erase found weight
  have after := sumBy_erase (Finmap.lookup_insert m (a := k) (b := v')) weight
  rw [replaced] at after
  omega

@[simp] theorem sumBy_empty (weight : V → Nat) : sumBy (∅ : FiniteMap K V) weight = 0 := by
  simp [sumBy]

theorem sumBy_erase_add (m : FiniteMap K V) (k : K) (weight : V → Nat) :
    sumBy (m.erase k) weight + ((m.lookup k).map weight).getD 0 = m.sumBy weight := by
  cases found : m.lookup k with
  | none => rw [erase_of_notMem (Finmap.lookup_eq_none.mp found), Option.map_none, Option.getD_none, Nat.add_zero]
  | some v => exact sumBy_erase found weight

theorem sumBy_insert_eq (m : FiniteMap K V) (k : K) (v : V) (weight : V → Nat) :
    sumBy (m.insert k v) weight = weight v + sumBy (m.erase k) weight := by
  rw [← sumBy_insert_of_notMem (Finmap.notMem_erase_self (s := m) (a := k)) v weight]
  apply sumBy_congr
  intro k'
  by_cases same : k' = k
  · subst same
    rw [Finmap.lookup_insert, Finmap.lookup_insert]
  · rw [Finmap.lookup_insert_of_ne _ same, Finmap.lookup_insert_of_ne _ same, Finmap.lookup_erase_ne same]

/-- Append `v` to the list stored under `k`, starting an empty one if there is none
(`entry(k).or_insert_with(Vec::new).push(v)`). -/
def push (m : FiniteMap K (List V)) (k : K) (v : V) : FiniteMap K (List V) :=
  m.insert k ((m.lookup k).getD [] ++ [v])

section Folds

variable {α : Type*} (f : α → K)

/-- Inserting a list of entries: a key is left as it was unless some entry has it, and then it holds
the one value every entry with that key gives it. -/
theorem lookup_foldl_insert (g : α → V) (l : List α) (m : FiniteMap K V) {k : K} {v : V}
    (agree : ∀ a ∈ l, f a = k → g a = v) :
    (l.foldl (fun m a => m.insert (f a) (g a)) m).lookup k = if k ∈ l.map f then some v else m.lookup k := by
  induction l generalizing m with
  | nil => simp
  | cons a rest ih =>
    rw [List.foldl_cons, ih _ fun a' member => agree a' (List.mem_cons_of_mem a member)]
    by_cases same : f a = k
    · have value := agree a List.mem_cons_self same
      subst same
      split_ifs <;> simp_all
    · have other : k ≠ f a := Ne.symm same
      simp [Finmap.lookup_insert_of_ne _ other, other]

theorem lookup_foldl_insert_of_notMem (g : α → V) (l : List α) (m : FiniteMap K V) {k : K}
    (absent : k ∉ l.map f) : (l.foldl (fun m a => m.insert (f a) (g a)) m).lookup k = m.lookup k := by
  induction l generalizing m with
  | nil => rfl
  | cons a rest ih =>
    rw [List.map_cons, List.mem_cons, not_or] at absent
    rw [List.foldl_cons, ih _ absent.2, Finmap.lookup_insert_of_ne _ absent.1]

theorem lookup_foldl_erase (l : List K) (m : FiniteMap K V) (k : K) :
    (l.foldl (fun m k => m.erase k) m).lookup k = if k ∈ l then none else m.lookup k := by
  induction l generalizing m with
  | nil => simp
  | cons k' rest ih =>
    rw [List.foldl_cons, ih]
    by_cases same : k = k'
    · subst same
      simp
    · simp [Finmap.lookup_erase_ne same, same]

theorem mem_foldl_insert (g : α → V) (l : List α) (m : FiniteMap K V) (k : K) :
    k ∈ l.foldl (fun m a => m.insert (f a) (g a)) m ↔ k ∈ m ∨ k ∈ l.map f := by
  induction l generalizing m with
  | nil => simp
  | cons a rest ih =>
    rw [List.foldl_cons, ih, Finmap.mem_insert, List.map_cons, List.mem_cons]
    tauto

theorem mem_foldl_erase (l : List K) (m : FiniteMap K V) (k : K) :
    k ∈ l.foldl (fun m k => m.erase k) m ↔ k ∈ m ∧ k ∉ l := by
  induction l generalizing m with
  | nil => simp
  | cons k' rest ih =>
    rw [List.foldl_cons, ih, Finmap.mem_erase, List.mem_cons]
    tauto

theorem mem_foldl_push (g : α → V) (l : List α) (m : FiniteMap K (List V)) (k : K) (v : V) :
    v ∈ ((l.foldl (fun m a => m.push (f a) (g a)) m).lookup k).getD [] ↔
      v ∈ (m.lookup k).getD [] ∨ ∃ a ∈ l, f a = k ∧ g a = v := by
  induction l generalizing m with
  | nil => simp
  | cons a rest ih =>
    rw [List.foldl_cons, ih]
    by_cases same : f a = k
    · subst same
      simp only [push, Finmap.lookup_insert, Option.getD_some, List.mem_append, List.mem_singleton,
        List.exists_mem_cons_iff, true_and, or_assoc, eq_comm]
    · simp [push, Finmap.lookup_insert_of_ne _ (Ne.symm same), same]

theorem mem_keys_foldl_push (g : α → V) (l : List α) (m : FiniteMap K (List V)) (k : K) :
    k ∈ (l.foldl (fun m a => m.push (f a) (g a)) m) ↔ k ∈ m ∨ ∃ a ∈ l, f a = k := by
  induction l generalizing m with
  | nil => simp
  | cons a rest ih =>
    rw [List.foldl_cons, ih]
    by_cases same : f a = k
    · subst same
      simp [push]
    · simp [push, Finmap.mem_insert, Ne.symm same, same]

end Folds

end FiniteMap

section AllInsert

variable {α : Type*} [DecidableEq α]

/-- `ids.all(|id| seen.insert(id))`: each id is inserted in turn, and the walk stops at the
first one the set already holds. -/
def allInsert (seen : Finset α) : List α → Bool
  | [] => true
  | id :: ids => if id ∈ seen then false else allInsert (insert id seen) ids

theorem allInsert_eq_true {seen : Finset α} {ids : List α} :
    allInsert seen ids = true ↔ ids.Nodup ∧ ∀ id ∈ ids, id ∉ seen := by
  induction ids generalizing seen with
  | nil => simp [allInsert]
  | cons id ids ih =>
    by_cases held : id ∈ seen
    · simp [allInsert, held]
    · simp only [allInsert, held, if_false, ih, Finset.mem_insert, not_or, List.nodup_cons, List.forall_mem_cons,
        not_false_eq_true, true_and]
      -- the id just inserted stands for the ones after it being distinct from it
      constructor
      · rintro ⟨distinct, fresh⟩
        exact ⟨⟨fun later => (fresh id later).1 rfl, distinct⟩, fun other later => (fresh other later).2⟩
      · rintro ⟨⟨absent, distinct⟩, fresh⟩
        refine ⟨distinct, fun other later => ⟨?_, fresh other later⟩⟩
        rintro rfl
        exact absent later

end AllInsert

section SortedElems

variable {α : Type*} [LinearOrder α]

/-- The elements of a finite set in increasing order. -/
def sortedElems (s : Finset α) : List α :=
  Quotient.liftOn s.val (fun l => l.insertionSort (· ≤ ·)) fun _ _ perm =>
    List.Perm.eq_of_pairwise' (List.pairwise_insertionSort _ _) (List.pairwise_insertionSort _ _)
      (((List.perm_insertionSort _ _).trans perm).trans (List.perm_insertionSort _ _).symm)

@[simp] theorem mem_sortedElems {s : Finset α} {a : α} : a ∈ sortedElems s ↔ a ∈ s := by
  rcases s with ⟨val, nodup⟩
  induction val using Quotient.inductionOn
  exact (List.perm_insertionSort _ _).mem_iff

theorem nodup_sortedElems (s : Finset α) : (sortedElems s).Nodup := by
  rcases s with ⟨val, nodup⟩
  induction val using Quotient.inductionOn
  exact (List.perm_insertionSort _ _).nodup_iff.mpr nodup

theorem toFinset_sortedElems (s : Finset α) : (sortedElems s).toFinset = s := by
  ext a
  simp

@[simp] theorem sortedElems_empty : sortedElems (∅ : Finset α) = [] := rfl

@[simp] theorem length_sortedElems (s : Finset α) : (sortedElems s).length = s.card := by
  rw [← List.toFinset_card_of_nodup (nodup_sortedElems s), toFinset_sortedElems]

theorem pairwise_sortedElems (s : Finset α) : (sortedElems s).Pairwise (· < ·) := by
  have ordered : (sortedElems s).Pairwise (· ≤ ·) := by
    rcases s with ⟨val, nodup⟩
    induction val using Quotient.inductionOn
    exact List.pairwise_insertionSort _ _
  exact (ordered.and (nodup_sortedElems s)).imp fun both => lt_of_le_of_ne both.1 both.2

theorem sortedElems_eq {s : Finset α} {l : List α} (sorted : l.Pairwise (· < ·)) (same : ∀ a, a ∈ l ↔ a ∈ s) :
    sortedElems s = l :=
  (pairwise_sortedElems s).eq_of_mem_iff sorted fun a => by rw [mem_sortedElems, same]

theorem sortedElems_eq_nil {s : Finset α} : sortedElems s = [] ↔ s = ∅ := by
  constructor
  · intro empty
    ext a
    simp [← mem_sortedElems, empty]
  · rintro rfl
    rfl

/-- Keep the keys that satisfy `p` (`BTreeMap::split_off` keeps one side of a key). -/
def FiniteMap.filterKeys {V : Type*} (m : FiniteMap α V) (p : α → Prop) [DecidablePred p] : FiniteMap α V :=
  (sortedElems m.keys).foldl (fun m k => if p k then m else m.erase k) m

theorem FiniteMap.lookup_filterKeys {V : Type*} (m : FiniteMap α V) (p : α → Prop) [DecidablePred p] (k : α) :
    (m.filterKeys p).lookup k = if p k then m.lookup k else none := by
  -- each listed key is visited once; the keys outside the map are `none` already
  have general : ∀ (keys : List α) (m : FiniteMap α V), keys.Nodup →
      (keys.foldl (fun m k => if p k then m else m.erase k) m).lookup k =
        if k ∈ keys ∧ ¬ p k then none else m.lookup k := by
    intro keys
    induction keys with
    | nil => simp
    | cons key rest ih =>
      intro m distinct
      rw [List.foldl_cons, ih _ (List.nodup_cons.mp distinct).2]
      by_cases same : k = key
      · subst same
        by_cases kept : p k <;> simp [kept, (List.nodup_cons.mp distinct).1]
      · by_cases kept : p key <;> simp [kept, same, Finmap.lookup_erase_ne same]
  rw [FiniteMap.filterKeys, general _ _ (nodup_sortedElems _)]
  simp only [mem_sortedElems, Finmap.mem_keys]
  by_cases kept : p k
  · simp [kept]
  · by_cases present : k ∈ m
    · simp [kept, present]
    · simp [kept, Finmap.lookup_eq_none.mpr present]

end SortedElems

section FoldOption

variable {α β : Type*}

theorem foldl_invariant {f : β → α → β} (P : β → Prop) (l : List α)
    (step : ∀ b a, a ∈ l → P b → P (f b a)) {init : β} (start : P init) : P (l.foldl f init) := by
  induction l generalizing init with
  | nil => exact start
  | cons a rest ih =>
    rw [List.foldl_cons]
    exact ih (fun b a' member => step b a' (List.mem_cons_of_mem a member)) (step init a List.mem_cons_self start)

theorem foldlM_option_invariant {f : β → α → Option β} (P : β → Prop) (l : List α)
    (step : ∀ b a b', a ∈ l → P b → f b a = some b' → P b') {init result : β}
    (start : P init) (folded : l.foldlM f init = some result) : P result := by
  induction l generalizing init with
  | nil =>
    cases folded
    exact start
  | cons a rest ih =>
    rw [List.foldlM_cons] at folded
    cases stepped : f init a with
    | none => simp [stepped] at folded
    | some next =>
      rw [stepped] at folded
      exact ih (fun b a' b' member => step b a' b' (List.mem_cons_of_mem a member))
        (step init a next List.mem_cons_self start stepped) folded

theorem foldlM_option_induction {f : β → α → Option β} (P : List α → β → Prop) (l : List α)
    (step : ∀ done a b b', done ++ [a] <+: l → P done b → f b a = some b' → P (done ++ [a]) b')
    {init result : β} (start : P [] init) (folded : l.foldlM f init = some result) : P l result := by
  -- generalise over the part of the list already folded
  suffices general : ∀ (rest done : List α) {b : β}, done ++ rest = l → P done b →
      rest.foldlM f b = some result → P l result from
    general l [] rfl start folded
  intro rest
  induction rest with
  | nil =>
    intro done b split start folded
    cases folded
    simpa [← split] using start
  | cons a rest ih =>
    intro done b split start folded
    rw [List.foldlM_cons] at folded
    cases stepped : f b a with
    | none => simp [stepped] at folded
    | some next =>
      rw [stepped] at folded
      have leading : done ++ [a] <+: l := ⟨rest, by simp [← split]⟩
      exact ih (done ++ [a]) (by simp [← split]) (step done a b next leading start stepped) folded

/-- A fold in `Option` succeeds, with an invariant that may name the elements already folded,
when each step from the invariant succeeds and keeps it. -/
theorem foldlM_option_exists {f : β → α → Option β} (P : List α → β → Prop) (l : List α)
    (step : ∀ done a b, done ++ [a] <+: l → P done b → ∃ b', f b a = some b' ∧ P (done ++ [a]) b')
    {init : β} (start : P [] init) : ∃ result, l.foldlM f init = some result ∧ P l result := by
  -- generalise over the part of the list already folded
  suffices general : ∀ (rest done : List α) {b : β}, done ++ rest = l → P done b →
      ∃ result, rest.foldlM f b = some result ∧ P l result from
    general l [] rfl start
  intro rest
  induction rest with
  | nil =>
    intro done b split start
    exact ⟨b, rfl, by simpa [← split] using start⟩
  | cons a rest ih =>
    intro done b split start
    have leading : done ++ [a] <+: l := ⟨rest, by simp [← split]⟩
    obtain ⟨next, stepped, kept⟩ := step done a b leading start
    rw [List.foldlM_cons, stepped]
    exact ih (done ++ [a]) (by simp [← split]) kept

theorem foldlM_option_eq_some_foldl {f : β → α → Option β} {g : β → α → β} {l : List α}
    (each : ∀ b, ∀ a ∈ l, f b a = some (g b a)) (init : β) : l.foldlM f init = some (l.foldl g init) := by
  induction l generalizing init with
  | nil => rfl
  | cons a rest ih =>
    rw [List.foldlM_cons, each init a List.mem_cons_self, List.foldl_cons]
    exact ih (fun b a' member => each b a' (List.mem_cons_of_mem a member)) _

theorem mem_of_mapM_option_eq_some {f : α → Option β} {l : List α} {bs : List β}
    (ran : l.mapM f = some bs) {b : β} : b ∈ bs ↔ ∃ a ∈ l, f a = some b := by
  induction l generalizing bs with
  | nil =>
    cases ran
    simp
  | cons a rest ih =>
    simp only [List.mapM_cons, Option.bind_eq_bind, Option.bind_eq_some_iff, Option.pure_def,
      Option.some.injEq] at ran
    obtain ⟨b', first, bs', others, rfl⟩ := ran
    rw [List.mem_cons, ih others, List.exists_mem_cons_iff, first, Option.some.injEq, eq_comm]

theorem mapM_option_isSome {f : α → Option β} {l : List α} (total : ∀ a ∈ l, (f a).isSome) :
    (l.mapM f).isSome := by
  induction l with
  | nil => rfl
  | cons a rest ih =>
    obtain ⟨b, first⟩ := Option.isSome_iff_exists.mp (total a List.mem_cons_self)
    obtain ⟨bs, others⟩ := Option.isSome_iff_exists.mp (ih fun a' member => total a' (List.mem_cons_of_mem a member))
    simp [List.mapM_cons, first, others]

theorem filterMap_range_getElem? (l : List α) : (List.range l.length).filterMap (l[·]?) = l := by
  induction l using List.reverseRecOn with
  | nil => rfl
  | append_singleton l x ih =>
    have earlier : (List.range l.length).filterMap ((l ++ [x])[·]?) = (List.range l.length).filterMap (l[·]?) :=
      List.filterMap_congr fun i member => List.getElem?_append_left (List.mem_range.mp member)
    rw [List.length_append, List.length_singleton, List.range_succ, List.filterMap_append, earlier, ih]
    simp

theorem mapM_option_eq_some_map {f : α → Option β} {g : α → β} {l : List α} (each : ∀ a ∈ l, f a = some (g a)) :
    l.mapM f = some (l.map g) := by
  induction l with
  | nil => rfl
  | cons a rest ih =>
    simp [List.mapM_cons, each a List.mem_cons_self, ih fun a' member => each a' (List.mem_cons_of_mem a member)]

theorem mapM_range'_getElem? (l : List α) (start : Nat) :
    ((List.range' start (l.length - start)).map (l[·]?)).mapM id = some (l.drop start) := by
  suffices general : ∀ n first, first + n = l.length →
      ((List.range' first n).map (l[·]?)).mapM id = some (l.drop first) by
    rcases Nat.le_total start l.length with within | beyond
    · exact general _ start (by omega)
    · simp [Nat.sub_eq_zero_of_le beyond, List.drop_eq_nil_of_le beyond]
  intro n
  induction n with
  | zero =>
    intro first sum
    simp [List.drop_eq_nil_of_le (show l.length ≤ first by omega)]
  | succ n ih =>
    intro first sum
    have inside : first < l.length := by omega
    have rest := ih (first + 1) (by omega)
    rw [List.range'_succ, List.map_cons, List.mapM_cons, rest, List.getElem?_eq_getElem inside,
      List.drop_eq_getElem_cons inside]
    rfl

theorem mem_of_filterMapM_option_eq_some {f : α → Option (Option β)} {l : List α} {bs : List β}
    (ran : l.filterMapM f = some bs) {b : β} : b ∈ bs ↔ ∃ a ∈ l, f a = some (some b) := by
  induction l generalizing bs with
  | nil =>
    cases ran
    simp
  | cons a rest ih =>
    rw [List.exists_mem_cons_iff]
    simp only [List.filterMapM_cons, Option.bind_eq_bind, Option.bind_eq_some_iff] at ran
    obtain ⟨first, stepped, ran⟩ := ran
    cases first with
    | none =>
      rw [ih ran, stepped]
      simp
    | some b' =>
      simp only [Option.pure_def, Option.bind_eq_some_iff, Option.some.injEq] at ran
      obtain ⟨bs', others, rfl⟩ := ran
      rw [List.mem_cons, ih others, stepped, Option.some.injEq, Option.some.injEq, eq_comm]

theorem filterMapM_option_isSome {f : α → Option (Option β)} {l : List α} (total : ∀ a ∈ l, (f a).isSome) :
    (l.filterMapM f).isSome := by
  induction l with
  | nil => rfl
  | cons a rest ih =>
    obtain ⟨b, first⟩ := Option.isSome_iff_exists.mp (total a List.mem_cons_self)
    obtain ⟨bs, others⟩ := Option.isSome_iff_exists.mp (ih fun a' member => total a' (List.mem_cons_of_mem a member))
    cases b <;> simp [List.filterMapM_cons, first, others]

end FoldOption
