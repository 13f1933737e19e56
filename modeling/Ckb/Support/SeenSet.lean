import Mathlib.Data.Finset.Insert
import Mathlib.Data.List.Infix

/-!
Duplicate detection with a set of the items seen so far, as code does it with a hash set:
`findReplaced` is `iter().find_map(|x| seen.replace(x))`, which stops at the first item already in
the set and returns it. Started from the empty set, it finds a duplicate exactly when the list has
one, and the item it returns is the first that repeats an earlier one. (`allInsert`, the walk of
`iter().all(|x| seen.insert(x))`, is in `Support/FiniteMap`.)
-/

namespace SeenSet

variable {α : Type*} [DecidableEq α]

def findReplaced (seen : Finset α) : List α → Option α
  | [] => none
  | x :: xs => if x ∈ seen then some x else findReplaced (insert x seen) xs

/-- The items before the first duplicate: distinct, and none of them seen before. -/
def Fresh (seen : Finset α) (xs : List α) : Prop := xs.Nodup ∧ ∀ x ∈ xs, x ∉ seen

theorem fresh_cons {seen : Finset α} {x : α} {xs : List α} :
    Fresh seen (x :: xs) ↔ x ∉ seen ∧ Fresh (insert x seen) xs := by
  simp only [Fresh, List.nodup_cons, List.mem_cons, forall_eq_or_imp, Finset.mem_insert, not_or]
  constructor
  · rintro ⟨⟨notLater, nodup⟩, notSeen, others⟩
    exact ⟨notSeen, nodup, fun y mem => ⟨fun same => notLater (same ▸ mem), others y mem⟩⟩
  · rintro ⟨notSeen, nodup, others⟩
    exact ⟨⟨fun mem => (others x mem).1 rfl, nodup⟩, notSeen, fun y mem => (others y mem).2⟩

theorem findReplaced_eq_none_iff (seen : Finset α) (xs : List α) : findReplaced seen xs = none ↔ Fresh seen xs := by
  induction xs generalizing seen with
  | nil => simp [findReplaced, Fresh]
  | cons x xs ih =>
    rw [findReplaced, fresh_cons]
    by_cases old : x ∈ seen
    · simp [old]
    · rw [if_neg old, ih]
      exact (and_iff_right old).symm

theorem findReplaced_eq_some_iff (seen : Finset α) (xs : List α) (x : α) :
    findReplaced seen xs = some x ↔
      ∃ before after, xs = before ++ x :: after ∧ Fresh seen before ∧ (x ∈ before ∨ x ∈ seen) := by
  induction xs generalizing seen with
  | nil => simp [findReplaced]
  | cons y ys ih =>
    rw [findReplaced]
    by_cases old : y ∈ seen
    · -- nothing comes before an item already seen
      rw [if_pos old, Option.some_inj]
      constructor
      · rintro rfl
        exact ⟨[], ys, rfl, ⟨List.nodup_nil, fun _ mem => absurd mem List.not_mem_nil⟩, Or.inr old⟩
      · rintro ⟨before, after, split, fresh, repeated⟩
        cases before with
        | nil => exact (List.cons.inj split).1
        | cons z before =>
          obtain ⟨same, -⟩ := List.cons.inj split
          exact absurd (same ▸ old) (fresh_cons.mp fresh).1
    · rw [if_neg old, ih]
      constructor
      · rintro ⟨before, after, split, fresh, repeated⟩
        refine ⟨y :: before, after, by rw [split, List.cons_append], fresh_cons.mpr ⟨old, fresh⟩, ?_⟩
        rw [Finset.mem_insert] at repeated
        rcases repeated with earlier | same | seenBefore
        · exact Or.inl (List.mem_cons_of_mem y earlier)
        · exact Or.inl (same ▸ List.mem_cons_self)
        · exact Or.inr seenBefore
      · rintro ⟨before, after, split, fresh, repeated⟩
        cases before with
        | nil =>
          obtain ⟨same, -⟩ := List.cons.inj split
          rcases repeated with nowhere | seenBefore
          · exact absurd nowhere List.not_mem_nil
          · exact absurd (same ▸ seenBefore) old
        | cons z before =>
          obtain ⟨same, rest⟩ := List.cons.inj split
          subst same
          refine ⟨before, after, rest, (fresh_cons.mp fresh).2, ?_⟩
          rw [Finset.mem_insert]
          rcases repeated with earlier | seenBefore
          · rcases List.mem_cons.mp earlier with same | later
            · exact Or.inr (Or.inl same)
            · exact Or.inl later
          · exact Or.inr (Or.inr seenBefore)

omit [DecidableEq α] in
theorem fresh_empty {xs : List α} : Fresh ∅ xs ↔ xs.Nodup := by
  simp [Fresh]

theorem sublist_of_findReplaced {xs : List α} {x : α} (found : findReplaced ∅ xs = some x) :
    List.Sublist [x, x] xs := by
  obtain ⟨before, after, split, -, repeated⟩ := (findReplaced_eq_some_iff ∅ xs x).mp found
  have earlier : List.Sublist [x] before := List.singleton_sublist.mpr (repeated.resolve_right (Finset.notMem_empty x))
  rw [split]
  exact List.Sublist.append earlier (List.Sublist.cons_cons x (List.nil_sublist after))

end SeenSet
