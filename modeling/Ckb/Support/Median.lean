import Mathlib.Order.Basic
import Mathlib.Data.List.Sort

/-!
Upper medians of lists, by counting: `m` is an upper median of `l` when at most half of `l`
(rounded down) lies below `m` and more than that lies at or below it. The element at index
`length / 2` of the sorted list is one, and a value is at most an upper median exactly when at most
half of the list lies below the value. From that: a list that drops at most its oldest element and
gains one above its upper median does not lower it.
-/

variable {α : Type*} [LinearOrder α]

def IsUpperMedian (l : List α) (m : α) : Prop :=
  l.countP (fun x => decide (x < m)) ≤ l.length / 2 ∧ l.length / 2 < l.countP fun x => decide (x ≤ m)

namespace IsUpperMedian

variable {l : List α} {m : α}

theorem le_iff (median : IsUpperMedian l m) (t : α) :
    t ≤ m ↔ l.countP (fun x => decide (x < t)) ≤ l.length / 2 := by
  constructor
  · intro below
    have fewer : l.countP (fun x => decide (x < t)) ≤ l.countP (fun x => decide (x < m)) :=
      List.countP_mono_left fun x _ lower => by
        simp only [decide_eq_true_eq] at lower ⊢
        exact lt_of_lt_of_le lower below
    exact fewer.trans median.1
  · intro few
    by_contra above
    have more : l.countP (fun x => decide (x ≤ m)) ≤ l.countP (fun x => decide (x < t)) :=
      List.countP_mono_left fun x _ lower => by
        simp only [decide_eq_true_eq] at lower ⊢
        exact lt_of_le_of_lt lower (lt_of_not_ge above)
    have := median.2
    omega

/-- A list that keeps all but at most one element and gains one above the upper median keeps the
upper median from falling. -/
theorem le_of_cons {rest : List α} {x m' : α} (median : IsUpperMedian l m) (sub : rest.Sublist l)
    (long : l.length ≤ rest.length + 1) (above : m < x) (median' : IsUpperMedian (x :: rest) m') : m ≤ m' := by
  apply (median'.le_iff m).mpr
  have kept : rest.countP (fun y => decide (y < m)) ≤ l.countP (fun y => decide (y < m)) := sub.countP_le
  have half := (median.le_iff m).mp le_rfl
  rw [List.countP_cons_of_neg (by simpa using above.le), List.length_cons]
  omega

end IsUpperMedian

theorem isUpperMedian_mergeSort {l : List α} (nonempty : l ≠ []) :
    ∃ m, (l.mergeSort)[(l.mergeSort).length / 2]? = some m ∧ IsUpperMedian l m := by
  set sorted := l.mergeSort with sortedDef
  have perm : sorted.Perm l := List.mergeSort_perm l _
  have ordered : sorted.Pairwise (· ≤ ·) := by
    have sortedBool : sorted.Pairwise fun a b => decide (a ≤ b) = true := List.pairwise_mergeSort
      (fun a b c ab bc => by simp only [decide_eq_true_eq] at *; exact le_trans ab bc)
      (fun a b => by simpa using le_total a b) l
    simpa using sortedBool
  have positive : 0 < sorted.length := by
    rw [perm.length_eq]
    exact List.length_pos_of_ne_nil nonempty
  have middle : sorted.length / 2 < sorted.length := Nat.div_lt_self positive (by decide)
  refine ⟨sorted[sorted.length / 2], List.getElem?_eq_getElem middle, ?_⟩
  -- the sorted list is its first half, the median, and the rest
  set k := sorted.length / 2
  set m := sorted[k]
  set rest := sorted.drop (k + 1)
  have split : sorted = sorted.take k ++ m :: rest := by
    have whole := List.take_append_drop k sorted
    rw [List.drop_eq_getElem_cons middle] at whole
    exact whole.symm
  have halves := ordered
  rw [split, List.pairwise_append] at halves
  obtain ⟨-, tail, across⟩ := halves
  have lower : ∀ a ∈ sorted.take k, a ≤ m := fun a member => across a member _ List.mem_cons_self
  have upper : ∀ b ∈ rest, m ≤ b := (List.pairwise_cons.mp tail).1
  have firstHalf : (sorted.take k).length = k := List.length_take_of_le middle.le
  have noneAbove : rest.countP (fun x => decide (x < m)) = 0 :=
    List.countP_eq_zero.mpr fun b member => by simpa using upper b member
  have allBelow : (sorted.take k).countP (fun x => decide (x ≤ m)) = k := by
    rw [List.countP_eq_length.mpr fun a member => by simpa using lower a member, firstHalf]
  have atMost : (sorted.take k).countP (fun x => decide (x < m)) ≤ k :=
    List.countP_le_length.trans firstHalf.le
  have fewBelow : sorted.countP (fun x => decide (x < m)) ≤ k := by
    rw [split, List.countP_append, List.countP_cons_of_neg (by simp), noneAbove]
    omega
  have manyAtOrBelow : k < sorted.countP (fun x => decide (x ≤ m)) := by
    rw [split, List.countP_append, List.countP_cons_of_pos (by simp), allBelow]
    omega
  unfold IsUpperMedian
  rw [← perm.countP_eq, ← perm.countP_eq, ← perm.length_eq]
  exact ⟨fewBelow, manyAtOrBelow⟩
