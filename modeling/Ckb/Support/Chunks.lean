import Mathlib.Data.List.Basic

/-!
Splitting a list into consecutive pieces of a given size, the last one possibly shorter, as
`slice::chunks` does. The pieces put back together give the list, and none is longer than the size.
-/

namespace List

variable {α : Type*}

/-- `slice::chunks` for a positive size; a size of zero, where the slice method panics, gives
pieces of one element. -/
def chunks (size : Nat) : List α → List (List α)
  | [] => []
  | a :: rest => (a :: rest.take (size - 1)) :: chunks size (rest.drop (size - 1))
termination_by l => l.length
decreasing_by
  rw [List.length_drop, List.length_cons]
  omega

@[simp] theorem chunks_nil (size : Nat) : chunks size ([] : List α) = [] := by
  rw [chunks]

theorem chunks_cons (size : Nat) (a : α) (rest : List α) :
    chunks size (a :: rest) = (a :: rest.take (size - 1)) :: chunks size (rest.drop (size - 1)) := by
  rw [chunks]

@[simp] theorem flatten_chunks (size : Nat) (l : List α) : (chunks size l).flatten = l := by
  induction l using chunks.induct size with
  | case1 => rw [chunks_nil, flatten_nil]
  | case2 a rest ih => rw [chunks_cons, flatten_cons, ih, cons_append, take_append_drop]

theorem length_le_of_mem_chunks {size : Nat} (positive : 0 < size) {l piece : List α}
    (member : piece ∈ chunks size l) : piece.length ≤ size := by
  induction l using chunks.induct size with
  | case1 => simp at member
  | case2 a rest ih =>
    rw [chunks_cons, mem_cons] at member
    rcases member with rfl | later
    · rw [length_cons, length_take]
      omega
    · exact ih later

end List
