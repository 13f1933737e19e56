import Mathlib.Data.List.Nodup
import Mathlib.Logic.Function.Basic

/-!
A list of distinct keys together with a position for each key: the layout of a vector that
supports removing any key in constant time, by swapping it with the last key and popping.
`Places pos l` says that `pos` and the indices of `l` are inverse to each other. Swapping two
entries, pushing a new key and popping the last one keep this, with `pos` updated at the keys
that moved.
-/

namespace List

variable {α : Type*}

/-- `Vec::swap(i, j)`: the elements at `i` and `j` exchanged, the list unchanged out of range. -/
def swapIdx (l : List α) (i j : Nat) : List α :=
  match l[i]?, l[j]? with
  | some a, some b => (l.set i b).set j a
  | _, _ => l

theorem getElem?_swapIdx {l : List α} {i j : Nat} {a b : α} (hi : l[i]? = some a) (hj : l[j]? = some b)
    (k : Nat) : (l.swapIdx i j)[k]? = if k = j then some a else if k = i then some b else l[k]? := by
  have ilt : i < l.length := (getElem?_eq_some_iff.mp hi).1
  have jlt : j < l.length := (getElem?_eq_some_iff.mp hj).1
  unfold swapIdx
  rw [hi, hj]
  by_cases atJ : k = j
  · subst atJ
    simp [jlt]
  · by_cases atI : k = i
    · subst atI
      simp [Ne.symm atJ, atJ, ilt]
    · simp [Ne.symm atJ, Ne.symm atI, atJ, atI]

@[simp] theorem length_swapIdx (l : List α) (i j : Nat) : (l.swapIdx i j).length = l.length := by
  unfold swapIdx
  split <;> simp

theorem swapIdx_self (l : List α) (i : Nat) : l.swapIdx i i = l := by
  unfold swapIdx
  split
  · rename_i a b hi hj
    rw [hi] at hj
    cases hj
    rw [set_set]
    apply ext_getElem?
    intro k
    by_cases same : i = k
    · subst same
      rw [getElem?_set_self (getElem?_eq_some_iff.mp hi).1, hi]
    · rw [getElem?_set_ne same]
  · rfl

/-- `pos` gives each key of `l` its index, and nothing else a position. -/
structure Places (pos : α → Option Nat) (l : List α) : Prop where
  getElem?_pos : ∀ {a p}, pos a = some p → l[p]? = some a
  pos_getElem? : ∀ {p a}, l[p]? = some a → pos a = some p

namespace Places

variable {pos : α → Option Nat} {l : List α}

theorem pos_injective (places : Places pos l) {p q : Nat} {a : α} (hp : l[p]? = some a) (hq : l[q]? = some a) :
    p = q := by
  have atP := places.pos_getElem? hp
  rw [places.pos_getElem? hq] at atP
  exact (Option.some.inj atP).symm

theorem nodup (places : Places pos l) : l.Nodup := by
  rw [nodup_iff_getElem?_ne_getElem?]
  intro p q lt bound same
  obtain ⟨a, hq⟩ : ∃ a, l[q]? = some a := ⟨l[q], getElem?_eq_getElem bound⟩
  have := places.pos_injective (same ▸ hq) hq
  omega

theorem mem_iff (places : Places pos l) {a : α} : a ∈ l ↔ (pos a).isSome := by
  constructor
  · intro member
    obtain ⟨p, hp⟩ := mem_iff_getElem?.mp member
    simp [places.pos_getElem? hp]
  · intro placed
    obtain ⟨p, hp⟩ := Option.isSome_iff_exists.mp placed
    exact mem_of_getElem? (places.getElem?_pos hp)

theorem pos_lt (places : Places pos l) {a : α} {p : Nat} (hp : pos a = some p) : p < l.length :=
  (getElem?_eq_some_iff.mp (places.getElem?_pos hp)).1

variable [DecidableEq α]

theorem swapIdx (places : Places pos l) {i j : Nat} {a b : α} (hi : l[i]? = some a) (hj : l[j]? = some b) :
    Places (Function.update (Function.update pos a (some j)) b (some i)) (l.swapIdx i j) := by
  -- two keys at the same index are one key, and one key has one index
  have sameKey : i = j → a = b := by
    rintro rfl
    rw [hi] at hj
    exact Option.some.inj hj
  have sameIndex : a = b → i = j := by
    rintro rfl
    exact places.pos_injective hi hj
  constructor
  · intro c p placed
    rw [getElem?_swapIdx hi hj]
    by_cases isB : c = b
    · subst isB
      rw [Function.update_self, Option.some.injEq] at placed
      subst placed
      by_cases same : i = j
      · rw [if_pos same, sameKey same]
      · rw [if_neg same, if_pos rfl]
    · rw [Function.update_of_ne isB] at placed
      by_cases isA : c = a
      · subst isA
        rw [Function.update_self, Option.some.injEq] at placed
        rw [if_pos placed.symm]
      · rw [Function.update_of_ne isA] at placed
        have atP := places.getElem?_pos placed
        have notJ : p ≠ j := fun same => isB (Option.some.inj ((same ▸ atP).symm.trans hj))
        have notI : p ≠ i := fun same => isA (Option.some.inj ((same ▸ atP).symm.trans hi))
        rw [if_neg notJ, if_neg notI, atP]
  · intro p c found
    rw [getElem?_swapIdx hi hj] at found
    by_cases atJ : p = j
    · rw [if_pos atJ, Option.some.injEq] at found
      subst found atJ
      by_cases isB : a = b
      · rw [isB, Function.update_self, sameIndex isB]
      · rw [Function.update_of_ne isB, Function.update_self]
    · rw [if_neg atJ] at found
      by_cases atI : p = i
      · rw [if_pos atI, Option.some.injEq] at found
        subst found atI
        rw [Function.update_self]
      · rw [if_neg atI] at found
        have isA : c ≠ a := fun same => atI (places.pos_injective found (same ▸ hi))
        have isB : c ≠ b := fun same => atJ (places.pos_injective found (same ▸ hj))
        rw [Function.update_of_ne isB, Function.update_of_ne isA, places.pos_getElem? found]

theorem push (places : Places pos l) {a : α} (fresh : pos a = none) :
    Places (Function.update pos a (some l.length)) (l ++ [a]) := by
  constructor
  · intro c p placed
    by_cases isA : c = a
    · subst isA
      rw [Function.update_self, Option.some.injEq] at placed
      rw [← placed, getElem?_concat_length]
    · rw [Function.update_of_ne isA] at placed
      rw [getElem?_append_left (places.pos_lt placed), places.getElem?_pos placed]
  · intro p c found
    rcases Nat.lt_or_ge p l.length with inside | outside
    · rw [getElem?_append_left inside] at found
      have isA : c ≠ a := by
        rintro rfl
        rw [places.pos_getElem? found] at fresh
        cases fresh
      rw [Function.update_of_ne isA, places.pos_getElem? found]
    · rw [getElem?_append_right outside] at found
      have atEnd : p - l.length = 0 := by
        by_contra nonzero
        rw [getElem?_singleton, if_neg nonzero] at found
        cases found
      rw [atEnd, getElem?_singleton, if_pos rfl, Option.some.injEq] at found
      subst found
      rw [Function.update_self]
      congr
      omega

theorem pop (places : Places pos l) {a : α} (last : l[l.length - 1]? = some a) :
    Places (Function.update pos a none) l.dropLast := by
  constructor
  · intro c p placed
    by_cases isA : c = a
    · subst isA
      rw [Function.update_self] at placed
      cases placed
    · rw [Function.update_of_ne isA] at placed
      have atP := places.getElem?_pos placed
      have notLast : p ≠ l.length - 1 := fun same => isA (Option.some.inj ((same ▸ atP).symm.trans last))
      have inside := places.pos_lt placed
      rw [getElem?_dropLast, if_pos (by omega), atP]
  · intro p c found
    rw [getElem?_dropLast] at found
    split at found
    · rename_i inside
      have isA : c ≠ a := fun same => by
        have := places.pos_injective found (same ▸ last)
        omega
      rw [Function.update_of_ne isA, places.pos_getElem? found]
    · cases found

end Places

end List
