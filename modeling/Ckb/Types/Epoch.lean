import Mathlib.Algebra.Order.Field.Rat

/-!
`EpochNumberWithFraction` (`ckb_types::core::extras`): one `u64` packing the epoch number in its
low 24 bits, the block's index in the epoch in the next 16 and the epoch length in the 16 above
them. Its rational value is `number + index / length`; `to_rational` panics on a nonzero value of
length 0, which is `none` here.
-/

namespace Ckb

structure EpochNumberWithFraction where
  fullValue : Nat
deriving DecidableEq, Repr

namespace EpochNumberWithFraction

def numberOffset : Nat := 0
def numberBits : Nat := 24
def numberMask : Nat := 2 ^ numberBits - 1
def indexOffset : Nat := numberBits
def indexBits : Nat := 16
def indexMask : Nat := 2 ^ indexBits - 1
def lengthOffset : Nat := numberBits + indexBits
def lengthBits : Nat := 16
def lengthMask : Nat := 2 ^ lengthBits - 1

def newUnchecked (number index length : Nat) : EpochNumberWithFraction :=
  ⟨(length <<< lengthOffset) ||| (index <<< indexOffset) ||| (number <<< numberOffset)⟩

/-- `new`; its range checks are `debug_assert!`s, absent from release builds. -/
def new (number index length : Nat) : EpochNumberWithFraction :=
  newUnchecked number index length

def number (e : EpochNumberWithFraction) : Nat := (e.fullValue >>> numberOffset) &&& numberMask

def index (e : EpochNumberWithFraction) : Nat := (e.fullValue >>> indexOffset) &&& indexMask

def length (e : EpochNumberWithFraction) : Nat := (e.fullValue >>> lengthOffset) &&& lengthMask

/-- The epoch number a transaction reaches after `n` more blocks, at least: the next epoch once
`n` blocks take it past the current epoch's length. -/
def minimumEpochNumberAfterNBlocks (e : EpochNumberWithFraction) (n : Nat) : Nat :=
  if e.index + n ≥ e.length then e.number + 1 else e.number

def normalize (e : EpochNumberWithFraction) : EpochNumberWithFraction :=
  if e.length = 0 then new e.number 0 1 else e

/-- `to_rational`; `none` is the division by zero of a nonzero value with length 0. -/
def toRational (e : EpochNumberWithFraction) : Option ℚ :=
  if e.fullValue = 0 then some 0
  else if e.length = 0 then none
  else some ((e.index : ℚ) / e.length + e.number)

def isWellFormed (e : EpochNumberWithFraction) : Bool :=
  e.length > 0 && e.length > e.index

def isWellFormedIncrement (e : EpochNumberWithFraction) : Bool :=
  e.length > e.index || (e.length == 0 && e.index == 0)

def isGenesis (e : EpochNumberWithFraction) : Bool :=
  e.number == 0 && e.index == 0 && e.length == 0

/-- `is_successor_of`: the next block's epoch, in the next epoch after the last index of one. -/
def isSuccessorOf (e predecessor : EpochNumberWithFraction) : Bool :=
  if predecessor.index + 1 = predecessor.length then e.number == predecessor.number + 1 && e.index == 0
  else e.number == predecessor.number && e.index == predecessor.index + 1 && e.length == predecessor.length

theorem number_eq (e : EpochNumberWithFraction) : e.number = e.fullValue % 2 ^ 24 := by
  unfold number numberOffset numberMask
  rw [Nat.shiftRight_zero, Nat.and_two_pow_sub_one_eq_mod]
  rfl

theorem index_eq (e : EpochNumberWithFraction) : e.index = e.fullValue / 2 ^ 24 % 2 ^ 16 := by
  unfold index indexOffset indexMask
  rw [Nat.shiftRight_eq_div_pow, Nat.and_two_pow_sub_one_eq_mod]
  rfl

theorem length_eq (e : EpochNumberWithFraction) : e.length = e.fullValue / 2 ^ 40 % 2 ^ 16 := by
  unfold length lengthOffset lengthMask
  rw [Nat.shiftRight_eq_div_pow, Nat.and_two_pow_sub_one_eq_mod]
  rfl

theorem newUnchecked_fullValue {number index length : Nat} (hn : number < 2 ^ 24) (hi : index < 2 ^ 16) :
    (newUnchecked number index length).fullValue = length * 2 ^ 40 + index * 2 ^ 24 + number := by
  have low : index <<< 24 ||| number = index * 2 ^ 24 + number := by
    rw [← Nat.shiftLeft_add_eq_or_of_lt hn, Nat.shiftLeft_eq]
  have high : index * 2 ^ 24 + number < 2 ^ 40 := by omega
  simp only [newUnchecked, lengthOffset, indexOffset, numberOffset, numberBits, indexBits,
    Nat.shiftLeft_zero, Nat.reduceAdd]
  rw [Nat.or_assoc, low, ← Nat.shiftLeft_add_eq_or_of_lt high, Nat.shiftLeft_eq]
  omega

theorem number_newUnchecked {number index length : Nat} (hn : number < 2 ^ 24) (hi : index < 2 ^ 16) :
    (newUnchecked number index length).number = number := by
  rw [number_eq, newUnchecked_fullValue hn hi]
  omega

theorem index_newUnchecked {number index length : Nat} (hn : number < 2 ^ 24) (hi : index < 2 ^ 16) :
    (newUnchecked number index length).index = index := by
  rw [index_eq, newUnchecked_fullValue hn hi]
  omega

theorem length_newUnchecked {number index length : Nat} (hn : number < 2 ^ 24) (hi : index < 2 ^ 16)
    (hl : length < 2 ^ 16) : (newUnchecked number index length).length = length := by
  rw [length_eq, newUnchecked_fullValue hn hi]
  omega

theorem number_lt (e : EpochNumberWithFraction) : e.number < 2 ^ 24 := by
  rw [number_eq]
  omega

theorem isSuccessorOf_of_number_eq {e predecessor : EpochNumberWithFraction} (successor : e.isSuccessorOf predecessor)
    (same : e.number = predecessor.number) : e.index = predecessor.index + 1 ∧ e.length = predecessor.length := by
  unfold isSuccessorOf at successor
  split_ifs at successor with last
  · simp only [Bool.and_eq_true, beq_iff_eq] at successor
    omega
  · simp only [Bool.and_eq_true, beq_iff_eq] at successor
    exact ⟨successor.1.2, successor.2⟩

/-- A normalised value has a positive length, keeps its number, and has no fraction when it had
no length. -/
theorem normalize_fields (e : EpochNumberWithFraction) :
    e.normalize.number = e.number ∧ 0 < e.normalize.length ∧
      (e.length = 0 → e.normalize.index = 0 ∧ e.normalize.length = 1) := by
  unfold normalize
  split_ifs with empty
  · have hn := e.number_lt
    have one : (new e.number 0 1).length = 1 := length_newUnchecked hn (by decide) (by decide)
    refine ⟨number_newUnchecked hn (by decide), by omega, fun _ => ⟨index_newUnchecked hn (by decide), one⟩⟩
  · exact ⟨rfl, Nat.pos_of_ne_zero empty, fun zero => absurd zero empty⟩

theorem toRational_of_length_pos {e : EpochNumberWithFraction} (positive : 0 < e.length) :
    e.toRational = some ((e.index : ℚ) / e.length + e.number) := by
  have nonzero : e.fullValue ≠ 0 := by
    intro zero
    simp [length_eq, zero] at positive
  simp [toRational, nonzero, Nat.pos_iff_ne_zero.mp positive]

end EpochNumberWithFraction

end Ckb
