import Mathlib.Logic.Relation
import Mathlib.Tactic.SplitIfs

/-!
`HeaderIndexView` (`ckb-shared::types`) and its skip list. Every header may carry the hash of its
ancestor at `get_skip_height(number)`, set by `build_skip`, and `get_ancestor` walks from a header
down to a lower number by skip jumps and parent steps, stopping early when the fast scanner knows
the answer. The store is read through `get_header_view`, whose flag says where to look first.

Heights are `u64` in the source and cast to `i64` by `get_skip_height`; below `2^63` the casts
are the identity, which is the range modelled here. Each turn of the walk lowers `number_walk`, so
the `while` loop runs on fuel of `self.number - number` turns, all it can take.
-/

namespace Ckb

structure HeaderIndexView (H : Type) where
  hash : H
  number : Nat
  parentHash : H
  skipHash : Option H
deriving DecidableEq, Repr

/-- `invert_lowest_one`: the lowest set bit turned off. -/
def invertLowestOne (n : Nat) : Nat := n &&& (n - 1)

def getSkipHeight (height : Nat) : Nat :=
  if height < 2 then 0
  else if height &&& 1 > 0 then invertLowestOne (invertLowestOne (height - 1)) + 1
  else invertLowestOne height

namespace HeaderIndexView

variable {H : Type} (tipNumber number : Nat) (getHeaderView : H → Bool → Option (HeaderIndexView H))
  (fastScanner : Nat → Nat × H → Option (HeaderIndexView H))

/-- One turn of the walk: a skip jump when the skip height is the target, or is above it and the
previous height's skip does not land closer above it; a parent step otherwise. -/
def walkStep (current : HeaderIndexView H) (numberWalk : Nat) : Option (HeaderIndexView H × Nat) :=
  let numberSkip := getSkipHeight numberWalk
  let numberSkipPrev := getSkipHeight (numberWalk - 1)
  let storeFirst := decide (current.number ≤ tipNumber)
  match current.skipHash with
  | some hash =>
    if numberSkip = number ∨ (numberSkip > number ∧ ¬(numberSkipPrev + 2 < numberSkip ∧ numberSkipPrev ≥ number)) then
      (getHeaderView hash storeFirst).map (·, numberSkip)
    else (getHeaderView current.parentHash storeFirst).map (·, numberWalk - 1)
  | none => (getHeaderView current.parentHash storeFirst).map (·, numberWalk - 1)

/-- The `while number_walk > number` loop; `none` is a missing header, or no fuel left. -/
def walk : Nat → HeaderIndexView H → Nat → Option (HeaderIndexView H)
  | fuel, current, numberWalk =>
    if numberWalk > number then
      match fuel with
      | 0 => none
      | fuel + 1 => do
        let (current, numberWalk) ← walkStep tipNumber number getHeaderView current numberWalk
        match fastScanner number (current.number, current.hash) with
        | some target => some target
        | none => walk fuel current numberWalk
    else some current

def getAncestor (self : HeaderIndexView H) : Option (HeaderIndexView H) :=
  if number > self.number then none
  else walk tipNumber number getHeaderView fastScanner (self.number - number) self self.number

/-- `build_skip`: the skip hash is the hash of the ancestor at the skip height, if it is found. -/
def buildSkip (self : HeaderIndexView H) : HeaderIndexView H :=
  if self.number = 0 then self
  else { self with
    skipHash := (getAncestor tipNumber (getSkipHeight self.number) getHeaderView fastScanner self).map (·.hash) }

end HeaderIndexView

theorem invertLowestOne_lt {n : Nat} (positive : 0 < n) : invertLowestOne n < n :=
  Nat.lt_of_le_of_lt Nat.and_le_right (by omega)

theorem invertLowestOne_le (n : Nat) : invertLowestOne n ≤ n := Nat.and_le_left

theorem getSkipHeight_lt {height : Nat} (positive : 0 < height) : getSkipHeight height < height := by
  unfold getSkipHeight
  split_ifs with small odd
  · exact positive
  · -- an odd height above 2 drops two bits of `height - 1`, an even one its lowest bit
    have twice := invertLowestOne_le (invertLowestOne (height - 1))
    have once := invertLowestOne_lt (show 0 < height - 1 by omega)
    omega
  · exact invertLowestOne_lt positive

end Ckb
