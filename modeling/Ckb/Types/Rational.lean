import Ckb.Types.Epoch

/-!
`RationalU256` (`util/rational`): a ratio of two `U256` values, kept as computed, not always in
lowest terms. Each `U256` operation that leaves `[0, 2^256)` (an overflowing sum or product, a
subtraction below zero) and each division by zero is `none`: the code does not define a result
there, and what follows concerns the calls where none happens. `gcd` is the greatest common
divisor of `numext_fixed_uint`, `Nat.gcd` here.
-/

namespace Ckb

-- the `U256` operations of the rational arithmetic
namespace U256

def bound : Nat := 2 ^ 256

def add (a b : Nat) : Option Nat := if a + b < bound then some (a + b) else none

def mul (a b : Nat) : Option Nat := if a * b < bound then some (a * b) else none

def sub (a b : Nat) : Option Nat := if b ≤ a then some (a - b) else none

def div (a b : Nat) : Option Nat := if b = 0 then none else some (a / b)

end U256

structure RationalU256 where
  numer : Nat
  denom : Nat
  deriving DecidableEq, Repr

namespace RationalU256

def newRaw (numer denom : Nat) : RationalU256 := ⟨numer, denom⟩

def zero : RationalU256 := ⟨0, 1⟩

def one : RationalU256 := ⟨1, 1⟩

/-- `reduce`: both parts divided by their `gcd`. -/
def reduce (r : RationalU256) : Option RationalU256 := do
  let g := Nat.gcd r.numer r.denom
  let numer ← U256.div r.numer g
  let denom ← U256.div r.denom g
  some ⟨numer, denom⟩

/-- `new`: panics on a zero denominator, and reduces. -/
def new (numer denom : Nat) : Option RationalU256 :=
  if denom = 0 then none else reduce ⟨numer, denom⟩

def isZero (r : RationalU256) : Bool := r.numer = 0

/-- `into_u256`: rounded down. -/
def intoU256 (r : RationalU256) : Option Nat := U256.div r.numer r.denom

/-- The two numerators scaled to `lcm` of the denominators, with `lcm`, as `add`, `sub` and
`saturating_sub` compute them for different denominators. -/
def crossScale (a b : RationalU256) : Option (Nat × Nat × Nat) := do
  let gcd := Nat.gcd a.denom b.denom
  let lcm ← U256.mul a.denom (← U256.div b.denom gcd)
  let lhsNumer ← U256.mul a.numer (← U256.div lcm a.denom)
  let rhsNumer ← U256.mul b.numer (← U256.div lcm b.denom)
  some (lhsNumer, rhsNumer, lcm)

/-- `saturating_sub`: zero when the subtraction of the numerators overflows. -/
def saturatingSub (a b : RationalU256) : Option RationalU256 :=
  if a.denom = b.denom then
    if a.numer < b.numer then some zero else new (a.numer - b.numer) a.denom
  else do
    let (lhsNumer, rhsNumer, lcm) ← crossScale a b
    if lhsNumer < rhsNumer then some zero else new (lhsNumer - rhsNumer) lcm

/-- `saturating_sub_u256`: the numerator less `denom * rhs`, zero when that overflows; not
reduced. -/
def saturatingSubU256 (a : RationalU256) (rhs : Nat) : Option RationalU256 := do
  let scaled ← U256.mul a.denom rhs
  if a.numer < scaled then some zero else some (newRaw (a.numer - scaled) a.denom)

def mul (a b : RationalU256) : Option RationalU256 := do
  let gcdAd := Nat.gcd a.numer b.denom
  let gcdBc := Nat.gcd a.denom b.numer
  let numer ← U256.mul (← U256.div a.numer gcdAd) (← U256.div b.numer gcdBc)
  let denom ← U256.mul (← U256.div a.denom gcdBc) (← U256.div b.denom gcdAd)
  some (newRaw numer denom)

/-- `a/b * c/1 = (a*c) / b`, with `gcd(b, c)` cancelled first. -/
def mulU256 (a : RationalU256) (rhs : Nat) : Option RationalU256 := do
  let gcd := Nat.gcd a.denom rhs
  let numer ← U256.mul a.numer (← U256.div rhs gcd)
  let denom ← U256.div a.denom gcd
  some (newRaw numer denom)

def div (a b : RationalU256) : Option RationalU256 := do
  let gcdAc := Nat.gcd a.numer b.numer
  let gcdBd := Nat.gcd a.denom b.denom
  let numer ← U256.mul (← U256.div a.numer gcdAc) (← U256.div b.denom gcdBd)
  let denom ← U256.mul (← U256.div a.denom gcdBd) (← U256.div b.numer gcdAc)
  some (newRaw numer denom)

/-- `(a/b) / (c/1) = a / (b*c)`, with `gcd(a, c)` cancelled first. -/
def divU256 (a : RationalU256) (rhs : Nat) : Option RationalU256 := do
  let gcd := Nat.gcd a.numer rhs
  let numer ← U256.div a.numer gcd
  let denom ← U256.mul a.denom (← U256.div rhs gcd)
  some (newRaw numer denom)

/-- `add`: the numerators added over a shared denominator, or over the `lcm`, then reduced. -/
def add (a b : RationalU256) : Option RationalU256 :=
  if a.denom = b.denom then do
    new (← U256.add a.numer b.numer) a.denom
  else do
    let (lhsNumer, rhsNumer, lcm) ← crossScale a b
    new (← U256.add lhsNumer rhsNumer) lcm

/-- `a/b + c = (a + b*c) / b`, not reduced. -/
def addU256 (a : RationalU256) (rhs : Nat) : Option RationalU256 := do
  let numer ← U256.add a.numer (← U256.mul a.denom rhs)
  some (newRaw numer a.denom)

/-- `sub`: as `add`, with the numerators subtracted. -/
def sub (a b : RationalU256) : Option RationalU256 :=
  if a.denom = b.denom then do
    new (← U256.sub a.numer b.numer) a.denom
  else do
    let (lhsNumer, rhsNumer, lcm) ← crossScale a b
    new (← U256.sub lhsNumer rhsNumer) lcm

/-- `a/b - c = (a - b*c) / b`, not reduced. -/
def subU256 (a : RationalU256) (rhs : Nat) : Option RationalU256 := do
  let numer ← U256.sub a.numer (← U256.mul a.denom rhs)
  some (newRaw numer a.denom)

/-- `Ord for RationalU256`: the numerators compared over the `lcm` of the denominators. -/
def cmp (a b : RationalU256) : Option Ordering := do
  let gcd := Nat.gcd a.denom b.denom
  let lhs ← U256.mul a.numer (← U256.div b.denom gcd)
  let rhs ← U256.mul b.numer (← U256.div a.denom gcd)
  some (compare lhs rhs)

/-- The number a ratio denotes. -/
def value (r : RationalU256) : ℚ := (r.numer : ℚ) / r.denom

end RationalU256

namespace EpochNumberWithFraction

/-- `Ord for EpochNumberWithFraction`: the number first, then `index * other.length` against
`other.index * length`. -/
def cmp (x y : EpochNumberWithFraction) : Ordering :=
  match compare x.number y.number with
  | .lt => .lt
  | .gt => .gt
  | .eq => compare (x.index * y.length) (y.index * x.length)

/-- `to_rational` as the code computes it: `RationalU256::new(index, length) + number`, and zero
for the zero value. -/
def toRationalU256 (e : EpochNumberWithFraction) : Option RationalU256 :=
  if e.fullValue = 0 then some RationalU256.zero
  else do
    let fraction ← RationalU256.new e.index e.length
    fraction.addU256 e.number

end EpochNumberWithFraction

end Ckb
