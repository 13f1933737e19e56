import Ckb.Types.Block

/-!
The compact target of a header (`ckb_types::utilities::difficulty`): a 32-bit float with an 8-bit
exponent of base 256 and a 24-bit mantissa, decoded to a 256-bit target and inverted to a
difficulty. `U256` values are natural numbers below `2 ^ 256`, with the left shift truncated as the
source's is.
-/

namespace Ckb

/-- `compact_to_target`: the target and whether the exponent overflowed. -/
def compactToTarget (compact : Nat) : Nat × Bool :=
  let exponent := compact >>> 24
  let mantissa := compact &&& 0x00ffffff
  if exponent ≤ 3 then
    (mantissa >>> (8 * (3 - exponent)), false)
  else
    ((mantissa <<< (8 * (exponent - 3))) % 2 ^ 256, mantissa != 0 && exponent > 32)

def targetToDifficulty (target : Nat) : Nat :=
  if target = 1 then 2 ^ 256 - 1 else 2 ^ 256 / target

def compactToDifficulty (compact : Nat) : Nat :=
  let targetAndOverflow := compactToTarget compact
  if targetAndOverflow.1 = 0 || targetAndOverflow.2 then 0 else targetToDifficulty targetAndOverflow.1

def Header.difficulty {H : Type} (header : Header H) : Nat := compactToDifficulty header.compactTarget

theorem targetToDifficulty_lt (target : Nat) : targetToDifficulty target < 2 ^ 256 := by
  unfold targetToDifficulty
  split_ifs with one
  · omega
  · rcases Nat.eq_zero_or_pos target with zero | positive
    · simp [zero]
    · exact Nat.div_lt_self (Nat.two_pow_pos 256) (by omega)

end Ckb
