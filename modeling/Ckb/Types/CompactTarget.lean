import Mathlib.Data.Nat.Size
import Ckb.Types.Difficulty

/-!
The encoding direction of the compact target (`ckb_types::utilities::difficulty`): a difficulty
inverted to a 256-bit target, and the target packed into 32 bits with the number of its bytes as
the exponent and its top three bytes as the mantissa. `U256::leading_zeros` counts from bit 256,
so it is `256 - size` for a value below `2 ^ 256`.

Decoding what `target_to_compact` encodes gives the target with all but its top 24 bits cleared.
The target is rounded down, and so the difficulty decoded from `difficulty_to_compact(d)` is at
least `d`.
-/

namespace Ckb

variable {target difficulty : Nat}

def leadingZeros (target : Nat) : Nat := 256 - target.size

/-- `get_low64`: the lowest 64-bit limb. -/
def getLow64 (target : Nat) : Nat := target % 2 ^ 64

/-- `target_to_compact`: the exponent and the mantissa in a `u64`, truncated to `u32` at the end. -/
def targetToCompact (target : Nat) : Nat :=
  let bits := 256 - leadingZeros target
  let exponent := (bits + 7) / 8
  let compact :=
    if exponent ≤ 3 then (getLow64 target <<< (8 * (3 - exponent))) % 2 ^ 64
    else getLow64 (target >>> (8 * (exponent - 3)))
  (compact ||| (exponent <<< 24)) % 2 ^ 32

/-- `difficulty_to_target`: `2^256 / difficulty` in `U512`, truncated to `U256`; a zero difficulty
divides by zero. -/
def difficultyToTarget (difficulty : Nat) : Option Nat :=
  if difficulty = 1 then some (2 ^ 256 - 1)
  else if difficulty = 0 then none
  else some (2 ^ 256 / difficulty % 2 ^ 256)

def difficultyToCompact (difficulty : Nat) : Option Nat :=
  (difficultyToTarget difficulty).map targetToCompact

/-- The number of bytes of a target, the exponent of its compact form. -/
def byteLength (target : Nat) : Nat := (target.size + 7) / 8

/-- The bits below the mantissa: none for a target of at most three bytes. -/
def truncatedBits (target : Nat) : Nat := 8 * (byteLength target - 3)

/-- The target with the bits below its top three bytes cleared. -/
def truncateTarget (target : Nat) : Nat := target / 2 ^ truncatedBits target * 2 ^ truncatedBits target

theorem byteLength_le (bound : target < 2 ^ 256) : byteLength target ≤ 32 := by
  have size := Nat.size_le.mpr bound
  unfold byteLength
  omega

theorem lt_two_pow_byteLength (target : Nat) : target < 2 ^ (8 * byteLength target) := by
  apply Nat.size_le.mp
  unfold byteLength
  omega

theorem two_pow_truncatedBits_le (positive : 0 < target) : 2 ^ truncatedBits target ≤ target := by
  have top : 2 ^ (target.size - 1) ≤ target := by
    apply Nat.lt_size.mp
    have := Nat.size_pos.mpr positive
    omega
  have below : truncatedBits target ≤ target.size - 1 := by
    have := Nat.size_pos.mpr positive
    unfold truncatedBits byteLength
    omega
  exact le_trans (Nat.pow_le_pow_right (by decide) below) top

/-- The mantissa of the compact form: the top three bytes of the target, shifted up for a short
target. -/
theorem mantissa_lt (target : Nat) :
    (if byteLength target ≤ 3 then target * 2 ^ (8 * (3 - byteLength target))
      else target / 2 ^ truncatedBits target) < 2 ^ 24 := by
  have bound := lt_two_pow_byteLength target
  split_ifs with short
  · calc target * 2 ^ (8 * (3 - byteLength target))
        < 2 ^ (8 * byteLength target) * 2 ^ (8 * (3 - byteLength target)) :=
          Nat.mul_lt_mul_of_pos_right bound (Nat.two_pow_pos _)
      _ = 2 ^ 24 := by rw [← Nat.pow_add]; congr 1; omega
  · apply Nat.div_lt_of_lt_mul
    rw [← Nat.pow_add]
    convert bound using 2
    unfold truncatedBits
    omega

theorem targetToCompact_eq (bound : target < 2 ^ 256) :
    targetToCompact target = byteLength target * 2 ^ 24 +
      if byteLength target ≤ 3 then target * 2 ^ (8 * (3 - byteLength target))
      else target / 2 ^ truncatedBits target := by
  have exponent := byteLength_le bound
  have mantissa := mantissa_lt target
  have size := Nat.size_le.mpr bound
  have bits : 256 - leadingZeros target = target.size := by
    unfold leadingZeros
    omega
  -- the shifts of the code, on `u64` values that do not overflow
  have limb : (if byteLength target ≤ 3 then (getLow64 target <<< (8 * (3 - byteLength target))) % 2 ^ 64
      else getLow64 (target >>> (8 * (byteLength target - 3)))) =
      if byteLength target ≤ 3 then target * 2 ^ (8 * (3 - byteLength target))
      else target / 2 ^ truncatedBits target := by
    split_ifs with short
    · rw [if_pos short] at mantissa
      have small : target < 2 ^ 64 :=
        lt_of_le_of_lt (Nat.le_mul_of_pos_right _ (Nat.two_pow_pos _)) (lt_trans mantissa (by decide))
      rw [getLow64, Nat.mod_eq_of_lt small, Nat.shiftLeft_eq, Nat.mod_eq_of_lt (lt_trans mantissa (by decide))]
    · rw [if_neg short] at mantissa
      rw [getLow64, Nat.shiftRight_eq_div_pow, ← truncatedBits, Nat.mod_eq_of_lt (lt_trans mantissa (by decide))]
  have unfolded : targetToCompact target =
      ((if byteLength target ≤ 3 then (getLow64 target <<< (8 * (3 - byteLength target))) % 2 ^ 64
        else getLow64 (target >>> (8 * (byteLength target - 3)))) ||| (byteLength target <<< 24)) % 2 ^ 32 := by
    simp only [targetToCompact, bits]
    rfl
  rw [unfolded, limb, Nat.lor_comm, ← Nat.shiftLeft_add_eq_or_of_lt mantissa, Nat.shiftLeft_eq]
  apply Nat.mod_eq_of_lt
  omega

theorem compactToTarget_pack {exponent mantissa : Nat} (small : mantissa < 2 ^ 24) :
    compactToTarget (exponent * 2 ^ 24 + mantissa) =
      if exponent ≤ 3 then (mantissa >>> (8 * (3 - exponent)), false)
      else ((mantissa <<< (8 * (exponent - 3))) % 2 ^ 256, mantissa != 0 && decide (exponent > 32)) := by
  have high : (exponent * 2 ^ 24 + mantissa) >>> 24 = exponent := by
    rw [Nat.shiftRight_eq_div_pow]
    omega
  have low : (exponent * 2 ^ 24 + mantissa) &&& 0x00ffffff = mantissa := by
    rw [show (0x00ffffff : Nat) = 2 ^ 24 - 1 by rfl, Nat.and_two_pow_sub_one_eq_mod]
    omega
  unfold compactToTarget
  simp only [high, low]

theorem compactToTarget_targetToCompact (bound : target < 2 ^ 256) :
    compactToTarget (targetToCompact target) = (truncateTarget target, false) := by
  have exponentLe := byteLength_le bound
  rw [targetToCompact_eq bound, compactToTarget_pack (mantissa_lt target)]
  by_cases short : byteLength target ≤ 3
  · -- a short target is shifted up and back down whole
    have zero : truncatedBits target = 0 := by
      unfold truncatedBits
      omega
    rw [if_pos short, if_pos short, Nat.shiftRight_eq_div_pow, Nat.mul_div_cancel _ (Nat.two_pow_pos _)]
    simp [truncateTarget, zero]
  · have fits : target / 2 ^ truncatedBits target * 2 ^ truncatedBits target < 2 ^ 256 :=
      lt_of_le_of_lt (Nat.div_mul_le_self _ _) bound
    rw [if_neg short, if_neg short, Nat.shiftLeft_eq, ← truncatedBits, Nat.mod_eq_of_lt fits]
    simp [truncateTarget, exponentLe]

theorem truncateTarget_le (target : Nat) : truncateTarget target ≤ target := Nat.div_mul_le_self _ _

theorem truncateTarget_pos (positive : 0 < target) : 0 < truncateTarget target :=
  Nat.mul_pos (Nat.div_pos (two_pow_truncatedBits_le positive) (Nat.two_pow_pos _)) (Nat.two_pow_pos _)

theorem difficultyToTarget_spec (positive : 0 < difficulty) (bound : difficulty < 2 ^ 256) :
    ∃ target, difficultyToTarget difficulty = some target ∧ 0 < target ∧ target < 2 ^ 256 ∧
      difficulty ≤ 2 ^ 256 / target := by
  unfold difficultyToTarget
  by_cases one : difficulty = 1
  · subst one
    refine ⟨2 ^ 256 - 1, rfl, by decide, by decide, by decide⟩
  · have two : 2 ≤ difficulty := by omega
    have quotient : 2 ^ 256 / difficulty < 2 ^ 256 := Nat.div_lt_self (Nat.two_pow_pos _) (by omega)
    have quotientPos : 0 < 2 ^ 256 / difficulty := Nat.div_pos bound.le positive
    refine ⟨2 ^ 256 / difficulty, by rw [if_neg one, if_neg positive.ne', Nat.mod_eq_of_lt quotient],
      quotientPos, quotient, ?_⟩
    -- `difficulty * (2^256 / difficulty) ≤ 2^256`
    apply (Nat.le_div_iff_mul_le quotientPos).mpr
    exact Nat.mul_div_le _ _

/-- The difficulty decoded from `difficulty_to_compact(d)` is at least `d`: the compact form
rounds the target down. -/
theorem difficultyToCompact_decode (positive : 0 < difficulty) (bound : difficulty < 2 ^ 256) :
    ∃ compact, difficultyToCompact difficulty = some compact ∧ difficulty ≤ compactToDifficulty compact := by
  obtain ⟨target, inverted, targetPos, targetLt, atLeast⟩ := difficultyToTarget_spec positive bound
  refine ⟨targetToCompact target, by simp [difficultyToCompact, inverted], ?_⟩
  have truncatedPos := truncateTarget_pos targetPos
  unfold compactToDifficulty
  simp only [compactToTarget_targetToCompact targetLt, Bool.or_false, decide_eq_true_eq,
    Nat.pos_iff_ne_zero.mp truncatedPos, if_false, targetToDifficulty]
  split_ifs with one
  · omega
  · calc difficulty ≤ 2 ^ 256 / target := atLeast
      _ ≤ 2 ^ 256 / truncateTarget target := Nat.div_le_div_left (truncateTarget_le target) truncatedPos

end Ckb
