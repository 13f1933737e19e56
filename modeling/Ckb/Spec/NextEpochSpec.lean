import Ckb.Spec.NextEpoch
import Ckb.Types.RationalSpec

namespace Ckb.EpochConsensus

open RationalU256

variable {H : Type}

@[simp] theorem tau_eq : tau = 2 := rfl

@[simp] theorem minEpochLength_eq : minEpochLength = 300 := rfl

@[simp] theorem maxEpochLength_eq : maxEpochLength = 1800 := rfl

/-- `bounding_hash_rate` clamps the estimate into `[previous / TAU, previous * TAU]`, and keeps it
when there is no previous rate. -/
theorem boundingHashRate_eq {rate previous : Nat} (fits : previous * tau < U256.bound) :
    boundingHashRate rate previous =
      some (if previous = 0 then rate else min (max rate (previous / tau)) (previous * tau)) := by
  unfold boundingHashRate
  by_cases zero : previous = 0
  · simp [zero]
  · have upper : U256.mul previous tau = some (previous * tau) := by rw [U256.mul, if_pos fits]
    simp only [if_neg zero, upper, Option.bind_eq_bind, Option.bind_some]
    split_ifs with below above <;> simp only [tau_eq] at * <;> congr 1 <;> omega

/-- `bounding_epoch_length` clamps the length into `[max(MIN, last / TAU), min(MAX, last * TAU)]`
and reports a bound only when it moved the length. -/
theorem boundingEpochLength_spec (length : Nat) {last : Nat} (lengthMin : minEpochLength ≤ last)
    (lengthMax : last ≤ maxEpochLength) :
    ∃ next bound, boundingEpochLength length last = some (next, bound) ∧
      max minEpochLength (last / tau) ≤ next ∧ next ≤ min maxEpochLength (last * tau) ∧
      (bound = false → next = length) := by
  have fits : checkedMul last tau = some (last * tau) := by
    rw [checkedMul, if_pos (by simp only [u64Max, tau_eq, maxEpochLength_eq] at lengthMax ⊢; omega)]
  simp only [boundingEpochLength, fits, Option.bind_eq_bind, Option.bind_some]
  -- the lower bound is below the upper one for a length within the global bounds
  have ordered : max minEpochLength (last / tau) ≤ min maxEpochLength (last * tau) := by
    simp only [minEpochLength_eq, maxEpochLength_eq, tau_eq] at lengthMin lengthMax ⊢
    omega
  split_ifs with above below
  · exact ⟨_, _, rfl, ordered, le_rfl, by simp⟩
  · exact ⟨_, _, rfl, le_rfl, ordered, by simp⟩
  · exact ⟨_, _, rfl, not_lt.mp below, not_lt.mp above, fun _ => rfl⟩

theorem primaryEpochRewardOfNextEpoch_isSome (c : EpochConsensus) {epoch : Extras.EpochExt H}
    (number : epoch.number < u64Max) (interval : 0 < c.primaryEpochRewardHalvingInterval)
    (reward : epoch.baseBlockReward * epoch.length + epoch.remainderReward ≤ u64Max)
    (halvings : (epoch.number + 1) / c.primaryEpochRewardHalvingInterval < 64) :
    (c.primaryEpochRewardOfNextEpoch epoch).isSome := by
  have next : checkedAdd epoch.number 1 = some (epoch.number + 1) := by
    rw [checkedAdd, if_pos (by omega)]
  have product : checkedMul epoch.baseBlockReward epoch.length = some (epoch.baseBlockReward * epoch.length) := by
    rw [checkedMul, if_pos (by omega)]
  simp only [primaryEpochRewardOfNextEpoch, next, Option.bind_eq_bind, Option.bind_some, if_neg interval.ne']
  split_ifs
  · simp [Extras.EpochExt.primaryReward, product, checkedAdd, reward]
  · simp [primaryEpochReward, interval.ne', halvings]

theorem adjustedLastEpochHashRate_spec {difficulty unclesCount duration : Nat} {epoch : Extras.EpochExt H}
    (small : difficulty < 2 ^ 143) (previous : epoch.previousEpochHashRate < 2 ^ 155)
    (blocks : epoch.length + unclesCount < 2 ^ 13) (positive : 0 < duration) :
    ∃ adjusted, adjustedLastEpochHashRate difficulty epoch unclesCount duration = some adjusted ∧
      0 < adjusted ∧ adjusted < 2 ^ 156 := by
  have counted : checkedAdd epoch.length unclesCount = some (epoch.length + unclesCount) := by
    rw [checkedAdd, if_pos (by unfold u64Max; omega)]
  have product : difficulty * (epoch.length + unclesCount) < 2 ^ 156 :=
    calc difficulty * (epoch.length + unclesCount) < 2 ^ 143 * 2 ^ 13 := Nat.mul_lt_mul_of_lt_of_lt small blocks
      _ = 2 ^ 156 := by rw [← Nat.pow_add]
  have multiplied : U256.mul difficulty (epoch.length + unclesCount) =
      some (difficulty * (epoch.length + unclesCount)) := by
    simp [U256.mul, lt_bound product (by decide)]
  have rate : difficulty * (epoch.length + unclesCount) / duration < 2 ^ 156 :=
    lt_of_le_of_lt (Nat.div_le_self _ _) product
  have doubled : epoch.previousEpochHashRate * tau < 2 ^ 156 := by
    rw [tau_eq, Nat.pow_succ]
    omega
  simp only [adjustedLastEpochHashRate, counted, multiplied, U256.div_of_ne_zero _ positive.ne',
    boundingHashRate_eq (lt_bound doubled (by decide)), Option.bind_eq_bind, Option.bind_some]
  refine ⟨_, rfl, by omega, ?_⟩
  -- the clamp lies below the larger of the estimate and twice the previous rate
  split_ifs <;> omega

theorem nextEpochLength_spec (c : EpochConsensus) {epoch : Extras.EpochExt H} {unclesCount duration : Nat}
    {lastOrphanRate : RationalU256} (target : Within c.orphanRateTarget 32 32)
    (durationTarget : c.epochDurationTarget < 2 ^ 32) (lengthMin : minEpochLength ≤ epoch.length)
    (lengthMax : epoch.length ≤ maxEpochLength) (positive : 0 < duration) (durationLt : duration < 2 ^ 32)
    (rate : Within lastOrphanRate 12 11) (rateValue : lastOrphanRate.value = unclesCount / epoch.length) :
    ∃ next bound, c.nextEpochLength epoch unclesCount duration lastOrphanRate = some (next, bound) ∧
      max minEpochLength (epoch.length / tau) ≤ next ∧ next ≤ min maxEpochLength (epoch.length * tau) := by
  have lengthLt : epoch.length < 2 ^ 11 := by
    simp only [maxEpochLength_eq] at lengthMax
    omega
  unfold nextEpochLength
  split_ifs with noUncles
  · -- no uncles: the length doubles, up to the maximum
    have fits : checkedMul epoch.length tau = some (epoch.length * tau) := by
      rw [checkedMul, if_pos (by simp only [u64Max, tau_eq, maxEpochLength_eq] at lengthMax ⊢; omega)]
    refine ⟨_, true, by simp only [fits, Option.bind_eq_bind, Option.bind_some], ?_, le_rfl⟩
    simp only [minEpochLength_eq, maxEpochLength_eq, tau_eq] at lengthMin lengthMax ⊢
    omega
  · -- the numerator `o_ideal * (1 + o_i) * L_ideal * C_i,m`
    obtain ⟨rateUp, rateUpEq, rateUpWithin⟩ : ∃ r, lastOrphanRate.addU256 1 = some r ∧ Within r 13 11 :=
      rate.addU256 (k := 1) (by decide) (by decide)
    obtain ⟨scaled, scaledEq, scaledWithin⟩ : ∃ r, c.orphanRateTarget.mul rateUp = some r ∧ Within r 45 43 :=
      target.mul rateUpWithin (by decide) (by decide)
    obtain ⟨timed, timedEq, timedWithin⟩ := scaledWithin.mulU256 durationTarget (by decide)
    obtain ⟨numerator, numeratorEq, numeratorWithin⟩ := timedWithin.mulU256 lengthLt (by decide)
    -- the denominator `o_i * (1 + o_ideal) * L_i`, positive as there are uncles
    obtain ⟨targetUp, targetUpEq, targetUpWithin⟩ : ∃ r, c.orphanRateTarget.addU256 1 = some r ∧ Within r 34 32 :=
      target.addU256 (k := 1) (by decide) (by decide)
    obtain ⟨observed, observedEq, observedWithin⟩ := rate.mul targetUpWithin (by decide) (by decide)
    obtain ⟨denominator, denominatorEq, denominatorWithin⟩ := observedWithin.mulU256 durationLt (by decide)
    have denominatorPos : 0 < denominator.value := by
      rw [(mulU256_spec observedWithin.denom_ne_zero denominatorEq).2,
        (mul_spec rate.denom_ne_zero targetUpWithin.denom_ne_zero observedEq).2,
        (addU256_spec target.denom_ne_zero targetUpEq).2, rateValue, Nat.cast_one]
      have unclesPos : (0 : ℚ) < unclesCount := by exact_mod_cast Nat.pos_of_ne_zero noUncles
      have lengthPos : (0 : ℚ) < epoch.length := by
        simp only [minEpochLength_eq] at lengthMin
        exact_mod_cast (show 0 < epoch.length by omega)
      have durationPos : (0 : ℚ) < duration := by exact_mod_cast positive
      have targetNonneg := value_nonneg c.orphanRateTarget
      exact mul_pos (mul_pos (div_pos unclesPos lengthPos) (by linarith)) durationPos
    obtain ⟨quotient, quotientEq, quotientWithin⟩ :=
      numeratorWithin.div denominatorWithin (numer_ne_zero_of_value_pos denominatorPos) (by decide) (by decide)
    -- whatever the raw length, the filter clamps it
    obtain ⟨next, bound, bounded, lower, upper, -⟩ :=
      boundingEpochLength_spec (quotient.numer / quotient.denom % 2 ^ 64) lengthMin lengthMax
    refine ⟨next, bound, ?_, lower, upper⟩
    simp only [rateUpEq, scaledEq, timedEq, numeratorEq, targetUpEq, observedEq, denominatorEq, quotientEq,
      intoU256_of_ne_zero quotientWithin.denom_ne_zero, Option.bind_eq_bind, Option.bind_some, bounded]

theorem addU256_one_mulU256 {x : RationalU256} {p q next : Nat} (within : Within x p q) (hp : p ≤ 69)
    (hq : q ≤ 68) (nextPos : 0 < next) (nextLt : next < 2 ^ 11) :
    ∃ y d, x.addU256 1 = some y ∧ y.mulU256 next = some d ∧ Within d 81 68 ∧ 0 < d.value := by
  obtain ⟨y, yEq, yWithin⟩ : ∃ y, x.addU256 1 = some y ∧ Within y 70 68 :=
    (within.mono hp hq).addU256 (k := 1) (by decide) (by decide)
  obtain ⟨d, dEq, dWithin⟩ := yWithin.mulU256 nextLt (by decide)
  refine ⟨y, d, yEq, dEq, dWithin, ?_⟩
  rw [(mulU256_spec yWithin.denom_ne_zero dEq).2, (addU256_spec within.denom_ne_zero yEq).2, Nat.cast_one]
  have nonneg := value_nonneg x
  have nextCast : (0 : ℚ) < next := by exact_mod_cast nextPos
  exact mul_pos (by linarith) nextCast

theorem diffDenominator_spec (c : EpochConsensus) {epoch : Extras.EpochExt H} {duration next : Nat}
    {lastOrphanRate : RationalU256} (bound : Bool) (target : Within c.orphanRateTarget 32 32)
    (durationTarget : c.epochDurationTarget < 2 ^ 32) (lengthLt : epoch.length < 2 ^ 11)
    (positive : 0 < duration) (durationLt : duration < 2 ^ 32) (nextPos : 0 < next) (nextLt : next < 2 ^ 11)
    (rate : Within lastOrphanRate 12 11) :
    ∃ d, c.diffDenominator epoch duration lastOrphanRate next bound = some d ∧ Within d 81 68 ∧ 0 < d.value := by
  obtain ⟨targetUp, ideal, targetUpEq, idealEq, idealWithin, idealPos⟩ :=
    addU256_one_mulU256 target (by decide) (by decide) nextPos nextLt
  cases bound with
  | false =>
    -- no bound: the target orphan rate
    refine ⟨ideal, ?_, idealWithin, idealPos⟩
    simp only [diffDenominator, targetUpEq, idealEq, Option.bind_eq_bind, Option.bind_some, Bool.false_eq_true,
      if_false]
  | true =>
    by_cases zero : lastOrphanRate.isZero
    · -- no uncles: the length alone
      obtain ⟨d, dEq, dWithin⟩ := within_new (p := 11) (q := 1) nextLt one_pos (by decide)
      refine ⟨d, by simp only [diffDenominator, zero, if_true, dEq], dWithin.mono (by decide) (by decide), ?_⟩
      rw [(new_spec dEq).2, Nat.cast_one, div_one]
      exact_mod_cast nextPos
    · have rateNumer : lastOrphanRate.numer ≠ 0 := by simpa [isZero] using zero
      -- `(o_i + 1) * L_ideal * L_i / (o_i * C_i,m * L_next)`, less one
      obtain ⟨rateUp, rateUpEq, rateUpWithin⟩ : ∃ r, lastOrphanRate.addU256 1 = some r ∧ Within r 13 11 :=
        rate.addU256 (k := 1) (by decide) (by decide)
      obtain ⟨scaled, scaledEq, scaledWithin⟩ := rateUpWithin.mulU256 durationTarget (by decide)
      obtain ⟨numerator, numeratorEq, numeratorWithin⟩ := scaledWithin.mulU256 lengthLt (by decide)
      obtain ⟨timed, timedEq, timedWithin⟩ := rate.mulU256 durationLt (by decide)
      obtain ⟨denominator, denominatorEq, denominatorWithin⟩ := timedWithin.mulU256 nextLt (by decide)
      have denominatorPos : 0 < denominator.value := by
        rw [(mulU256_spec timedWithin.denom_ne_zero denominatorEq).2,
          (mulU256_spec rate.denom_ne_zero timedEq).2]
        have durationCast : (0 : ℚ) < duration := by exact_mod_cast positive
        have nextCast : (0 : ℚ) < next := by exact_mod_cast nextPos
        exact mul_pos (mul_pos (value_pos rateNumer rate.denom_ne_zero) durationCast) nextCast
      obtain ⟨quotient, quotientEq, quotientWithin⟩ :=
        numeratorWithin.div denominatorWithin (numer_ne_zero_of_value_pos denominatorPos) (by decide) (by decide)
      obtain ⟨recip, recipEq, recipWithin⟩ := quotientWithin.saturatingSubU256 (u := 1) (k := 1) (by decide) (by decide) (by decide)
      have estimated : c.diffDenominator epoch duration lastOrphanRate next true =
          if recip.isZero then (c.orphanRateTarget.addU256 1).bind fun y => y.mulU256 next
          else (one.div recip).bind fun estimation => (estimation.addU256 1).bind fun y => y.mulU256 next := by
        simp only [diffDenominator, zero, if_true, Bool.false_eq_true, if_false, rateUpEq, scaledEq, numeratorEq,
          timedEq, denominatorEq, quotientEq, recipEq, Option.bind_eq_bind, Option.bind_some]
      rw [estimated]
      by_cases recipZero : recip.isZero
      · -- a small probability event: the target orphan rate
        rw [if_pos recipZero, targetUpEq, Option.bind_some]
        exact ⟨ideal, idealEq, idealWithin, idealPos⟩
      · have recipNumer : recip.numer ≠ 0 := by simpa [isZero] using recipZero
        obtain ⟨estimation, estimationEq, estimationWithin⟩ := within_one.div recipWithin recipNumer (by decide) (by decide)
        obtain ⟨estimationUp, d, estimationUpEq, dEq, dWithin, dPos⟩ :=
          addU256_one_mulU256 estimationWithin (by decide) (by decide) nextPos nextLt
        rw [if_neg recipZero, estimationEq, Option.bind_some, estimationUpEq, Option.bind_some]
        exact ⟨d, dEq, dWithin, dPos⟩

theorem nextEpochDiff_spec (c : EpochConsensus) {adjusted : Nat} {d : RationalU256} (adjustedLt : adjusted < 2 ^ 156)
    (durationTarget : c.epochDurationTarget < 2 ^ 32) (within : Within d 81 68) (positive : 0 < d.value) :
    ∃ diff, c.nextEpochDiff adjusted d = some diff ∧ 0 < diff ∧ diff < 2 ^ 256 := by
  have product : adjusted * c.epochDurationTarget < 2 ^ 188 :=
    calc adjusted * c.epochDurationTarget < 2 ^ 156 * 2 ^ 32 := Nat.mul_lt_mul_of_lt_of_lt adjustedLt durationTarget
      _ = 2 ^ 188 := by rw [← Nat.pow_add]
  have multiplied : U256.mul adjusted c.epochDurationTarget = some (adjusted * c.epochDurationTarget) := by
    rw [U256.mul, if_pos (lt_bound product (by decide))]
  obtain ⟨numerator, numeratorEq, numeratorWithin⟩ := within_new (q := 1) product one_pos (by decide)
  have compared := numeratorWithin.cmp within (by decide) (by decide)
  simp only [nextEpochDiff, multiplied, numeratorEq, compared, Option.bind_eq_bind, Option.bind_some]
  by_cases above : d.value < numerator.value
  · -- the quotient of the two is above one, and rounds down to at least one
    have denominatorNumer := numer_ne_zero_of_value_pos positive
    obtain ⟨quotient, quotientEq, quotientWithin⟩ :=
      numeratorWithin.div within denominatorNumer (by decide) (by decide)
    have quotientAbove : 1 < quotient.value := by
      rw [(div_spec numeratorWithin.denom_ne_zero within.denom_ne_zero denominatorNumer quotientEq).2,
        one_lt_div positive]
      exact above
    rw [if_pos (compare_gt_iff_gt.mpr above), quotientEq, Option.bind_some,
      intoU256_of_ne_zero quotientWithin.denom_ne_zero]
    exact ⟨_, rfl, one_le_numer_div_denom quotientWithin.denom_ne_zero quotientAbove,
      lt_of_le_of_lt (Nat.div_le_self _ _) (lt_of_lt_of_le quotientWithin.numer_lt (by decide))⟩
  · rw [if_neg (fun greater => above (compare_gt_iff_gt.mp greater))]
    exact ⟨1, rfl, by decide, by decide⟩

theorem lastEpochDuration_pos (durationMs : Nat) : 0 < lastEpochDuration durationMs := by
  unfold lastEpochDuration
  omega

theorem lastEpochDuration_lt {durationMs : Nat} (small : durationMs < 2 ^ 41) : lastEpochDuration durationMs < 2 ^ 32 := by
  unfold lastEpochDuration millisecondsInASecond
  omega

/-- The next epoch from a tail block under the difficulty adjustment: one epoch number on, starting
after the header, of a length between half and twice the last one within the global bounds, with a
difficulty of at least one and the next epoch's primary reward split over its blocks. -/
theorem adjustedEpochExt_spec (c : EpochConsensus) (header : Header H) (epoch : Extras.EpochExt H)
    {unclesCount durationMs : Nat} (target : Within c.orphanRateTarget 32 32)
    (durationTarget : c.epochDurationTarget < 2 ^ 32) (interval : 0 < c.primaryEpochRewardHalvingInterval)
    (lengthMin : minEpochLength ≤ epoch.length) (lengthMax : epoch.length ≤ maxEpochLength)
    (uncles : unclesCount < 2 ^ 12) (duration : durationMs < 2 ^ 41)
    (difficulty : header.difficulty < 2 ^ 143) (previous : epoch.previousEpochHashRate < 2 ^ 155)
    (number : epoch.number < u64Max) (headerNumber : header.number < u64Max)
    (rewardFits : epoch.baseBlockReward * epoch.length + epoch.remainderReward ≤ u64Max)
    (halvings : (epoch.number + 1) / c.primaryEpochRewardHalvingInterval < 64) :
    ∃ next reward, c.adjustedEpochExt header epoch unclesCount durationMs = some next ∧
      c.primaryEpochRewardOfNextEpoch epoch = some reward ∧
      next.number = epoch.number + 1 ∧ next.startNumber = header.number + 1 ∧
      max minEpochLength (epoch.length / tau) ≤ next.length ∧ next.length ≤ min maxEpochLength (epoch.length * tau) ∧
      1 ≤ compactToDifficulty next.compactTarget ∧
      next.baseBlockReward * next.length + next.remainderReward = reward ∧ next.remainderReward < next.length := by
  have lengthBounds : 300 ≤ epoch.length ∧ epoch.length ≤ 1800 := by
    simp only [minEpochLength_eq, maxEpochLength_eq] at lengthMin lengthMax
    exact ⟨lengthMin, lengthMax⟩
  have durationPos := lastEpochDuration_pos durationMs
  -- (1) the hash rate
  obtain ⟨adjusted, adjustedEq, -, adjustedLt⟩ :=
    adjustedLastEpochHashRate_spec difficulty previous (show epoch.length + unclesCount < 2 ^ 13 by omega) durationPos
  -- (2) the orphan rate and the length
  obtain ⟨rate, rateEq, rateWithin⟩ := within_new (p := 12) (q := 11) uncles (show 0 < epoch.length by omega)
    (show epoch.length < 2 ^ 11 by omega)
  obtain ⟨length, bound, lengthEq, lower, upper⟩ := c.nextEpochLength_spec target durationTarget lengthMin
    lengthMax durationPos (lastEpochDuration_lt duration) rateWithin (new_spec rateEq).2
  have nextBounds : 0 < length ∧ length < 2 ^ 11 := by
    simp only [minEpochLength_eq, maxEpochLength_eq, tau_eq] at lower upper
    omega
  -- (3) the difficulty
  obtain ⟨denominator, denominatorEq, denominatorWithin, denominatorPos⟩ := c.diffDenominator_spec bound target
    durationTarget (show epoch.length < 2 ^ 11 by omega) durationPos (lastEpochDuration_lt duration) nextBounds.1 nextBounds.2 rateWithin
  obtain ⟨diff, diffEq, diffPos, diffLt⟩ := c.nextEpochDiff_spec adjustedLt durationTarget denominatorWithin denominatorPos
  obtain ⟨compact, compactEq, decoded⟩ := difficultyToCompact_decode diffPos diffLt
  -- the reward and the numbers
  obtain ⟨reward, rewardEq⟩ :=
    Option.isSome_iff_exists.mp (c.primaryEpochRewardOfNextEpoch_isSome number interval rewardFits halvings)
  have numberEq : checkedAdd epoch.number 1 = some (epoch.number + 1) := by
    rw [checkedAdd, if_pos (by omega)]
  have headerEq : checkedAdd header.number 1 = some (header.number + 1) := by
    rw [checkedAdd, if_pos (by omega)]
  refine ⟨{ number := epoch.number + 1, baseBlockReward := reward / length, remainderReward := reward % length,
            previousEpochHashRate := adjusted, lastBlockHashInPreviousEpoch := header.hash,
            startNumber := header.number + 1, length := length, compactTarget := compact },
    reward, ?_, rewardEq, rfl, rfl, lower, upper, le_trans diffPos decoded, Nat.div_add_mod' reward length,
    Nat.mod_lt _ nextBounds.1⟩
  simp only [adjustedEpochExt, adjustedEq, rateEq, lengthEq, denominatorEq, diffEq, rewardEq, compactEq,
    numberEq, headerEq, Option.bind_eq_bind, Option.bind_some, if_neg nextBounds.1.ne']

theorem next_epoch_ext_bounded (c : EpochConsensus) (header : Header H) (epoch : Extras.EpochExt H)
    {unclesCount durationMs : Nat} (adjusting : c.permanentDifficulty = false)
    (target : Within c.orphanRateTarget 32 32) (durationTarget : c.epochDurationTarget < 2 ^ 32)
    (interval : 0 < c.primaryEpochRewardHalvingInterval)
    (lengthMin : minEpochLength ≤ epoch.length) (lengthMax : epoch.length ≤ maxEpochLength)
    (uncles : unclesCount < 2 ^ 12) (duration : durationMs < 2 ^ 41)
    (difficulty : header.difficulty < 2 ^ 143) (previous : epoch.previousEpochHashRate < 2 ^ 155)
    (number : epoch.number < u64Max) (headerNumber : header.number < u64Max)
    (rewardFits : epoch.baseBlockReward * epoch.length + epoch.remainderReward ≤ u64Max)
    (halvings : (epoch.number + 1) / c.primaryEpochRewardHalvingInterval < 64) :
    ∃ next reward, c.nextBlockEpoch header (.tailBlock epoch unclesCount durationMs) = some (.headBlock next) ∧
      c.primaryEpochRewardOfNextEpoch epoch = some reward ∧
      next.number = epoch.number + 1 ∧ next.startNumber = header.number + 1 ∧
      max minEpochLength (epoch.length / tau) ≤ next.length ∧ next.length ≤ min maxEpochLength (epoch.length * tau) ∧
      1 ≤ compactToDifficulty next.compactTarget ∧
      next.baseBlockReward * next.length + next.remainderReward = reward ∧ next.remainderReward < next.length := by
  obtain ⟨next, reward, adjusted, rest⟩ := c.adjustedEpochExt_spec header epoch target durationTarget interval
    lengthMin lengthMax uncles duration difficulty previous number headerNumber rewardFits halvings
  refine ⟨next, reward, ?_, rest⟩
  simp only [nextBlockEpoch, adjusting, Bool.false_eq_true, if_false, adjusted, Option.map_some]

/-- The parameters of the main chain: an orphan rate target of 1/40, a target duration of four
hours and a halving every 8760 epochs. -/
def sampleConsensus : EpochConsensus :=
  { orphanRateTarget := ⟨1, 40⟩, epochDurationTarget := 14400, initialPrimaryEpochReward := 191780821917808,
    primaryEpochRewardHalvingInterval := 8760, isDummy := false, permanentDifficultyInDummy := false }

def sampleEpoch : Extras.EpochExt Nat :=
  { number := 0, lastBlockHashInPreviousEpoch := 0, length := 1000, baseBlockReward := 191780821917,
    remainderReward := 808, previousEpochHashRate := 0, startNumber := 0, compactTarget := 0x1e015555 }

def sampleHeader : Header Nat :=
  { hash := 1, parentHash := 0, number := 999, epoch := ⟨0⟩, timestamp := 0, compactTarget := 0x1e015555 }

theorem sample_next_epoch_bounded :
    ∃ next reward, sampleConsensus.nextBlockEpoch sampleHeader (.tailBlock sampleEpoch 20 14400000) =
        some (.headBlock next) ∧
      sampleConsensus.primaryEpochRewardOfNextEpoch sampleEpoch = some reward ∧
      next.number = sampleEpoch.number + 1 ∧ next.startNumber = sampleHeader.number + 1 ∧
      max minEpochLength (sampleEpoch.length / tau) ≤ next.length ∧
      next.length ≤ min maxEpochLength (sampleEpoch.length * tau) ∧
      1 ≤ compactToDifficulty next.compactTarget ∧
      next.baseBlockReward * next.length + next.remainderReward = reward ∧ next.remainderReward < next.length :=
  next_epoch_ext_bounded sampleConsensus sampleHeader sampleEpoch rfl ⟨by decide, by decide, by decide⟩
    (by decide) (by decide) (by decide) (by decide) (by decide) (by decide) (by decide) (by decide)
    (by decide) (by decide) (by decide) (by decide)

theorem next_epoch_ext_uncles_overflow :
    sampleConsensus.nextBlockEpoch sampleHeader (.tailBlock sampleEpoch (2 ^ 64 - 1) 14400000) = none := by
  decide

end Ckb.EpochConsensus
