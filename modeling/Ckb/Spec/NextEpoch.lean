import Ckb.Types.Rational
import Ckb.Types.CompactTarget
import Ckb.Types.Extras

/-!
The difficulty adjustment at the end of an epoch (`Consensus::next_epoch_ext`, RFC 0020): from the
tail block of an epoch, its uncles and its duration, the length, the difficulty and the rewards of
the next epoch. The computation is the source's, in its three steps: the hash rate of the last
epoch, dampened against the one before it; the next length from the orphan rate, dampened against
the last length; and the difficulty that the hash rate gives over the next epoch at its estimated
orphan rate.

Every panic is `none`: a `u64` overflow (the release profile checks overflow), a shift by 64 bits
or more, a `U256` overflow or a division by zero, and `RationalU256::new` with a zero denominator.
The epoch provider is a function from a header to its `BlockEpoch`.
-/

namespace Ckb

open RationalU256

def tau : Nat := 2
def minBlockInterval : Nat := 8
def maxBlockInterval : Nat := 48
def millisecondsInASecond : Nat := 1000
def defaultEpochDurationTarget : Nat := 4 * 60 * 60
def maxEpochLength : Nat := defaultEpochDurationTarget / minBlockInterval
def minEpochLength : Nat := defaultEpochDurationTarget / maxBlockInterval

/-- What `EpochProvider::get_block_epoch` returns for a header. -/
inductive BlockEpoch (H : Type) where
  | tailBlock (epoch : Extras.EpochExt H) (epochUnclesCount epochDurationInMilliseconds : Nat)
  | nonTailBlock (epoch : Extras.EpochExt H)
deriving DecidableEq, Repr

inductive NextBlockEpoch (H : Type) where
  | headBlock (epoch : Extras.EpochExt H)
  | nonHeadBlock (epoch : Extras.EpochExt H)
deriving DecidableEq, Repr

/-- `EpochExt::primary_reward`, in `u64`. -/
def Extras.EpochExt.primaryReward {H : Type} (e : Extras.EpochExt H) : Option Nat := do
  checkedAdd (← checkedMul e.baseBlockReward e.length) e.remainderReward

/-- The fields of `Consensus` that `next_epoch_ext` reads. -/
structure EpochConsensus where
  orphanRateTarget : RationalU256
  epochDurationTarget : Nat
  initialPrimaryEpochReward : Nat
  primaryEpochRewardHalvingInterval : Nat
  /-- `pow.is_dummy()`. -/
  isDummy : Bool
  permanentDifficultyInDummy : Bool
deriving DecidableEq, Repr

namespace EpochConsensus

variable {H : Type} (c : EpochConsensus)

def permanentDifficulty : Bool := c.isDummy && c.permanentDifficultyInDummy

/-- `primary_epoch_reward`: halved once every halving interval, by a `u64` shift. -/
def primaryEpochReward (epochNumber : Nat) : Option Nat :=
  if c.primaryEpochRewardHalvingInterval = 0 then none
  else
    let halvings := epochNumber / c.primaryEpochRewardHalvingInterval
    if halvings < 64 then some (c.initialPrimaryEpochReward >>> halvings) else none

/-- `primary_epoch_reward_of_next_epoch`: the epoch's own reward unless the next epoch halves it. -/
def primaryEpochRewardOfNextEpoch (epoch : Extras.EpochExt H) : Option Nat := do
  let next ← checkedAdd epoch.number 1
  if c.primaryEpochRewardHalvingInterval = 0 then none
  else if next % c.primaryEpochRewardHalvingInterval ≠ 0 then epoch.primaryReward
  else c.primaryEpochReward next

/-- `bounding_hash_rate`: the dampening filter on the hash rate, within a factor `TAU` of the
previous one. -/
def boundingHashRate (lastEpochHashRate lastEpochPreviousHashRate : Nat) : Option Nat :=
  if lastEpochPreviousHashRate = 0 then some lastEpochHashRate
  else
    let lowerBound := lastEpochPreviousHashRate / tau
    if lastEpochHashRate < lowerBound then some lowerBound
    else do
      let upperBound ← U256.mul lastEpochPreviousHashRate tau
      if lastEpochHashRate > upperBound then some upperBound else some lastEpochHashRate

/-- `bounding_epoch_length`: the dampening filter on the length, and whether it applied. -/
def boundingEpochLength (length lastEpochLength : Nat) : Option (Nat × Bool) := do
  let maxLength := min maxEpochLength (← checkedMul lastEpochLength tau)
  let minLength := max minEpochLength (lastEpochLength / tau)
  if length > maxLength then some (maxLength, true)
  else if length < minLength then some (minLength, true)
  else some (length, false)

def lastEpochDuration (epochDurationInMilliseconds : Nat) : Nat :=
  max (epochDurationInMilliseconds / millisecondsInASecond) 1

/-- Step (1): the adjusted hash rate estimation of the last epoch, at least one. -/
def adjustedLastEpochHashRate (lastDifficulty : Nat) (epoch : Extras.EpochExt H)
    (epochUnclesCount lastEpochDuration : Nat) : Option Nat := do
  let blocks ← checkedAdd epoch.length epochUnclesCount
  let lastEpochHashRate ← U256.div (← U256.mul lastDifficulty blocks) lastEpochDuration
  some (max (← boundingHashRate lastEpochHashRate epoch.previousEpochHashRate) 1)

/-- Step (2): the next epoch's main chain block number and whether a bound applied; with no
uncles the length grows by `TAU`, up to the maximum. -/
def nextEpochLength (epoch : Extras.EpochExt H) (epochUnclesCount lastEpochDuration : Nat)
    (lastOrphanRate : RationalU256) : Option (Nat × Bool) :=
  if epochUnclesCount = 0 then do
    some (min maxEpochLength (← checkedMul epoch.length tau), true)
  else do
    -- o_ideal * (1 + o_i) * L_ideal * C_i,m
    let numerator ← (← (← c.orphanRateTarget.mul (← lastOrphanRate.addU256 1)).mulU256
      c.epochDurationTarget).mulU256 epoch.length
    -- o_i * (1 + o_ideal) * L_i
    let denominator ← (← lastOrphanRate.mul (← c.orphanRateTarget.addU256 1)).mulU256 lastEpochDuration
    let rawNextEpochLength := (← (← numerator.div denominator).intoU256) % 2 ^ 64
    boundingEpochLength rawNextEpochLength epoch.length

/-- The denominator of step (3): `(1 + o) * L` for the orphan rate `o` estimated over the next
epoch when a bound applied, and the target orphan rate otherwise. -/
def diffDenominator (epoch : Extras.EpochExt H) (lastEpochDuration : Nat) (lastOrphanRate : RationalU256)
    (nextEpochLength : Nat) (bound : Bool) : Option RationalU256 :=
  if bound then
    if lastOrphanRate.isZero then new nextEpochLength 1
    else do
      -- `(o_i + 1) * L_ideal * L_i / (o_i * C_i,m * L_next)`, less one
      let numerator ← (← (← lastOrphanRate.addU256 1).mulU256 c.epochDurationTarget).mulU256 epoch.length
      let denominator ← (← lastOrphanRate.mulU256 lastEpochDuration).mulU256 nextEpochLength
      let orphanRateEstimationRecip ← (← numerator.div denominator).saturatingSubU256 1
      if orphanRateEstimationRecip.isZero then do
        -- small probability event, use o_ideal for now
        (← c.orphanRateTarget.addU256 1).mulU256 nextEpochLength
      else do
        let orphanRateEstimation ← one.div orphanRateEstimationRecip
        (← orphanRateEstimation.addU256 1).mulU256 nextEpochLength
  else do
    (← c.orphanRateTarget.addU256 1).mulU256 nextEpochLength

/-- Step (3): the next epoch's difficulty, at least one. -/
def nextEpochDiff (adjustedLastEpochHashRate : Nat) (diffDenominator : RationalU256) : Option Nat := do
  let diffNumerator ← new (← U256.mul adjustedLastEpochHashRate c.epochDurationTarget) 1
  if (← diffNumerator.cmp diffDenominator) = .gt then do (← diffNumerator.div diffDenominator).intoU256
  -- next_epoch_diff cannot be zero
  else some 1

/-- The tail block's `next_epoch_ext` under the difficulty adjustment. -/
def adjustedEpochExt (header : Header H) (epoch : Extras.EpochExt H)
    (epochUnclesCount epochDurationInMilliseconds : Nat) : Option (Extras.EpochExt H) := do
  -- (1) Computing the Adjusted Hash Rate Estimation
  let lastEpochDuration := lastEpochDuration epochDurationInMilliseconds
  let adjusted ← adjustedLastEpochHashRate header.difficulty epoch epochUnclesCount lastEpochDuration
  -- (2) Computing the Next Epoch's Main Chain Block Number
  let lastOrphanRate ← new epochUnclesCount epoch.length
  let (nextEpochLength, bound) ← c.nextEpochLength epoch epochUnclesCount lastEpochDuration lastOrphanRate
  -- (3) Determining the Next Epoch's Difficulty
  let nextEpochDiff ← c.nextEpochDiff adjusted
    (← c.diffDenominator epoch lastEpochDuration lastOrphanRate nextEpochLength bound)
  let primaryEpochReward ← c.primaryEpochRewardOfNextEpoch epoch
  if nextEpochLength = 0 then none
  else do
    some {
      number := ← checkedAdd epoch.number 1
      baseBlockReward := primaryEpochReward / nextEpochLength
      remainderReward := primaryEpochReward % nextEpochLength
      previousEpochHashRate := adjusted
      lastBlockHashInPreviousEpoch := header.hash
      startNumber := ← checkedAdd header.number 1
      length := nextEpochLength
      compactTarget := ← difficultyToCompact nextEpochDiff }

/-- The tail block's `next_epoch_ext` under a permanent difficulty: the target duration at the
minimum block interval, rounded up, and the epoch's compact target kept. -/
def permanentEpochExt (header : Header H) (epoch : Extras.EpochExt H) : Option (Extras.EpochExt H) := do
  let nextEpochLength := (← checkedAdd c.epochDurationTarget (minBlockInterval - 1)) / minBlockInterval
  let primaryEpochReward ← c.primaryEpochRewardOfNextEpoch epoch
  if nextEpochLength = 0 then none
  else do
    some { epoch with
      baseBlockReward := primaryEpochReward / nextEpochLength
      remainderReward := primaryEpochReward % nextEpochLength
      number := ← checkedAdd epoch.number 1
      lastBlockHashInPreviousEpoch := header.hash
      startNumber := ← checkedAdd header.number 1
      length := nextEpochLength }

/-- The closure of `next_epoch_ext` over the provider's `BlockEpoch`; `none` is a panic. -/
def nextBlockEpoch (header : Header H) : BlockEpoch H → Option (NextBlockEpoch H)
  | .nonTailBlock epoch => some (.nonHeadBlock epoch)
  | .tailBlock epoch epochUnclesCount epochDurationInMilliseconds =>
    if c.permanentDifficulty then (c.permanentEpochExt header epoch).map .headBlock
    else (c.adjustedEpochExt header epoch epochUnclesCount epochDurationInMilliseconds).map .headBlock

/-- `next_epoch_ext`: `none` outside when the provider has no epoch for the header, `some none` on
a panic. -/
def nextEpochExt (getBlockEpoch : Header H → Option (BlockEpoch H)) (header : Header H) :
    Option (Option (NextBlockEpoch H)) :=
  (getBlockEpoch header).map (c.nextBlockEpoch header)

end EpochConsensus

end Ckb
