import Ckb.Reward.Calculator
import Ckb.Versionbits.Checker
import Ckb.Support.ExceptOption

/-!
The reward part of `EpochExt` (`ckb_types::core::extras`). An epoch's primary reward is split by
`set_primary_reward` into a base reward for every block and a remainder of one extra shannon for
each of the epoch's first blocks; `secondary_block_issuance` splits the secondary issuance the same
way. Over the epoch's block numbers both splits sum back to the total, and each block's share is
the quotient or one more. The extra shannon is a checked `safe_add`, which fails on a base reward
of `u64::MAX`; an epoch whose rewards come from `set_primary_reward` never has one.
-/

namespace Ckb.Extras

open Capacity

/-- `EpochExt`, with the fields the rewards and the difficulty adjustment read over those the
versionbits state machine reads. -/
structure EpochExt (H : Type) extends Ckb.EpochExt H where
  baseBlockReward : Nat
  remainderReward : Nat
  previousEpochHashRate : Nat
  startNumber : Nat
  compactTarget : Nat
deriving DecidableEq, Repr

namespace EpochExt

variable {H : Type} (e : EpochExt H)

/-- `set_primary_reward`; a zero length panics. -/
def setPrimaryReward (primaryReward : Nat) : Option (EpochExt H) :=
  if e.length = 0 then none
  else some { e with
    baseBlockReward := primaryReward / e.length
    remainderReward := primaryReward % e.length }

def blockReward (number : Nat) : Except CapacityError Nat :=
  if number ≥ e.startNumber ∧ number < e.startNumber + e.remainderReward then safeAdd e.baseBlockReward 1
  else .ok e.baseBlockReward

/-- `secondary_block_issuance`; a zero length panics. -/
def secondaryBlockIssuance (blockNumber secondaryEpochIssuance : Nat) : ExceptT CapacityError Option Nat :=
  if e.length = 0 then ExceptT.lift none
  else
    let g2 := secondaryEpochIssuance / e.length
    let remainder := secondaryEpochIssuance % e.length
    if blockNumber ≥ e.startNumber ∧ blockNumber < e.startNumber + remainder then liftExcept (safeAdd g2 1)
    else pure g2

/-- The block numbers of the epoch. -/
def blockNumbers : List Nat := List.range' e.startNumber e.length

end EpochExt

theorem sum_range'_share (start length base extra : Nat) (le : extra ≤ length) :
    ((List.range' start length).map fun n => base + if n ≥ start ∧ n < start + extra then 1 else 0).sum =
      base * length + extra := by
  -- the blocks with the extra shannon come first
  have split : List.range' start length = List.range' start extra ++ List.range' (start + extra) (length - extra) := by
    rw [List.range'_append_1, Nat.add_sub_cancel' le]
  have first : ∀ n ∈ List.range' start extra, (base + if n ≥ start ∧ n < start + extra then 1 else 0) = base + 1 := by
    intro n member
    rw [List.mem_range'_1] at member
    rw [if_pos member]
  have rest : ∀ n ∈ List.range' (start + extra) (length - extra),
      (base + if n ≥ start ∧ n < start + extra then 1 else 0) = base := by
    intro n member
    rw [List.mem_range'_1] at member
    rw [if_neg (by omega), Nat.add_zero]
  rw [split, List.map_append, List.sum_append, List.map_congr_left first, List.map_congr_left rest,
    List.map_const', List.map_const', List.sum_replicate, List.sum_replicate, List.length_range',
    List.length_range', smul_eq_mul, smul_eq_mul]
  calc extra * (base + 1) + (length - extra) * base = (extra + (length - extra)) * base + extra := by ring
    _ = base * length + extra := by rw [Nat.add_sub_cancel' le, mul_comm]

namespace EpochExt

variable {H : Type} {e : EpochExt H}

theorem blockReward_eq (fits : e.remainderReward = 0 ∨ e.baseBlockReward + 1 < 2 ^ 64) (number : Nat) :
    e.blockReward number =
      .ok (e.baseBlockReward + if number ≥ e.startNumber ∧ number < e.startNumber + e.remainderReward then 1 else 0) := by
  unfold blockReward
  split_ifs with within
  · have small : e.baseBlockReward + 1 < 2 ^ 64 := by omega
    rw [safeAdd, if_pos small]
  · rfl

theorem secondaryBlockIssuance_eq (positive : 0 < e.length) {secondaryEpochIssuance : Nat}
    (issuance : secondaryEpochIssuance < 2 ^ 64) (blockNumber : Nat) :
    (e.secondaryBlockIssuance blockNumber secondaryEpochIssuance).run =
      some (.ok (secondaryEpochIssuance / e.length +
        if blockNumber ≥ e.startNumber ∧ blockNumber < e.startNumber + secondaryEpochIssuance % e.length then 1
        else 0)) := by
  unfold secondaryBlockIssuance
  rw [if_neg (Nat.pos_iff_ne_zero.mp positive)]
  dsimp only
  split_ifs with within
  · -- a remainder needs two blocks at least, so the quotient is at most half the issuance
    have two : 2 ≤ e.length := by
      have := Nat.mod_lt secondaryEpochIssuance positive
      omega
    have half : secondaryEpochIssuance / e.length ≤ secondaryEpochIssuance / 2 := Nat.div_le_div_left two (by omega)
    have small : secondaryEpochIssuance / e.length + 1 < 2 ^ 64 := by omega
    rw [safeAdd, if_pos small]
    rfl
  · rfl

theorem rewards_fit (positive : 0 < e.length) (fits : e.baseBlockReward * e.length + e.remainderReward < 2 ^ 64) :
    e.remainderReward = 0 ∨ e.baseBlockReward + 1 < 2 ^ 64 := by
  rcases Nat.eq_zero_or_pos e.remainderReward with zero | extra
  · exact .inl zero
  · have once := Nat.le_mul_of_pos_right e.baseBlockReward positive
    exact .inr (by omega)

end EpochExt

variable {H : Type}

theorem epoch_rewards_split_exactly (e : EpochExt H) (positive : 0 < e.length) (below : e.remainderReward < e.length)
    (fits : e.baseBlockReward * e.length + e.remainderReward < 2 ^ 64) (secondaryEpochIssuance : Nat)
    (issuance : secondaryEpochIssuance < 2 ^ 64) :
    (∃ rewards, e.blockNumbers.mapM e.blockReward = .ok rewards ∧
      rewards.sum = e.baseBlockReward * e.length + e.remainderReward) ∧
    ∃ issuances, (e.blockNumbers.mapM fun n => e.secondaryBlockIssuance n secondaryEpochIssuance).run =
        some (.ok issuances) ∧
      issuances.sum = secondaryEpochIssuance ∧
      ∀ g ∈ issuances, g = secondaryEpochIssuance / e.length ∨ g = secondaryEpochIssuance / e.length + 1 := by
  have remainderBelow : secondaryEpochIssuance % e.length ≤ e.length := (Nat.mod_lt _ positive).le
  refine ⟨⟨_, Except.mapM_eq_ok _ fun n _ => EpochExt.blockReward_eq (EpochExt.rewards_fit positive fits) n,
    sum_range'_share _ _ _ _ below.le⟩,
    ⟨_, ExceptT.mapM_run_eq_ok _ fun n _ => EpochExt.secondaryBlockIssuance_eq positive issuance n, ?_, ?_⟩⟩
  · rw [EpochExt.blockNumbers, sum_range'_share _ _ _ _ remainderBelow, Nat.div_add_mod']
  · intro g member
    obtain ⟨n, -, rfl⟩ := List.mem_map.mp member
    split_ifs
    · exact .inr rfl
    · exact .inl rfl

section Samples

/-- An epoch of four blocks from block 1000 sharing a primary reward of 103 shannons. -/
def rewardEpoch : EpochExt ℕ :=
  { number := 1, lastBlockHashInPreviousEpoch := 0, length := 4, baseBlockReward := 25, remainderReward := 3,
    previousEpochHashRate := 0, startNumber := 1000, compactTarget := 0 }

theorem reward_epoch_splits :
    (0 < rewardEpoch.length ∧ rewardEpoch.remainderReward < rewardEpoch.length ∧
      rewardEpoch.baseBlockReward * rewardEpoch.length + rewardEpoch.remainderReward < 2 ^ 64 ∧ 10 < 2 ^ 64) ∧
    (∃ rewards, rewardEpoch.blockNumbers.mapM rewardEpoch.blockReward = .ok rewards ∧ rewards.sum = 103) ∧
    ∃ issuances, (rewardEpoch.blockNumbers.mapM fun n => rewardEpoch.secondaryBlockIssuance n 10).run =
        some (.ok issuances) ∧ issuances.sum = 10 ∧ ∀ g ∈ issuances, g = 10 / 4 ∨ g = 10 / 4 + 1 :=
  ⟨⟨by decide, by decide, by decide, by decide⟩,
    epoch_rewards_split_exactly rewardEpoch (by decide) (by decide) (by decide) 10 (by decide)⟩

/-- A base reward of `u64::MAX` with a remainder: the first block's extra shannon overflows. -/
def saturatedEpoch : EpochExt ℕ :=
  { number := 1, lastBlockHashInPreviousEpoch := 0, length := 2, baseBlockReward := 2 ^ 64 - 1, remainderReward := 1,
    previousEpochHashRate := 0, startNumber := 1000, compactTarget := 0 }

theorem block_reward_overflows_at_u64_max :
    0 < saturatedEpoch.length ∧ saturatedEpoch.remainderReward < saturatedEpoch.length ∧
      saturatedEpoch.blockNumbers.mapM saturatedEpoch.blockReward = .error .overflow :=
  ⟨by decide, by decide, rfl⟩

end Samples

end Ckb.Extras
