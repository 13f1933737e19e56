import Ckb.Verification.TwoPhaseCommit
import Ckb.Support.ExceptOption

/-!
`RewardCalculator` (`ckb-reward-calculator`): the part of a target block's reward that comes from
its transactions and proposals, paid by the cellbase of the block `farthest + 1` above it. The
miner of the target keeps each fee it committed less the proposer's share (`txs_fees`); the
proposer's share of a fee goes to the earliest block of the commitment's window that proposed the
transaction (`proposal_reward`), found by walking down from the paying block's parent over the
heights where the target's proposals can be committed.

Capacities are `u64` shannons with checked arithmetic: an overflow is the error of
`CapacityResult`, and an `expect` on a store read is a panic, `none`. The target's lock and the
primary and secondary rewards of the DAO calculator are left out.
-/

namespace Ckb

inductive CapacityError where
  | overflow
deriving DecidableEq, Repr

namespace Capacity

def safeAdd (capacity rhs : Nat) : Except CapacityError Nat :=
  if capacity + rhs < 2 ^ 64 then .ok (capacity + rhs) else .error .overflow

def safeSub (capacity rhs : Nat) : Except CapacityError Nat :=
  if rhs ≤ capacity then .ok (capacity - rhs) else .error .overflow

/-- `safe_mul_ratio`: a checked product with the numerator, then a checked division. -/
def safeMulRatio (capacity : Nat) (ratio : Ratio) : Except CapacityError Nat :=
  if capacity * ratio.numer < 2 ^ 64 ∧ ratio.denom ≠ 0 then .ok (capacity * ratio.numer / ratio.denom)
  else .error .overflow

theorem safeAdd_eq_ok {capacity rhs sum : Nat} :
    safeAdd capacity rhs = .ok sum ↔ sum = capacity + rhs ∧ capacity + rhs < 2 ^ 64 := by
  unfold safeAdd
  split_ifs with fits
  · constructor
    · intro ok
      exact ⟨(Except.ok.inj ok).symm, fits⟩
    · rintro ⟨rfl, -⟩
      rfl
  · constructor
    · intro wrong
      cases wrong
    · rintro ⟨-, small⟩
      exact absurd small fits

theorem safeSub_eq_ok {capacity rhs difference : Nat} :
    safeSub capacity rhs = .ok difference ↔ difference = capacity - rhs ∧ rhs ≤ capacity := by
  unfold safeSub
  split_ifs with le
  · constructor
    · intro ok
      exact ⟨(Except.ok.inj ok).symm, le⟩
    · rintro ⟨rfl, -⟩
      rfl
  · constructor
    · intro wrong
      cases wrong
    · rintro ⟨-, small⟩
      exact absurd small le

end Capacity

variable {H : Type} [DecidableEq H]

namespace RewardCalculator

open Capacity

variable (consensus : Consensus) (proposerRewardRatio : Ratio) (shortId : H → ProposalShortId) (store : Store H)

/-- `txs_fees`: what the target's miner keeps of the fees its ext records. -/
def txsFees (target : Header H) : ExceptT CapacityError Option Nat := do
  let targetExt ← ExceptT.lift (store.getBlockExt target.hash)
  liftExcept (targetExt.txsFees.foldlM (fun acc txFee => do
    let proposer ← safeMulRatio txFee proposerRewardRatio
    let miner ← safeSub txFee proposer
    safeAdd acc miner) 0)

/-- `get_proposal_ids_by_hash`: the block's proposals and its uncles', which the verifier's loop
reads too. -/
def getProposalIdsByHash (hash : H) : Finset ProposalShortId := storedProposalIds store hash

/-- `committed_idx_proc`: the short ids of the block's transactions after the cellbase. -/
def committedIdx (hash : H) : List ProposalShortId :=
  (((store.getBlockBody hash).map (·.hash)).drop 1).map shortId

def txsFeesProc (hash : H) : Option (List Nat) := (store.getBlockExt hash).map (·.txsFees)

/-- One turn of the loops over a block's commitments: a remaining proposal of the target is
removed, and its proposer's share added when `rewarded` holds of it. The parent of the paying block
rewards each one; the blocks below it only those no competing block proposed. -/
def rewardCommitted (rewarded : ProposalShortId → Bool) :
    Finset ProposalShortId × Nat → ProposalShortId × Nat → Except CapacityError (Finset ProposalShortId × Nat)
  | (targetProposals, reward), (id, txFee) =>
    if id ∈ targetProposals then
      if rewarded id then do
        let share ← safeMulRatio txFee proposerRewardRatio
        let reward ← safeAdd reward share
        pure (targetProposals.erase id, reward)
      else pure (targetProposals.erase id, reward)
    else pure (targetProposals, reward)

/-- The commitments of the block `hash` against the remaining proposals of the target; its fees are
read only when one of those is committed there. -/
def rewardBlock (rewarded : ProposalShortId → Bool) (hash : H) (targetProposals : Finset ProposalShortId)
    (reward : Nat) : ExceptT CapacityError Option (Finset ProposalShortId × Nat) :=
  let committedIdx := committedIdx shortId store hash
  if (targetProposals ∩ committedIdx.toFinset).Nonempty then do
    let txsFees ← ExceptT.lift (txsFeesProc store hash)
    liftExcept ((committedIdx.zip txsFees).foldlM (rewardCommitted proposerRewardRatio rewarded)
      (targetProposals, reward))
  else pure (targetProposals, reward)

/-- The `while` loop of `proposal_reward` from `index` down to `competingCommitStart`, with
`proposed` the proposals of the competing heights met so far. The loop follows parent hashes, which
lower the height on a consistent store; `fuel` bounds its turns, and running out is `none`. -/
def competingLoop (competingCommitStart : Nat) :
    Nat → Header H → Finset ProposalShortId → Finset ProposalShortId → Nat → ExceptT CapacityError Option Nat
  | fuel, index, targetProposals, proposed, reward =>
    if competingCommitStart < index.number ∧ targetProposals.Nonempty then
      match fuel with
      | 0 => ExceptT.lift none
      | fuel + 1 => do
        let index ← ExceptT.lift (store.getBlockHeader index.parentHash)
        -- a proposal at genesis is never counted: `H(p) > H(0)`
        let competingProposalStart := max (index.number - consensus.txProposalWindow.farthest) 1
        let previousIds ← ExceptT.lift ((store.getBlockHash competingProposalStart).map (getProposalIdsByHash store))
        let proposed := proposed ∪ previousIds
        let (targetProposals, reward) ← rewardBlock proposerRewardRatio shortId store (fun id => decide (id ∉ proposed))
          index.hash targetProposals reward
        competingLoop competingCommitStart fuel index targetProposals proposed reward
    else pure reward

/-- `proposal_reward` of `target`, paid by the block after `parent`. -/
def proposalReward (parent target : Header H) : ExceptT CapacityError Option Nat := do
  let targetProposals := getProposalIdsByHash store target.hash
  let proposalWindow := consensus.txProposalWindow
  let blockNumber := parent.number + 1
  let length ← ExceptT.lift proposalWindow.length
  -- a transaction is committed above the window's closest height
  let competingCommitStart := max (blockNumber - length) (1 + proposalWindow.closest)
  let (targetProposals, reward) ← rewardBlock proposerRewardRatio shortId store (fun _ => true) parent.hash
    targetProposals 0
  competingLoop consensus proposerRewardRatio shortId store competingCommitStart parent.number parent targetProposals ∅
    reward

/-- `block_reward_to_finalize` without the target's lock and the DAO rewards: the target the block
after `parent` pays, with its fees and its proposal reward. -/
def blockRewardToFinalize (parent : Header H) : ExceptT CapacityError Option (Header H × Nat × Nat) := do
  let blockNumber := parent.number + 1
  let targetNumber ← ExceptT.lift (consensus.finalizeTarget blockNumber)
  let target ← ExceptT.lift ((store.getBlockHash targetNumber).bind store.getBlockHeader)
  let txsFees ← txsFees proposerRewardRatio store target
  let proposalReward ← proposalReward consensus proposerRewardRatio shortId store parent target
  pure (target, txsFees, proposalReward)

end RewardCalculator

end Ckb
