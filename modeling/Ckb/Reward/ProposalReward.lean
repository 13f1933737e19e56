import Ckb.Reward.Calculator
import Ckb.Chain.Proposals
import Mathlib.Order.Interval.Finset.Nat

/-!
What `proposal_reward` and `txs_fees` pay. Over a main chain stored as the chain service stores it,
and without overflow, the miner of the target keeps each fee less the proposer's share, and the
target earns the proposer's share of each fee committed in its commitment window whose
transaction it proposed and no main-chain block of the window's earlier heights did, genesis
apart: each such fee is paid once, to its earliest proposer. The loop walks down from the parent
of the paying block, and its set `proposed` grows by one height per turn; for a target at height
one, the clamp of that height to one puts the target itself among its competitors.
-/

namespace Ckb

namespace RewardCalculator

open Capacity

/-- The proposer's share of a fee, rounded down. -/
def share (ratio : Ratio) (txFee : Nat) : Nat := txFee * ratio.numer / ratio.denom

/-- The shares of a block's commitments whose ids remain in `targetProposals` and are rewarded. -/
def earned (ratio : Ratio) (rewarded : ProposalShortId → Bool) (targetProposals : Finset ProposalShortId)
    (commitments : List (ProposalShortId × Nat)) : Nat :=
  ((commitments.filter fun commitment => decide (commitment.1 ∈ targetProposals) && rewarded commitment.1).map
    fun commitment => share ratio commitment.2).sum

section Arithmetic

variable {ratio : Ratio}

theorem safeAdd_eq {capacity rhs : Nat} (small : capacity + rhs < 2 ^ 64) : safeAdd capacity rhs = .ok (capacity + rhs) :=
  if_pos small

theorem safeSub_eq {capacity rhs : Nat} (le : rhs ≤ capacity) : safeSub capacity rhs = .ok (capacity - rhs) :=
  if_pos le

theorem safeMulRatio_eq (positive : 0 < ratio.denom) {txFee : Nat} (small : txFee * ratio.numer < 2 ^ 64) :
    safeMulRatio txFee ratio = .ok (share ratio txFee) :=
  if_pos ⟨small, by omega⟩

theorem share_le (proper : ratio.numer ≤ ratio.denom) (txFee : Nat) : share ratio txFee ≤ txFee := by
  unfold share
  rcases Nat.eq_zero_or_pos ratio.denom with zero | positive
  · rw [zero, Nat.div_zero]
    exact Nat.zero_le _
  · apply Nat.div_le_of_le_mul
    rw [Nat.mul_comm]
    exact Nat.mul_le_mul_right txFee proper

end Arithmetic

section Earned

variable (ratio : Ratio) (rewarded : ProposalShortId → Bool)

@[simp] theorem earned_nil (targetProposals : Finset ProposalShortId) : earned ratio rewarded targetProposals [] = 0 := rfl

theorem earned_cons (targetProposals : Finset ProposalShortId) (id : ProposalShortId) (txFee : Nat)
    (rest : List (ProposalShortId × Nat)) :
    earned ratio rewarded targetProposals ((id, txFee) :: rest) =
      (if id ∈ targetProposals ∧ rewarded id = true then share ratio txFee else 0) +
        earned ratio rewarded targetProposals rest := by
  unfold earned
  by_cases paid : id ∈ targetProposals ∧ rewarded id = true
  · simp [paid]
  · have unpaid : (decide (id ∈ targetProposals) && rewarded id) = false := by
      rw [Bool.eq_false_iff]
      intro both
      exact paid (by simpa using both)
    simp [unpaid, paid]

theorem earned_congr {targetProposals targetProposals' : Finset ProposalShortId}
    {rewarded' : ProposalShortId → Bool} (commitments : List (ProposalShortId × Nat))
    (same : ∀ commitment ∈ commitments,
      (commitment.1 ∈ targetProposals ∧ rewarded commitment.1 = true) ↔
        (commitment.1 ∈ targetProposals' ∧ rewarded' commitment.1 = true)) :
    earned ratio rewarded targetProposals commitments = earned ratio rewarded' targetProposals' commitments := by
  induction commitments with
  | nil => rfl
  | cons commitment rest ih =>
    obtain ⟨id, txFee⟩ := commitment
    rw [earned_cons, earned_cons, ih fun c member => same c (List.mem_cons_of_mem _ member)]
    by_cases paid : id ∈ targetProposals ∧ rewarded id = true
    · rw [if_pos paid, if_pos ((same _ List.mem_cons_self).mp paid)]
    · rw [if_neg paid, if_neg fun paid' => paid ((same _ List.mem_cons_self).mpr paid')]

theorem earned_eq_zero {targetProposals : Finset ProposalShortId} (commitments : List (ProposalShortId × Nat))
    (none : ∀ commitment ∈ commitments, commitment.1 ∉ targetProposals) :
    earned ratio rewarded targetProposals commitments = 0 := by
  induction commitments with
  | nil => rfl
  | cons commitment rest ih =>
    obtain ⟨id, txFee⟩ := commitment
    rw [earned_cons, ih fun c member => none c (List.mem_cons_of_mem _ member),
      if_neg fun paid => none _ List.mem_cons_self paid.1]

end Earned

section Commitments

variable {ratio : Ratio} (rewarded : ProposalShortId → Bool) (positive : 0 < ratio.denom)
include positive

/-- The loop over a block's commitments, with distinct ids and no overflow: the ids are removed
from the target's remaining proposals and the shares of those rewarded are added. -/
theorem foldlM_rewardCommitted :
    ∀ (commitments : List (ProposalShortId × Nat)) (targetProposals : Finset ProposalShortId) (reward : Nat),
      (commitments.map Prod.fst).Nodup → (∀ commitment ∈ commitments, commitment.2 * ratio.numer < 2 ^ 64) →
      reward + earned ratio rewarded targetProposals commitments < 2 ^ 64 →
      commitments.foldlM (rewardCommitted ratio rewarded) (targetProposals, reward) =
        .ok (targetProposals \ (commitments.map Prod.fst).toFinset,
          reward + earned ratio rewarded targetProposals commitments) := by
  intro commitments
  induction commitments with
  | nil =>
    intro targetProposals reward _ _ _
    simp only [List.foldlM_nil, List.map_nil, List.toFinset_nil, Finset.sdiff_empty, earned_nil, Nat.add_zero]
    rfl
  | cons commitment rest ih =>
    obtain ⟨id, txFee⟩ := commitment
    intro targetProposals reward distinct small bounded
    rw [List.map_cons, List.nodup_cons] at distinct
    obtain ⟨fresh, restDistinct⟩ := distinct
    have restSmall : ∀ commitment ∈ rest, commitment.2 * ratio.numer < 2 ^ 64 :=
      fun c member => small c (List.mem_cons_of_mem _ member)
    -- the ids after this one are not `id`, so removing it changes nothing they earn
    have erased : earned ratio rewarded (targetProposals.erase id) rest = earned ratio rewarded targetProposals rest := by
      apply earned_congr
      intro c member
      have differs : c.1 ≠ id := fun same => fresh (List.mem_map.mpr ⟨c, member, same⟩)
      rw [Finset.mem_erase, and_iff_right differs]
    have removed : targetProposals.erase id \ (rest.map Prod.fst).toFinset =
        targetProposals \ ((id :: rest.map Prod.fst).toFinset) := by
      rw [List.toFinset_cons, Finset.sdiff_insert, Finset.erase_sdiff_comm]
    rw [earned_cons] at bounded ⊢
    rw [List.foldlM_cons, List.map_cons]
    by_cases member : id ∈ targetProposals
    · by_cases paid : rewarded id = true
      · rw [if_pos ⟨member, paid⟩] at bounded ⊢
        have step : rewardCommitted ratio rewarded (targetProposals, reward) (id, txFee) =
            .ok (targetProposals.erase id, reward + share ratio txFee) := by
          simp only [rewardCommitted, if_pos member, if_pos paid,
            safeMulRatio_eq positive (small _ List.mem_cons_self)]
          rw [Except.ok_bind, safeAdd_eq (by omega)]
          rfl
        rw [step]
        refine (ih _ _ restDistinct restSmall (by omega)).trans ?_
        rw [removed, erased, Nat.add_assoc]
      · rw [if_neg fun paid' => paid paid'.2] at bounded ⊢
        have step : rewardCommitted ratio rewarded (targetProposals, reward) (id, txFee) =
            .ok (targetProposals.erase id, reward) := by
          simp only [rewardCommitted, if_pos member, paid]
          rfl
        rw [step]
        refine (ih _ _ restDistinct restSmall (by rw [erased]; omega)).trans ?_
        rw [removed, erased, Nat.zero_add]
    · rw [if_neg fun paid => member paid.1] at bounded ⊢
      have step : rewardCommitted ratio rewarded (targetProposals, reward) (id, txFee) = .ok (targetProposals, reward) := by
        simp only [rewardCommitted, if_neg member]
        rfl
      rw [step]
      refine (ih _ _ restDistinct restSmall (by omega)).trans ?_
      rw [List.toFinset_cons, Finset.sdiff_insert, Finset.erase_eq_of_notMem fun gone => member (Finset.mem_sdiff.mp gone).1,
        Nat.zero_add]

variable [DecidableEq H] (shortId : H → ProposalShortId) (store : Store H)

theorem rewardBlock_eq {hash : H} {txsFees : List Nat} (fees : txsFeesProc store hash = some txsFees)
    (targetProposals : Finset ProposalShortId) (reward : Nat)
    (distinct : (((committedIdx shortId store hash).zip txsFees).map Prod.fst).Nodup)
    (small : ∀ commitment ∈ (committedIdx shortId store hash).zip txsFees, commitment.2 * ratio.numer < 2 ^ 64)
    (bounded : reward + earned ratio rewarded targetProposals ((committedIdx shortId store hash).zip txsFees) < 2 ^ 64) :
    (rewardBlock ratio shortId store rewarded hash targetProposals reward).run =
      some (.ok (targetProposals \ (((committedIdx shortId store hash).zip txsFees).map Prod.fst).toFinset,
        reward + earned ratio rewarded targetProposals ((committedIdx shortId store hash).zip txsFees))) := by
  dsimp only [rewardBlock]
  split_ifs with committed
  · apply ExceptT.run_bind_eq_ok.mpr
    refine ⟨txsFees, by rw [fees]; rfl, ?_⟩
    rw [ExceptT.run_liftExcept, foldlM_rewardCommitted rewarded positive _ _ _ distinct small bounded]
  · -- none of the remaining proposals is committed in this block
    have absent : ∀ commitment ∈ (committedIdx shortId store hash).zip txsFees, commitment.1 ∉ targetProposals := by
      intro commitment member remains
      exact committed ⟨commitment.1, Finset.mem_inter.mpr ⟨remains, List.mem_toFinset.mpr (List.of_mem_zip member).1⟩⟩
    have disjoint : Disjoint targetProposals (((committedIdx shortId store hash).zip txsFees).map Prod.fst).toFinset := by
      rw [Finset.disjoint_right]
      intro id member
      obtain ⟨commitment, commitmentMem, rfl⟩ := List.mem_map.mp (List.mem_toFinset.mp member)
      exact absent commitment commitmentMem
    rw [Finset.sdiff_eq_self_of_disjoint disjoint, earned_eq_zero ratio rewarded _ absent, Nat.add_zero]
    rfl

omit [DecidableEq H] in
theorem foldlM_minerFees (proper : ratio.numer ≤ ratio.denom) :
    ∀ (txsFees : List Nat) (acc : Nat), (∀ txFee ∈ txsFees, txFee * ratio.numer < 2 ^ 64) →
      acc + (txsFees.map fun txFee => txFee - share ratio txFee).sum < 2 ^ 64 →
      txsFees.foldlM (fun acc txFee => do
        let proposer ← safeMulRatio txFee ratio
        let miner ← safeSub txFee proposer
        safeAdd acc miner) acc = .ok (acc + (txsFees.map fun txFee => txFee - share ratio txFee).sum) := by
  intro txsFees
  induction txsFees with
  | nil =>
    intro acc _ _
    rfl
  | cons txFee rest ih =>
    intro acc small bounded
    rw [List.map_cons, List.sum_cons] at bounded ⊢
    rw [List.foldlM_cons, safeMulRatio_eq positive (small txFee List.mem_cons_self), Except.ok_bind,
      safeSub_eq (share_le proper txFee), Except.ok_bind, safeAdd_eq (by omega), Except.ok_bind]
    refine (ih _ (fun fee member => small fee (List.mem_cons_of_mem _ member)) (by omega)).trans ?_
    rw [Nat.add_assoc]

theorem txsFees_eq (proper : ratio.numer ≤ ratio.denom) {target : Header H} {ext : BlockExt}
    (found : store.getBlockExt target.hash = some ext) (small : ∀ txFee ∈ ext.txsFees, txFee * ratio.numer < 2 ^ 64)
    (bounded : (ext.txsFees.map fun txFee => txFee - share ratio txFee).sum < 2 ^ 64) :
    (txsFees ratio store target).run = some (.ok (ext.txsFees.map fun txFee => txFee - share ratio txFee).sum) := by
  apply ExceptT.run_bind_eq_ok.mpr
  refine ⟨ext, by rw [found]; rfl, ?_⟩
  rw [ExceptT.run_liftExcept, foldlM_minerFees positive proper _ 0 small (by omega), Nat.zero_add]

end Commitments

section Window

variable {H : Type} (shortId : H → ProposalShortId) (fees : Block H → List Nat) (main : List (Block H))

/-- The commitments of the main-chain block at height `n`: the short id of each transaction after
its cellbase, with the fee its ext records. -/
def commitmentsAt (n : Nat) : List (ProposalShortId × Nat) :=
  match main[n]? with
  | none => []
  | some block => ((block.transactions.drop 1).map (shortId ·.hash)).zip (fees block)

def proposalsAt (n : Nat) : Finset ProposalShortId :=
  match main[n]? with
  | none => ∅
  | some block => block.unionProposalIds.toFinset

/-- The proposals of the main-chain blocks at heights `[lo, hi]`, uncles included. -/
def proposalsBetween (lo hi : Nat) : Finset ProposalShortId := (Finset.Icc lo hi).biUnion (proposalsAt main)

/-- The ids committed at heights `[lo, hi]`. -/
def committedBetween (lo hi : Nat) : Finset ProposalShortId :=
  (Finset.Icc lo hi).biUnion fun n => ((commitmentsAt shortId fees main n).map Prod.fst).toFinset

/-- All commitments at heights `[lo, hi]` have distinct ids. -/
def DistinctBetween (lo hi : Nat) : Prop :=
  ((List.range' lo (hi + 1 - lo)).flatMap fun c => (commitmentsAt shortId fees main c).map Prod.fst).Nodup

instance (lo hi : Nat) : Decidable (DistinctBetween shortId fees main lo hi) :=
  inferInstanceAs (Decidable (List.Nodup _))

variable (ratio : Ratio) (proposalWindow : ProposalWindow)

/-- What competes, for a commitment at height `c`, with the target at height `t`: the proposals of
the main chain at heights `[max (c - farthest) 1, t - 1]`. -/
def competingProposals (t c : Nat) : Finset ProposalShortId :=
  proposalsBetween main (max (c - proposalWindow.farthest) 1) (t - 1)

/-- What the target at height `t` earns from the commitments at heights `[lo, hi]`. -/
def rewardBetween (t lo hi : Nat) : Nat :=
  ((List.range' lo (hi + 1 - lo)).map fun c =>
    earned ratio (fun id => decide (id ∉ competingProposals main proposalWindow t c)) (proposalsAt main t)
      (commitmentsAt shortId fees main c)).sum

/-- The reward of the earliest proposer: the target at height `t` earns the proposer's share of each
fee committed in its commitment window, `[t + closest, t + farthest]`, whose transaction it or one
of its uncles proposed and no main-chain block of the competing heights did. -/
def earliestProposerReward (t : Nat) : Nat :=
  rewardBetween shortId fees main ratio proposalWindow t (t + proposalWindow.closest) (t + proposalWindow.farthest)

theorem rewardBetween_step {t lo hi : Nat} (le : lo ≤ hi) :
    rewardBetween shortId fees main ratio proposalWindow t lo hi =
      earned ratio (fun id => decide (id ∉ competingProposals main proposalWindow t lo)) (proposalsAt main t)
        (commitmentsAt shortId fees main lo) + rewardBetween shortId fees main ratio proposalWindow t (lo + 1) hi := by
  unfold rewardBetween
  rw [show hi + 1 - lo = (hi + 1 - (lo + 1)) + 1 by omega, List.range'_succ, List.map_cons, List.sum_cons]

theorem rewardBetween_le {t lo hi : Nat} : ∀ d, rewardBetween shortId fees main ratio proposalWindow t (lo + d) hi ≤
    rewardBetween shortId fees main ratio proposalWindow t lo hi := by
  intro d
  induction d with
  | zero => exact Nat.le_refl _
  | succ d ih =>
    by_cases inside : lo + d ≤ hi
    · rw [rewardBetween_step shortId fees main ratio proposalWindow inside] at ih
      rw [← Nat.add_assoc]
      omega
    · unfold rewardBetween
      rw [show hi + 1 - (lo + (d + 1)) = 0 by omega]
      exact Nat.zero_le _

theorem rewardBetween_empty {t lo hi : Nat} (past : hi < lo) :
    rewardBetween shortId fees main ratio proposalWindow t lo hi = 0 := by
  unfold rewardBetween
  rw [show hi + 1 - lo = 0 by omega]
  rfl

theorem mem_committedBetween {lo hi : Nat} (id : ProposalShortId) :
    id ∈ committedBetween shortId fees main lo hi ↔
      ∃ c, lo ≤ c ∧ c ≤ hi ∧ id ∈ (commitmentsAt shortId fees main c).map Prod.fst := by
  simp only [committedBetween, Finset.mem_biUnion, Finset.mem_Icc, List.mem_toFinset]
  constructor
  · intro found
    obtain ⟨c, ⟨low, high⟩, member⟩ := found
    exact ⟨c, low, high, member⟩
  · intro found
    obtain ⟨c, low, high, member⟩ := found
    exact ⟨c, ⟨low, high⟩, member⟩

theorem committedBetween_step {lo hi : Nat} (le : lo ≤ hi) :
    committedBetween shortId fees main lo hi =
      ((commitmentsAt shortId fees main lo).map Prod.fst).toFinset ∪ committedBetween shortId fees main (lo + 1) hi := by
  ext id
  rw [Finset.mem_union, List.mem_toFinset, mem_committedBetween, mem_committedBetween]
  constructor
  · intro found
    obtain ⟨c, low, high, member⟩ := found
    by_cases bottom : c = lo
    · subst bottom
      exact .inl member
    · exact .inr ⟨c, by omega, high, member⟩
  · intro found
    rcases found with member | ⟨c, low, high, member⟩
    · exact ⟨lo, Nat.le_refl _, le, member⟩
    · exact ⟨c, by omega, high, member⟩

theorem mem_proposalsBetween {lo hi : Nat} (id : ProposalShortId) :
    id ∈ proposalsBetween main lo hi ↔ ∃ n, lo ≤ n ∧ n ≤ hi ∧ id ∈ proposalsAt main n := by
  simp only [proposalsBetween, Finset.mem_biUnion, Finset.mem_Icc]
  constructor
  · intro found
    obtain ⟨n, ⟨low, high⟩, member⟩ := found
    exact ⟨n, low, high, member⟩
  · intro found
    obtain ⟨n, low, high, member⟩ := found
    exact ⟨n, ⟨low, high⟩, member⟩

theorem committedBetween_empty {lo hi : Nat} (past : hi < lo) : committedBetween shortId fees main lo hi = ∅ := by
  rw [committedBetween, Finset.Icc_eq_empty (by omega), Finset.biUnion_empty]

theorem competingProposals_top {t : Nat} (positive : 0 < t) :
    competingProposals main proposalWindow t (t + proposalWindow.farthest) = ∅ := by
  ext id
  simp only [competingProposals, mem_proposalsBetween, Finset.notMem_empty, iff_false]
  intro found
  obtain ⟨n, low, high, -⟩ := found
  omega

/-- One height down, the competing heights grow by the one the loop reads, `max (c - farthest) 1`;
when the target is at height one, that height is the target's own. -/
theorem competingProposals_step {t c : Nat} (two : 2 ≤ t) (below : c < t + proposalWindow.farthest) :
    competingProposals main proposalWindow t (c + 1) ∪ proposalsAt main (max (c - proposalWindow.farthest) 1) =
      competingProposals main proposalWindow t c := by
  ext id
  rw [Finset.mem_union]
  simp only [competingProposals, mem_proposalsBetween]
  constructor
  · intro found
    rcases found with ⟨n, low, high, member⟩ | member
    · exact ⟨n, by omega, high, member⟩
    · exact ⟨_, Nat.le_refl _, by omega, member⟩
  · intro found
    obtain ⟨n, low, high, member⟩ := found
    by_cases bottom : n = max (c - proposalWindow.farthest) 1
    · subst bottom
      exact .inr member
    · exact .inl ⟨n, by omega, high, member⟩

end Window

section Distinct

variable {H : Type} {shortId : H → ProposalShortId} {fees : Block H → List Nat} {main : List (Block H)}
  {lo hi : Nat} (distinct : DistinctBetween shortId fees main lo hi)
include distinct

theorem DistinctBetween.nodup {c : Nat} (low : lo ≤ c) (high : c ≤ hi) :
    ((commitmentsAt shortId fees main c).map Prod.fst).Nodup :=
  (List.nodup_flatMap.mp distinct).1 c (List.mem_range'_1.mpr ⟨low, by omega⟩)

theorem DistinctBetween.apart {c c' : Nat} (low : lo ≤ c) (high : c ≤ hi) (low' : lo ≤ c') (high' : c' ≤ hi)
    (differ : c ≠ c') {id : ProposalShortId} (member : id ∈ (commitmentsAt shortId fees main c).map Prod.fst) :
    id ∉ (commitmentsAt shortId fees main c').map Prod.fst := by
  have symmetric : Std.Symm (Function.onFun List.Disjoint fun c => (commitmentsAt shortId fees main c).map Prod.fst) :=
    ⟨fun _ _ disjoint => disjoint.symm⟩
  exact (List.nodup_flatMap.mp distinct).2.forall (List.mem_range'_1.mpr ⟨low, by omega⟩)
    (List.mem_range'_1.mpr ⟨low', by omega⟩) differ member

variable (ratio : Ratio) (proposalWindow : ProposalWindow)

theorem DistinctBetween.rewardBetween_eq {t h : Nat} (low : lo ≤ h) (high : h ≤ hi + 1)
    (exhausted : proposalsAt main t ⊆ committedBetween shortId fees main h hi) :
    rewardBetween shortId fees main ratio proposalWindow t lo hi = rewardBetween shortId fees main ratio proposalWindow t h hi := by
  suffices down : ∀ d, lo + d ≤ h →
      rewardBetween shortId fees main ratio proposalWindow t lo hi =
        rewardBetween shortId fees main ratio proposalWindow t (lo + d) hi by
    have reached := down (h - lo) (by omega)
    rwa [Nat.add_sub_cancel' low] at reached
  intro d
  induction d with
  | zero => intro _; rfl
  | succ d ih =>
    intro within
    rw [ih (by omega), rewardBetween_step shortId fees main ratio proposalWindow (by omega), ← Nat.add_assoc,
      earned_eq_zero, Nat.zero_add]
    -- an id of the target committed at `lo + d` would be committed again at or above `h`
    intro commitment member proposed
    obtain ⟨c, above, below, committed⟩ := (mem_committedBetween shortId fees main _).mp (exhausted proposed)
    exact distinct.apart (by omega) (by omega) (by omega) below (by omega) (List.mem_map_of_mem member) committed

end Distinct

section Loop

variable {H : Type} [DecidableEq H]

/-- A main chain as the store holds it: block `n` of `main` is at height `n` under block `n - 1`,
the index names it, and its header, proposals, transactions and fees are stored. -/
structure StoredMain (shortId : H → ProposalShortId) (fees : Block H → List Nat) (store : Store H)
    (main : List (Block H)) : Prop where
  numbered : ∀ n (lt : n < main.length), main[n].number = n
  linked : ∀ n (lt : n + 1 < main.length), main[n + 1].parentHash = main[n].hash
  index : ∀ n, store.getBlockHash n = main[n]?.map Block.hash
  header : ∀ block ∈ main, store.getBlockHeader block.hash = some block.header
  proposals : ∀ block ∈ main, getProposalIdsByHash store block.hash = block.unionProposalIds.toFinset
  committed : ∀ block ∈ main, committedIdx shortId store block.hash = (block.transactions.drop 1).map (shortId ·.hash)
  feesStored : ∀ block ∈ main, txsFeesProc store block.hash = some (fees block)

variable (consensus : Consensus) (ratio : Ratio) (shortId : H → ProposalShortId) (store : Store H)

theorem competingLoop_stop {start fuel : Nat} {index : Header H} {targetProposals proposed : Finset ProposalShortId}
    {reward : Nat} (stopped : ¬ (start < index.number ∧ targetProposals.Nonempty)) :
    competingLoop consensus ratio shortId store start fuel index targetProposals proposed reward = pure reward := by
  unfold competingLoop
  rw [if_neg stopped]

/-- One turn of the loop: step to the parent, add the proposals at the competing height it gives,
and read the parent's commitments. -/
theorem competingLoop_succ {start fuel : Nat} {index parent : Header H} {targetProposals proposed : Finset ProposalShortId}
    {reward : Nat} {hash : H} (going : start < index.number ∧ targetProposals.Nonempty)
    (parentFound : store.getBlockHeader index.parentHash = some parent)
    (competing : store.getBlockHash (max (parent.number - consensus.txProposalWindow.farthest) 1) = some hash) :
    competingLoop consensus ratio shortId store start (fuel + 1) index targetProposals proposed reward =
      rewardBlock ratio shortId store (fun id => decide (id ∉ proposed ∪ getProposalIdsByHash store hash)) parent.hash
          targetProposals reward >>= fun state =>
        competingLoop consensus ratio shortId store start fuel parent state.1 (proposed ∪ getProposalIdsByHash store hash)
          state.2 := by
  conv_lhs => unfold competingLoop
  rw [if_pos going]
  simp only [parentFound, ExceptT.lift_some, pure_bind, competing, Option.map_some]

namespace StoredMain

variable {consensus ratio shortId store} {fees : Block H → List Nat} {main : List (Block H)}
  (stored : StoredMain shortId fees store main)
include stored

theorem number_eq {n : Nat} {block : Block H} (found : main[n]? = some block) : block.header.number = n := by
  obtain ⟨lt, same⟩ := List.getElem?_eq_some_iff.mp found
  rw [← same]
  exact stored.numbered n lt

theorem commitments_eq {n : Nat} {block : Block H} (found : main[n]? = some block) :
    (committedIdx shortId store block.hash).zip (fees block) = commitmentsAt shortId fees main n := by
  rw [stored.committed block (List.mem_of_getElem? found), commitmentsAt, found]

theorem proposals_eq {n : Nat} {block : Block H} (found : main[n]? = some block) :
    getProposalIdsByHash store block.hash = proposalsAt main n := by
  rw [stored.proposals block (List.mem_of_getElem? found), proposalsAt, found]

theorem parent_eq {n : Nat} {block parent : Block H} (found : main[n + 1]? = some block)
    (parentFound : main[n]? = some parent) : store.getBlockHeader block.header.parentHash = some parent.header := by
  obtain ⟨lt, same⟩ := List.getElem?_eq_some_iff.mp found
  obtain ⟨parentLt, parentSame⟩ := List.getElem?_eq_some_iff.mp parentFound
  have linkedTo := stored.linked n lt
  rw [same, parentSame] at linkedTo
  rw [show block.header.parentHash = block.parentHash from rfl, linkedTo]
  exact stored.header parent (List.mem_of_getElem? parentFound)

end StoredMain

section Target

variable {consensus ratio shortId store} {fees : Block H → List Nat} {main : List (Block H)}
  (stored : StoredMain shortId fees store main) {t : Nat}
  (top : t + consensus.txProposalWindow.farthest < main.length) (positive : 0 < ratio.denom)
  (distinct : DistinctBetween shortId fees main (t + consensus.txProposalWindow.closest)
    (t + consensus.txProposalWindow.farthest))
  (small : ∀ c, t + consensus.txProposalWindow.closest ≤ c → c ≤ t + consensus.txProposalWindow.farthest →
    ∀ commitment ∈ commitmentsAt shortId fees main c, commitment.2 * ratio.numer < 2 ^ 64)
  (bounded : earliestProposerReward shortId fees main ratio consensus.txProposalWindow t < 2 ^ 64)
include stored top positive distinct small bounded

omit top in
/-- The commitments at height `c` of the window against the remaining proposals of the target:
those it already met are committed at no lower height. -/
theorem StoredMain.rewardBlock_window {c : Nat} {block : Block H} (found : main[c]? = some block)
    (low : t + consensus.txProposalWindow.closest ≤ c) (high : c ≤ t + consensus.txProposalWindow.farthest)
    (rewarded : ProposalShortId → Bool)
    (exact : rewarded = fun id => decide (id ∉ competingProposals main consensus.txProposalWindow t c)) :
    (rewardBlock ratio shortId store rewarded block.hash
        (proposalsAt main t \ committedBetween shortId fees main (c + 1) (t + consensus.txProposalWindow.farthest))
        (rewardBetween shortId fees main ratio consensus.txProposalWindow t (c + 1) (t + consensus.txProposalWindow.farthest))).run =
      some (.ok (proposalsAt main t \ committedBetween shortId fees main c (t + consensus.txProposalWindow.farthest),
        rewardBetween shortId fees main ratio consensus.txProposalWindow t c (t + consensus.txProposalWindow.farthest))) := by
  subst exact
  have fresh : ∀ commitment ∈ commitmentsAt shortId fees main c,
      commitment.1 ∉ committedBetween shortId fees main (c + 1) (t + consensus.txProposalWindow.farthest) := by
    intro commitment member committed
    obtain ⟨c', above, below, committed'⟩ := (mem_committedBetween shortId fees main _).mp committed
    exact distinct.apart low high (by omega) below (by omega) (List.mem_map_of_mem member) committed'
  have unchanged : earned ratio (fun id => decide (id ∉ competingProposals main consensus.txProposalWindow t c))
      (proposalsAt main t \ committedBetween shortId fees main (c + 1) (t + consensus.txProposalWindow.farthest))
      (commitmentsAt shortId fees main c) =
    earned ratio (fun id => decide (id ∉ competingProposals main consensus.txProposalWindow t c)) (proposalsAt main t)
      (commitmentsAt shortId fees main c) := by
    apply earned_congr
    intro commitment member
    rw [Finset.mem_sdiff, and_iff_left (fresh commitment member)]
  have total := rewardBetween_step shortId fees main ratio consensus.txProposalWindow (t := t) high
  have within := @rewardBetween_le H shortId fees main ratio consensus.txProposalWindow t
    (t + consensus.txProposalWindow.closest) (t + consensus.txProposalWindow.farthest)
    (c - (t + consensus.txProposalWindow.closest))
  rw [Nat.add_sub_cancel' low] at within
  have blockEq := rewardBlock_eq (fun id => decide (id ∉ competingProposals main consensus.txProposalWindow t c))
    positive shortId store (stored.feesStored block (List.mem_of_getElem? found))
    (proposalsAt main t \ committedBetween shortId fees main (c + 1) (t + consensus.txProposalWindow.farthest))
    (rewardBetween shortId fees main ratio consensus.txProposalWindow t (c + 1) (t + consensus.txProposalWindow.farthest))
  rw [stored.commitments_eq found, unchanged] at blockEq
  rw [blockEq (distinct.nodup low high) (small c low high) (by unfold earliestProposerReward at bounded; omega),
    committedBetween_step shortId fees main high, sdiff_sdiff_left, Finset.sup_eq_union, Finset.union_comm, total,
    Nat.add_comm (rewardBetween shortId fees main ratio consensus.txProposalWindow t (c + 1) _)]

/-- The loop from the height `t + closest + d` of the window, in the state the heights above it
leave: the remaining proposals, the competing ones, and the reward so far. For a target at height
two or more, the competing heights the loop reads are those below the target. -/
theorem StoredMain.competingLoop_eq (two : 2 ≤ t) :
    ∀ d fuel (block : Block H), t + consensus.txProposalWindow.closest + d ≤ t + consensus.txProposalWindow.farthest →
      d ≤ fuel → main[t + consensus.txProposalWindow.closest + d]? = some block →
      (competingLoop consensus ratio shortId store (t + consensus.txProposalWindow.closest) fuel block.header
          (proposalsAt main t \ committedBetween shortId fees main (t + consensus.txProposalWindow.closest + d)
            (t + consensus.txProposalWindow.farthest))
          (competingProposals main consensus.txProposalWindow t (t + consensus.txProposalWindow.closest + d))
          (rewardBetween shortId fees main ratio consensus.txProposalWindow t (t + consensus.txProposalWindow.closest + d)
            (t + consensus.txProposalWindow.farthest))).run =
        some (.ok (earliestProposerReward shortId fees main ratio consensus.txProposalWindow t)) := by
  intro d
  induction d with
  | zero =>
    intro fuel block _ _ found
    have number := stored.number_eq found
    rw [competingLoop_stop consensus ratio shortId store fun going => by omega]
    rfl
  | succ d ih =>
    intro fuel block inside enough found
    obtain ⟨turns, rfl⟩ : ∃ turns, fuel = turns + 1 := ⟨fuel - 1, by omega⟩
    have number := stored.number_eq found
    by_cases remains : (proposalsAt main t \ committedBetween shortId fees main
        (t + consensus.txProposalWindow.closest + (d + 1)) (t + consensus.txProposalWindow.farthest)).Nonempty
    · obtain ⟨parent, parentFound⟩ : ∃ parent, main[t + consensus.txProposalWindow.closest + d]? = some parent :=
        ⟨_, List.getElem?_eq_getElem (by omega)⟩
      obtain ⟨competitor, competitorFound⟩ : ∃ competitor,
          main[max (t + consensus.txProposalWindow.closest + d - consensus.txProposalWindow.farthest) 1]? = some competitor :=
        ⟨_, List.getElem?_eq_getElem (by omega)⟩
      have competingHash : store.getBlockHash (max (parent.header.number - consensus.txProposalWindow.farthest) 1) =
          some competitor.hash := by
        rw [stored.number_eq parentFound, stored.index, competitorFound]
        rfl
      rw [competingLoop_succ consensus ratio shortId store ⟨by omega, remains⟩ (stored.parent_eq found parentFound)
        competingHash]
      -- the competing heights grow by the one the loop reads
      have proposedEq : competingProposals main consensus.txProposalWindow t (t + consensus.txProposalWindow.closest + (d + 1)) ∪
          getProposalIdsByHash store competitor.hash =
            competingProposals main consensus.txProposalWindow t (t + consensus.txProposalWindow.closest + d) := by
        rw [stored.proposals_eq competitorFound]
        exact competingProposals_step main consensus.txProposalWindow (c := t + consensus.txProposalWindow.closest + d) two
          (by omega)
      apply ExceptT.run_bind_eq_ok.mpr
      refine ⟨_, stored.rewardBlock_window positive distinct small bounded parentFound (by omega) (by omega) _
        (by rw [proposedEq]), ?_⟩
      simp only [proposedEq]
      exact ih turns parent (by omega) (by omega) parentFound
    · -- every proposal of the target is committed above: nothing below earns
      have exhausted : proposalsAt main t ⊆ committedBetween shortId fees main
          (t + consensus.txProposalWindow.closest + (d + 1)) (t + consensus.txProposalWindow.farthest) := by
        rwa [Finset.not_nonempty_iff_eq_empty, Finset.sdiff_eq_empty_iff_subset] at remains
      rw [competingLoop_stop consensus ratio shortId store fun going => remains going.2]
      show some (Except.ok _) = some (Except.ok _)
      rw [earliestProposerReward, distinct.rewardBetween_eq ratio consensus.txProposalWindow (by omega) (by omega) exhausted]

/-- `proposal_reward` of a target at height two or more, paid by the block after the main-chain
block `farthest` above it: the reward of the earliest proposer. -/
theorem StoredMain.proposalReward_eq (two : 2 ≤ t)
    (ordered : consensus.txProposalWindow.closest ≤ consensus.txProposalWindow.farthest) {parent target : Block H}
    (parentFound : main[t + consensus.txProposalWindow.farthest]? = some parent) (targetFound : main[t]? = some target) :
    (proposalReward consensus ratio shortId store parent.header target.header).run =
      some (.ok (earliestProposerReward shortId fees main ratio consensus.txProposalWindow t)) := by
  have parentNumber := stored.number_eq parentFound
  have length : consensus.txProposalWindow.length =
      some (consensus.txProposalWindow.farthest - consensus.txProposalWindow.closest + 1) := if_pos ordered
  -- the commit heights of the target's proposals start `closest` above it
  have start : max (parent.header.number + 1 - (consensus.txProposalWindow.farthest - consensus.txProposalWindow.closest + 1))
      (1 + consensus.txProposalWindow.closest) = t + consensus.txProposalWindow.closest := by
    rw [parentNumber]
    omega
  -- the parent rewards every commitment: nothing competes with the target there
  have parentStep := stored.rewardBlock_window positive distinct small bounded parentFound (by omega) (Nat.le_refl _)
    (fun _ => true) (by funext id; rw [competingProposals_top main _ (by omega)]; simp)
  rw [committedBetween_empty shortId fees main (by omega), Finset.sdiff_empty,
    rewardBetween_empty shortId fees main ratio _ (by omega)] at parentStep
  -- the loop starts at the parent, `farthest - closest` above the first commit height
  have span : t + consensus.txProposalWindow.closest +
      (consensus.txProposalWindow.farthest - consensus.txProposalWindow.closest) = t + consensus.txProposalWindow.farthest := by
    omega
  have loop := stored.competingLoop_eq top positive distinct small bounded two
    (consensus.txProposalWindow.farthest - consensus.txProposalWindow.closest) parent.header.number parent (by omega)
    (by omega) (by rw [span]; exact parentFound)
  rw [span, competingProposals_top main _ (by omega)] at loop
  unfold proposalReward
  simp only [length, ExceptT.lift_some, pure_bind, start]
  rw [show target.header.hash = target.hash from rfl, stored.proposals_eq targetFound]
  apply ExceptT.run_bind_eq_ok.mpr
  exact ⟨_, parentStep, loop⟩

/-- `block_reward_to_finalize` at the block after the main-chain block `farthest` above a target at
height two or more: that target, its miner's fees and the reward of its earliest proposals. -/
theorem StoredMain.blockRewardToFinalize_eq (two : 2 ≤ t)
    (ordered : consensus.txProposalWindow.closest ≤ consensus.txProposalWindow.farthest) (proper : ratio.numer ≤ ratio.denom)
    {parent target : Block H} (parentFound : main[t + consensus.txProposalWindow.farthest]? = some parent)
    (targetFound : main[t]? = some target) (feesSmall : ∀ txFee ∈ fees target, txFee * ratio.numer < 2 ^ 64)
    (feesBounded : ((fees target).map fun txFee => txFee - share ratio txFee).sum < 2 ^ 64) :
    (blockRewardToFinalize consensus ratio shortId store parent.header).run =
      some (.ok (target.header, ((fees target).map fun txFee => txFee - share ratio txFee).sum,
        earliestProposerReward shortId fees main ratio consensus.txProposalWindow t)) := by
  have targetNumber : consensus.finalizeTarget (parent.header.number + 1) = some t := by
    rw [Consensus.finalizeTarget, if_pos (by omega), Consensus.finalizationDelayLength, stored.number_eq parentFound]
    congr 1
    omega
  have targetHeader : (store.getBlockHash t).bind store.getBlockHeader = some target.header := by
    rw [stored.index, targetFound]
    exact stored.header target (List.mem_of_getElem? targetFound)
  obtain ⟨ext, extFound, extFees⟩ := Option.map_eq_some_iff.mp (stored.feesStored target (List.mem_of_getElem? targetFound))
  rw [← extFees] at feesSmall feesBounded ⊢
  unfold blockRewardToFinalize
  simp only [targetNumber, targetHeader, ExceptT.lift_some, pure_bind]
  apply ExceptT.run_bind_eq_ok.mpr
  refine ⟨_, txsFees_eq positive store proper extFound feesSmall feesBounded, ?_⟩
  apply ExceptT.run_bind_eq_ok.mpr
  exact ⟨_, stored.proposalReward_eq top positive distinct small bounded two ordered parentFound targetFound, rfl⟩

end Target

end Loop

end RewardCalculator

section Run

open RewardCalculator

variable {H : Type} [DecidableEq H] [LinearOrder H] {ctx : ChainContext H} {blocks : List (Block H)}
  {chain : ChainState H}

/-- The store of the chain service holds its main chain as the reward calculator reads it, with the
fees the verifier recorded for each block. -/
theorem ChainInvariant.storedMain {tip : Block H} (inv : ChainInvariant ctx blocks chain tip)
    (shortId : H → ProposalShortId) :
    StoredMain shortId (fun block => (storedExt chain.store block).txsFees) chain.store (Linked.chain blocks tip) where
  numbered n lt := (inv.linked.chain_getElem inv.best.1 n lt).2
  linked n lt := inv.linked.parentHash_getElem_chain inv.best.1 n lt
  index := inv.index
  header block member := inv.stored.header block (inv.linked.mem_chain inv.best.1 block member)
  proposals block member := storedProposalIds_eq inv.stored (inv.linked.mem_chain inv.best.1 block member)
  committed block member := by
    rw [committedIdx, inv.stored.getBlockBody inv.linked.hash_injective (inv.linked.mem_chain inv.best.1 block member),
      ← List.map_drop, List.map_map]
    rfl
  feesStored block member := by
    rw [txsFeesProc, inv.exts block (inv.linked.mem_chain inv.best.1 block member)]
    rfl

variable {switch : Switch} (ratio : Ratio) (shortId : H → ProposalShortId)

/-- On every run of the chain service, `block_reward_to_finalize` at the main-chain block `farthest`
above a target at height two or more pays that target the fees the verifier recorded less the
proposers' shares, and the reward of its earliest proposals. -/
theorem Processed.blockRewardToFinalize_eq (passes : Passes ctx switch) (run : Processed ctx switch blocks chain)
    (positive : 0 < ratio.denom) (proper : ratio.numer ≤ ratio.denom)
    (ordered : ctx.consensus.txProposalWindow.closest ≤ ctx.consensus.txProposalWindow.farthest) :
    ∃ tip, Linked.EarliestHeaviest (totalDifficultyOf blocks) blocks tip ∧ chain.store.tipHash = some tip.hash ∧
      ∀ t (parent target : Block H), 2 ≤ t →
        (Linked.chain blocks tip)[t + ctx.consensus.txProposalWindow.farthest]? = some parent →
        (Linked.chain blocks tip)[t]? = some target →
        DistinctBetween shortId (fun block => (storedExt chain.store block).txsFees) (Linked.chain blocks tip)
          (t + ctx.consensus.txProposalWindow.closest) (t + ctx.consensus.txProposalWindow.farthest) →
        (∀ c, t + ctx.consensus.txProposalWindow.closest ≤ c → c ≤ t + ctx.consensus.txProposalWindow.farthest →
          ∀ commitment ∈ commitmentsAt shortId (fun block => (storedExt chain.store block).txsFees)
            (Linked.chain blocks tip) c, commitment.2 * ratio.numer < 2 ^ 64) →
        earliestProposerReward shortId (fun block => (storedExt chain.store block).txsFees) (Linked.chain blocks tip) ratio
          ctx.consensus.txProposalWindow t < 2 ^ 64 →
        (∀ txFee ∈ (storedExt chain.store target).txsFees, txFee * ratio.numer < 2 ^ 64) →
        ((storedExt chain.store target).txsFees.map fun txFee => txFee - share ratio txFee).sum < 2 ^ 64 →
        (blockRewardToFinalize ctx.consensus ratio shortId chain.store parent.header).run =
          some (.ok (target.header, ((storedExt chain.store target).txsFees.map fun txFee => txFee - share ratio txFee).sum,
            earliestProposerReward shortId (fun block => (storedExt chain.store block).txsFees) (Linked.chain blocks tip)
              ratio ctx.consensus.txProposalWindow t)) := by
  obtain ⟨tip, inv⟩ := Processed.invariant passes run
  refine ⟨tip, inv.best, inv.tipHash, fun t parent target two parentFound targetFound distinct small bounded => ?_⟩
  have top := (List.getElem?_eq_some_iff.mp parentFound).1
  exact (inv.storedMain shortId).blockRewardToFinalize_eq top positive distinct small bounded two ordered proper
    parentFound targetFound

/-! At a target at height one the loop's competing heights start at the target itself:
`competing_proposal_start` is clamped to `1`, which is `t`. With the window `(1, 2)`, a run of three
blocks on the genesis where the block at height one proposes an id and the block at height two
commits it with a fee of `100`: the earliest proposer's reward at the ratio `4/10` is `40`, and
`block_reward_to_finalize` at the block after height three pays the target none of it. -/

def rewardContext : ChainContext Nat :=
  { sampleContext with
    consensus := { sampleContext.consensus with txProposalWindow := ⟨1, 2⟩ }
    contextualVerify := fun _ _ block => some ((block.transactions.drop 1).map fun _ => 100) }

def rewardTarget : Block Nat where
  header := ⟨2, 1, 1, ⟨0⟩, 0, 0x20010000⟩
  uncles := []
  transactions := [⟨20, [], [], [⟨OutPoint.null, 0⟩], [], [], []⟩]
  proposals := [⟨[1]⟩]

def rewardCommit : Block Nat where
  header := ⟨3, 2, 2, ⟨0⟩, 0, 0x20010000⟩
  uncles := []
  transactions := [⟨30, [], [], [⟨OutPoint.null, 0⟩], [], [], []⟩, ⟨50, [], [], [], [], [], []⟩]
  proposals := []

def rewardParent : Block Nat where
  header := ⟨4, 3, 3, ⟨0⟩, 0, 0x20010000⟩
  uncles := []
  transactions := [⟨40, [], [], [⟨OutPoint.null, 0⟩], [], [], []⟩]
  proposals := []

def rewardShortId (hash : Nat) : ProposalShortId := if hash = 50 then ⟨[1]⟩ else ⟨[0]⟩

def rewardTargetChain : ChainState Nat :=
  (processBlock rewardContext ⟨false⟩ (initChain rewardContext sampleGenesis) rewardTarget).getD
    (initChain rewardContext sampleGenesis)

def rewardCommitChain : ChainState Nat :=
  (processBlock rewardContext ⟨false⟩ rewardTargetChain rewardCommit).getD rewardTargetChain

def rewardParentChain : ChainState Nat :=
  (processBlock rewardContext ⟨false⟩ rewardCommitChain rewardParent).getD rewardCommitChain

theorem first_height_target_loses_proposer_reward :
    Processed rewardContext ⟨false⟩ [sampleGenesis, rewardTarget, rewardCommit, rewardParent] rewardParentChain ∧
      rewardParentChain.store.tipHash = some rewardParent.hash ∧
      Linked.chain [sampleGenesis, rewardTarget, rewardCommit, rewardParent] rewardParent =
        [sampleGenesis, rewardTarget, rewardCommit, rewardParent] ∧
      1 ≤ rewardContext.consensus.txProposalWindow.closest ∧
      rewardContext.consensus.txProposalWindow.closest ≤ rewardContext.consensus.txProposalWindow.farthest ∧
      DistinctBetween rewardShortId (fun block => (storedExt rewardParentChain.store block).txsFees)
        [sampleGenesis, rewardTarget, rewardCommit, rewardParent] 2 3 ∧
      (blockRewardToFinalize rewardContext.consensus ⟨4, 10⟩ rewardShortId rewardParentChain.store
        rewardParent.header).run = some (.ok (rewardTarget.header, 0, 0)) ∧
      earliestProposerReward rewardShortId (fun block => (storedExt rewardParentChain.store block).txsFees)
        [sampleGenesis, rewardTarget, rewardCommit, rewardParent] ⟨4, 10⟩ rewardContext.consensus.txProposalWindow 1 = 40 := by
  have genesisValid : ValidOn [] sampleGenesis := ⟨by decide, by decide, by decide, by decide⟩
  have targetProcessed : processBlock rewardContext ⟨false⟩ (initChain rewardContext sampleGenesis) rewardTarget =
      some rewardTargetChain :=
    (Option.eq_some_of_isSome (by decide)).trans rfl
  have commitProcessed : processBlock rewardContext ⟨false⟩ rewardTargetChain rewardCommit = some rewardCommitChain :=
    (Option.eq_some_of_isSome (by decide)).trans rfl
  have parentProcessed : processBlock rewardContext ⟨false⟩ rewardCommitChain rewardParent = some rewardParentChain :=
    (Option.eq_some_of_isSome (by decide)).trans rfl
  have targetRun : Processed rewardContext ⟨false⟩ [sampleGenesis, rewardTarget] rewardTargetChain :=
    .block (.genesis rfl genesisValid) (List.mem_singleton_self _) rfl rfl (by decide)
      ⟨by decide, by decide, by decide, by decide⟩ targetProcessed
  have commitRun : Processed rewardContext ⟨false⟩ [sampleGenesis, rewardTarget, rewardCommit] rewardCommitChain :=
    .block targetRun (show rewardTarget ∈ [sampleGenesis, rewardTarget] by decide) rfl rfl (by decide) ⟨by decide, by decide, by decide, by decide⟩ commitProcessed
  have parentRun : Processed rewardContext ⟨false⟩ [sampleGenesis, rewardTarget, rewardCommit, rewardParent]
      rewardParentChain :=
    .block commitRun (show rewardCommit ∈ [sampleGenesis, rewardTarget, rewardCommit] by decide) rfl rfl (by decide) ⟨by decide, by decide, by decide, by decide⟩ parentProcessed
  exact ⟨parentRun, by decide, by decide, by decide, by decide, by decide, by decide, by decide⟩

end Run

end Ckb
