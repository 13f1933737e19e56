import Ckb.Chain.Service
import Ckb.Chain.ProposalTableSpec
import Ckb.Verification.TwoPhaseCommit

/-!
The proposal table against the main chain. After every call of a run the table holds, for each
number of the next block's window but genesis, the proposals of the main-chain block there and of
its uncles; the view `finalize` computes from it is then what `TwoPhaseCommitVerifier` accepts at
the next height (`set`) and what was proposed since (`gap`).

On a switch of main chain `update_proposal_table` removes the detached numbers and inserts the
attached blocks; `finalize` had pruned the numbers below the old window, and
`reload_proposal_table` refills those of the new window that lie below the fork. Genesis is kept
by the table but skipped by the verifier, so the view agrees with the verifier when genesis and its
uncles propose nothing.
-/

namespace Ckb

open Linked

variable {H : Type}

/-- The table of a main chain whose tip is at `tipNumber`. -/
structure ProposalsAgree (proposalWindow : ProposalWindow) (main : List (Block H)) (tipNumber : Nat)
    (proposalTable : ProposalTable) : Prop where
  window : proposalTable.proposalWindow = proposalWindow
  bounded : ∀ n ids, proposalTable.table.lookup n = some ids → n ≤ tipNumber
  entries : ∀ block ∈ main, 0 < block.number → tipNumber + 1 - proposalWindow.farthest ≤ block.number →
    proposalTable.table.lookup block.number = some block.unionProposalIds.toFinset
  genesis : ∀ block ∈ main, block.number = 0 → ∀ ids, proposalTable.table.lookup 0 = some ids →
    ids = block.unionProposalIds.toFinset

theorem ProposalsAgree.finalize {window : ProposalWindow} {main : List (Block H)} {tipNumber : Nat}
    {proposalTable : ProposalTable} (agree : ProposalsAgree window main tipNumber proposalTable) (origin : ProposalView) :
    ProposalsAgree window main tipNumber (proposalTable.finalize origin tipNumber).1 := by
  have pruned := proposalTable.lookup_finalize origin tipNumber
  rw [agree.window] at pruned
  constructor
  · rw [proposalTable.proposalWindow_finalize, agree.window]
  · intro n ids found
    rw [pruned] at found
    split_ifs at found
    exact agree.bounded n ids found
  · intro block mem positive inWindow
    rw [pruned, if_neg (by omega)]
    exact agree.entries block mem positive inWindow
  · intro block mem zero ids found
    rw [pruned] at found
    split_ifs at found
    exact agree.genesis block mem zero ids found

variable [DecidableEq H]

section Update

variable {blocks : List (Block H)} (linked : WellLinked blocks) {tip block : Block H} (tipMem : tip ∈ blocks)
  (blockMem : block ∈ blocks)

include linked tipMem blockMem

/-- The table after the detached numbers are removed and the attached blocks inserted: the new
chain's proposals above the fork, the old entries at and below it. -/
theorem lookup_detach_attach (k : Nat) {proposalTable : ProposalTable}
    (bounded : ∀ n ids, proposalTable.table.lookup n = some ids → n ≤ tip.number) (n : Nat) :
    (((Linked.chain blocks block).drop (k + 1)).foldl
        (fun table blk => table.insert blk.number blk.unionProposalIds.toFinset)
        (((Linked.chain blocks tip).drop (k + 1)).foldl (fun table blk => table.remove blk.number) proposalTable)).table.lookup n =
      if n ≤ k then proposalTable.table.lookup n
      else (Linked.chain blocks block)[n]?.map fun b => b.unionProposalIds.toFinset := by
  have attachedNumbers : n ∈ ((Linked.chain blocks block).drop (k + 1)).map Block.number ↔ k + 1 ≤ n ∧ n ≤ block.number :=
    linked.mem_map_number_drop_chain blockMem (k + 1) n
  rw [ProposalTable.table_foldl_insert]
  by_cases attached : n ∈ ((Linked.chain blocks block).drop (k + 1)).map Block.number
  · have bounds := attachedNumbers.mp attached
    obtain ⟨x, atN, numbered⟩ := linked.getElem?_chain_of_le blockMem bounds.2
    have agree : ∀ a ∈ (Linked.chain blocks block).drop (k + 1), a.number = n →
        a.unionProposalIds.toFinset = x.unionProposalIds.toFinset := by
      intro a member same
      have atA := linked.getElem?_number_chain blockMem (List.mem_of_mem_drop member)
      simp only [linked_number, same, atN, Option.some.injEq] at atA
      rw [atA]
    rw [FiniteMap.lookup_foldl_insert _ _ _ _ agree, if_pos attached, if_neg (by omega), atN, Option.map_some]
  · rw [FiniteMap.lookup_foldl_insert_of_notMem _ _ _ _ attached, ProposalTable.table_foldl_remove,
      FiniteMap.lookup_foldl_erase]
    have detachedNumbers : n ∈ ((Linked.chain blocks tip).drop (k + 1)).map Block.number ↔ k + 1 ≤ n ∧ n ≤ tip.number :=
      linked.mem_map_number_drop_chain tipMem (k + 1) n
    have notAttached : ¬ (k + 1 ≤ n ∧ n ≤ block.number) := fun bounds => attached (attachedNumbers.mpr bounds)
    by_cases below : n ≤ k
    · rw [if_neg fun detached => by have := detachedNumbers.mp detached; omega, if_pos below]
    · -- above the new tip: nothing is attached there, and what was stored there is detached
      have beyond : (Linked.chain blocks block).length ≤ n := by
        rw [linked.length_chain blockMem]
        simp only [linked_number]
        omega
      rw [if_neg below, List.getElem?_eq_none beyond, Option.map_none]
      split_ifs with detached
      · rfl
      · cases found : proposalTable.table.lookup n with
        | none => rfl
        | some ids => exact absurd (detachedNumbers.mpr ⟨by omega, bounded n ids found⟩) detached

variable [LinearOrder H] (ctx : ChainContext H) {store : Store H} {fork : ForkChanges H} (k : Nat)
  (attached : fork.attachedBlocks = (Linked.chain blocks block).drop (k + 1))
  (detached : fork.detachedBlocks = (Linked.chain blocks tip).drop (k + 1))
  (index : ∀ n, store.getBlockHash n = (Linked.chain blocks block)[n]?.map Block.hash)
  (stored : BlocksStored blocks store)
include attached detached index stored

/-- `reload_proposal_table` after a switch whose new chain keeps the old one up to height `k`: it
writes only numbers in `[1, k]`, each with the new chain's proposals there, and when a block was
detached it writes all of them in the window of the block after the new tip. -/
theorem reloadProposalTable_refills (below : k < block.number) (proposalTable : ProposalTable) :
    ∃ reloaded, reloadProposalTable ctx store fork proposalTable = some reloaded ∧
      reloaded.proposalWindow = proposalTable.proposalWindow ∧
      (∀ n, reloaded.table.lookup n = proposalTable.table.lookup n ∨
        (0 < n ∧ n ≤ k ∧ reloaded.table.lookup n = (Linked.chain blocks block)[n]?.map fun b => b.unionProposalIds.toFinset)) ∧
      (fork.detachedBlocks ≠ [] → ∀ n, 0 < n → block.number + 1 - ctx.consensus.txProposalWindow.farthest ≤ n → n ≤ k →
        reloaded.table.lookup n = (Linked.chain blocks block)[n]?.map fun b => b.unionProposalIds.toFinset) := by
  by_cases none : fork.detachedBlocks = []
  · have keep : reloadProposalTable ctx store fork proposalTable = some proposalTable := by
      simp [reloadProposalTable, ForkChanges.hasDetached, none]
    exact ⟨proposalTable, keep, rfl, fun n => .inl rfl, fun nonempty => absurd none nonempty⟩
  -- the first detached block sits one above the fork
  have long : k + 1 ≤ tip.number := by
    have length := List.length_pos_iff.mpr none
    rw [detached, List.length_drop, linked.length_chain tipMem] at length
    simp only [linked_number] at length
    omega
  obtain ⟨front, atFront, frontNumber⟩ := linked.getElem?_chain_of_le tipMem long
  have has : fork.hasDetached = true := by simp [ForkChanges.hasDetached, none]
  have head : fork.detachedBlocks.head? = some front := by rw [detached, List.head?_drop, atFront]
  have frontNumber' : front.number = k + 1 := frontNumber
  by_cases first : k = 0
  · -- the fork is at genesis: `detached_front < 2`
    subst first
    have keep : reloadProposalTable ctx store fork proposalTable = some proposalTable := by
      simp only [reloadProposalTable, has, if_true, head, Option.map_some, Option.bind_eq_bind, Option.bind_some,
        frontNumber']
      rfl
    exact ⟨proposalTable, keep, rfl, fun n => .inl rfl, fun _ n positive _ le => absurd le (by omega)⟩
  have last : fork.attachedBlocks.getLast? = some block := by
    rw [attached, List.getLast?_drop, if_neg (by rw [linked.length_chain blockMem]; simp only [linked_number]; omega),
      linked.getLast_chain blockMem]
  have notShort : ¬ k + 1 < 2 := by omega
  simp only [reloadProposalTable, has, if_true, head, Option.map_some, Option.bind_eq_bind, Option.bind_some,
    frontNumber', if_neg notShort, Nat.add_sub_cancel, last, Option.getD_some]
  -- every number of the range has a block of the new chain, stored under the hash the index gives
  refine ⟨_, foldlM_option_eq_some_foldl
    (g := fun table bn => table.insert bn (((Linked.chain blocks block)[bn]?.map fun b => b.unionProposalIds.toFinset).getD ∅))
    (fun table bn member => ?_) proposalTable, ?_, fun n => ?_, fun _ n positive inWindow le => ?_⟩
  · rw [List.mem_range'_1] at member
    obtain ⟨x, atBn, -⟩ := linked.getElem?_chain_of_le blockMem (show bn ≤ number block by simp only [linked_number]; omega)
    have xMem := linked.mem_chain blockMem x (List.mem_of_getElem? atBn)
    simp only [index, atBn, Option.map_some, Option.bind_some,
      stored.getBlock linked.hash_injective xMem, Option.getD_some]
    rfl
  · apply ProposalTable.proposalWindow_foldl
    intro table bn
    rfl
  · rw [ProposalTable.table_foldl_insert, FiniteMap.lookup_foldl_insert _ _ _ _ fun a _ same => by rw [same]]
    split_ifs with inRange
    · simp only [List.map_id', List.mem_range'_1] at inRange
      obtain ⟨x, atN, -⟩ := linked.getElem?_chain_of_le blockMem (show n ≤ number block by simp only [linked_number]; omega)
      right
      refine ⟨by omega, by omega, ?_⟩
      rw [atN]
      rfl
    · exact .inl rfl
  · have inRange : n ∈ (List.range' (max 1 (block.number + 1 - ctx.consensus.txProposalWindow.farthest))
        (k + 1 - max 1 (block.number + 1 - ctx.consensus.txProposalWindow.farthest))).map fun bn => bn := by
      simp only [List.map_id', List.mem_range'_1]
      omega
    rw [ProposalTable.table_foldl_insert, FiniteMap.lookup_foldl_insert _ _ _ _ fun a _ same => by rw [same],
      if_pos inRange]
    obtain ⟨x, atN, -⟩ := linked.getElem?_chain_of_le blockMem (show n ≤ number block by simp only [linked_number]; omega)
    rw [atN]
    rfl

/-- `update_proposal_table` on a switch whose new chain keeps the old one up to height `k`: the
table agrees with the new main chain. -/
theorem ProposalsAgree.update {proposalTable : ProposalTable}
    (agree : ProposalsAgree ctx.consensus.txProposalWindow (Linked.chain blocks tip) tip.number proposalTable)
    (meet : (Linked.chain blocks block).take (k + 1) = (Linked.chain blocks tip).take (k + 1))
    (below : k < block.number) :
    ∃ updated, updateProposalTable ctx store fork proposalTable = some updated ∧
      ProposalsAgree ctx.consensus.txProposalWindow (Linked.chain blocks block) block.number updated := by
  obtain ⟨updated, reloaded, window, refills, refilled⟩ := reloadProposalTable_refills linked tipMem blockMem ctx k
    attached detached index stored below
    (((Linked.chain blocks block).drop (k + 1)).foldl (fun table blk => table.insert blk.number blk.unionProposalIds.toFinset)
      (((Linked.chain blocks tip).drop (k + 1)).foldl (fun table blk => table.remove blk.number) proposalTable))
  have patchedAt := lookup_detach_attach linked tipMem blockMem k agree.bounded
  have fresh : ∀ n, k < n →
      updated.table.lookup n = (Linked.chain blocks block)[n]?.map fun b => b.unionProposalIds.toFinset := by
    intro n above
    rcases refills n with same | ⟨-, le, -⟩
    · rw [same, patchedAt n, if_neg (by omega)]
    · omega
  have kept : ∀ n ≤ k, updated.table.lookup n = proposalTable.table.lookup n ∨
      (0 < n ∧ updated.table.lookup n = (Linked.chain blocks block)[n]?.map fun b => b.unionProposalIds.toFinset) := by
    intro n le
    rcases refills n with same | ⟨positive, -, refilledAt⟩
    · rw [same, patchedAt n, if_pos le]
      exact .inl rfl
    · exact .inr ⟨positive, refilledAt⟩
  -- at and below the fork the new chain is the old one
  have onOld : ∀ b ∈ Linked.chain blocks block, b.number ≤ k → b ∈ Linked.chain blocks tip := by
    intro b bMem le
    have atB := linked.getElem?_number_chain blockMem bMem
    simp only [linked_number] at atB
    rw [← List.getElem?_take_of_lt (show b.number < k + 1 by omega), meet,
      List.getElem?_take_of_lt (show b.number < k + 1 by omega)] at atB
    exact List.mem_of_getElem? atB
  refine ⟨updated, by simpa only [updateProposalTable, attached, detached] using reloaded, ?_⟩
  constructor
  · rw [window,
      ProposalTable.proposalWindow_foldl _ _ fun table (blk : Block H) =>
        table.proposalWindow_insert blk.number blk.unionProposalIds.toFinset,
      ProposalTable.proposalWindow_foldl _ _ fun table (blk : Block H) => table.proposalWindow_remove blk.number,
      agree.window]
  · intro n ids found
    by_cases le : n ≤ k
    · omega
    · rw [fresh n (by omega)] at found
      obtain ⟨x, atN, -⟩ := Option.map_eq_some_iff.mp found
      have lt := (List.getElem?_eq_some_iff.mp atN).1
      rw [linked.length_chain blockMem] at lt
      simp only [linked_number] at lt
      omega
  · intro b bMem positive inWindow
    have atB : (Linked.chain blocks block)[b.number]? = some b := linked.getElem?_number_chain blockMem bMem
    by_cases above : k < b.number
    · rw [fresh _ above, atB, Option.map_some]
    · by_cases none : fork.detachedBlocks = []
      · -- nothing detached: the old tip is the fork
        have tipAt : tip.number ≤ k := by
          have length := congrArg List.length (detached.symm.trans none)
          rw [List.length_drop, linked.length_chain tipMem, List.length_nil] at length
          simp only [linked_number] at length
          omega
        rcases kept b.number (by omega) with same | ⟨-, refilledAt⟩
        · rw [same]
          exact agree.entries b (onOld b bMem (by omega)) positive (by omega)
        · rw [refilledAt, atB, Option.map_some]
      · rw [refilled none _ positive inWindow (by omega), atB, Option.map_some]
  · intro b bMem zero ids found
    rcases kept 0 (Nat.zero_le k) with same | ⟨positive, -⟩
    · rw [same] at found
      exact agree.genesis b (onOld b bMem (by omega)) zero ids found
    · omega

end Update

section View

variable {blocks : List (Block H)} (linked : WellLinked blocks) {tip : Block H} (tipMem : tip ∈ blocks)
  {proposalWindow : ProposalWindow} {proposalTable : ProposalTable}
  (agree : ProposalsAgree proposalWindow (Linked.chain blocks tip) tip.number proposalTable)
  (quiet : ∀ genesis ∈ Linked.chain blocks tip, genesis.number = 0 → genesis.unionProposalIds = [])
include linked tipMem agree quiet

/-- A range of the table inside the window: the proposals of the main-chain blocks numbered in it,
genesis apart. -/
theorem ProposalsAgree.mem_rangeIds (inRange : Nat → Prop) [DecidablePred inRange]
    (inWindow : ∀ n, inRange n → 0 < n → tip.number + 1 - proposalWindow.farthest ≤ n) (id : ProposalShortId) :
    id ∈ proposalTable.rangeIds inRange ↔
      ∃ b ∈ Linked.chain blocks tip, 0 < b.number ∧ inRange b.number ∧ id ∈ b.unionProposalIds := by
  rw [proposalTable.mem_rangeIds]
  constructor
  · intro found
    obtain ⟨n, ids, within, stored, member⟩ := found
    obtain ⟨b, atN, numbered⟩ := linked.getElem?_chain_of_le tipMem (agree.bounded n ids stored)
    have bMem := List.mem_of_getElem? atN
    simp only [linked_number] at numbered
    subst numbered
    rcases Nat.eq_zero_or_pos b.number with zero | positive
    · -- genesis is kept by the table, but proposes nothing
      rw [zero] at stored
      rw [agree.genesis b bMem zero ids stored, quiet b bMem zero] at member
      simp at member
    · rw [agree.entries b bMem positive (inWindow _ within positive), Option.some.injEq] at stored
      rw [← stored] at member
      exact ⟨b, bMem, positive, within, List.mem_toFinset.mp member⟩
  · intro found
    obtain ⟨b, bMem, positive, within, member⟩ := found
    exact ⟨b.number, _, within, agree.entries b bMem positive (inWindow _ within positive), List.mem_toFinset.mpr member⟩

theorem ProposalsAgree.mem_set (origin : ProposalView) (id : ProposalShortId) :
    id ∈ (proposalTable.finalize origin tip.number).2.2.set ↔
      ∃ b ∈ Linked.chain blocks tip, 0 < b.number ∧ tip.number + 1 - proposalWindow.farthest ≤ b.number ∧
        b.number ≤ tip.number + 1 - proposalWindow.closest ∧ id ∈ b.unionProposalIds := by
  rw [proposalTable.set_finalize, agree.window]
  split_ifs with early
  · -- the window of the next block ends at genesis
    simp only [Finset.notMem_empty, false_iff]
    intro found
    obtain ⟨b, -, positive, -, upper, -⟩ := found
    omega
  · rw [agree.mem_rangeIds linked tipMem quiet _ fun n within _ => within.1]
    simp only [and_assoc]

theorem ProposalsAgree.mem_gap (ordered : proposalWindow.closest ≤ proposalWindow.farthest) (origin : ProposalView)
    (id : ProposalShortId) :
    id ∈ (proposalTable.finalize origin tip.number).2.2.gap ↔
      ∃ b ∈ Linked.chain blocks tip, tip.number + 1 - proposalWindow.closest < b.number ∧ b.number ≤ tip.number ∧
        id ∈ b.unionProposalIds := by
  rw [proposalTable.gap_finalize origin tip.number (by rw [agree.window]; exact ordered), agree.window]
  split_ifs with early
  · rw [agree.mem_rangeIds linked tipMem quiet _ fun n _ _ => by omega]
    constructor
    · intro found
      obtain ⟨b, bMem, positive, le, member⟩ := found
      exact ⟨b, bMem, by omega, le, member⟩
    · intro found
      obtain ⟨b, bMem, above, le, member⟩ := found
      exact ⟨b, bMem, by omega, le, member⟩
  · rw [agree.mem_rangeIds linked tipMem quiet _ fun n within _ => by omega]
    constructor
    · intro found
      obtain ⟨b, bMem, -, ⟨above, le⟩, member⟩ := found
      exact ⟨b, bMem, above, le, member⟩
    · intro found
      obtain ⟨b, bMem, above, le, member⟩ := found
      exact ⟨b, bMem, by omega, ⟨above, le⟩, member⟩

end View

section Verifier

variable {blocks : List (Block H)} (linked : WellLinked blocks) {tip : Block H} (tipMem : tip ∈ blocks)
  {store : Store H} (stored : BlocksStored blocks store)
include linked tipMem stored

omit linked tipMem in
theorem storedProposalIds_eq {block : Block H} (mem : block ∈ blocks) :
    storedProposalIds store block.hash = block.unionProposalIds.toFinset := by
  rw [storedProposalIds, stored.proposals block mem, stored.uncles block mem, Option.getD_some, Option.getD_some,
    Block.unionProposalIds, List.toFinset_append]

/-- The loop of `TwoPhaseCommitVerifier` from a block of the main chain down to `proposalStart`:
the proposals of the blocks it passes, genesis apart. -/
theorem collectProposals_chain (proposalStart : Nat) :
    ∀ (proposalEnd : Nat) (x : Block H) acc, (Linked.chain blocks tip)[proposalEnd]? = some x →
      ∃ ids, collectProposals store proposalStart proposalEnd x.hash acc = some (.ok ids) ∧
        ∀ id, id ∈ ids ↔ id ∈ acc ∨ ∃ b ∈ Linked.chain blocks tip, 0 < b.number ∧ proposalStart ≤ b.number ∧
          b.number ≤ proposalEnd ∧ id ∈ b.unionProposalIds := by
  intro proposalEnd
  -- the loop counts `proposal_end` down one parent at a time
  induction proposalEnd with
  | zero =>
    intro x acc atZero
    have xMem := linked.mem_chain tipMem x (List.mem_of_getElem? atZero)
    have numbered : x.header.number = 0 := linked.number_of_getElem?_chain tipMem atZero
    refine ⟨acc, ?_, fun id => ⟨.inl, fun found => ?_⟩⟩
    · rw [collectProposals]
      split_ifs with early
      · rfl
      · -- the block at height zero is genesis, where the loop stops
        simp only [Store.getBlockHeader, stored.header x xMem, numbered, ↓reduceIte]
    · rcases found with member | ⟨b, -, positive, -, le, -⟩
      · exact member
      · omega
  | succ proposalEnd ih =>
    intro x acc atEnd
    have xMem := linked.mem_chain tipMem x (List.mem_of_getElem? atEnd)
    have numbered : x.number = proposalEnd + 1 := linked.number_of_getElem?_chain tipMem atEnd
    have numbered' : x.header.number = proposalEnd + 1 := numbered
    by_cases early : proposalEnd + 1 < proposalStart
    · refine ⟨acc, by rw [collectProposals, if_pos early], fun id => ⟨.inl, fun found => ?_⟩⟩
      rcases found with member | ⟨b, -, -, low, le, -⟩
      · exact member
      · omega
    obtain ⟨lt, xEq⟩ := List.getElem?_eq_some_iff.mp atEnd
    have parent : x.header.parentHash = (Linked.chain blocks tip)[proposalEnd].hash := by
      have linkedAt := linked.parentHash_getElem_chain tipMem proposalEnd lt
      rw [xEq] at linkedAt
      exact linkedAt
    obtain ⟨ids, collected, members⟩ :=
      ih _ (acc ∪ x.unionProposalIds.toFinset) (List.getElem?_eq_getElem (by omega))
    refine ⟨ids, ?_, fun id => ?_⟩
    · rw [collectProposals, if_neg early]
      simp only [Store.getBlockHeader, stored.header x xMem, numbered', Nat.add_one_ne_zero, ↓reduceIte]
      rw [storedProposalIds_eq stored xMem, parent]
      exact collected
    · rw [members, Finset.mem_union, List.mem_toFinset]
      constructor
      · intro found
        rcases found with (member | member) | ⟨b, bMem, positive, low, le, member⟩
        · exact .inl member
        · exact .inr ⟨x, List.mem_of_getElem? atEnd, by omega, by omega, by omega, member⟩
        · exact .inr ⟨b, bMem, positive, low, by omega, member⟩
      · intro found
        rcases found with member | ⟨b, bMem, positive, low, le, member⟩
        · exact .inl (.inl member)
        · by_cases top : b.number = proposalEnd + 1
          · -- the main-chain block at the loop's height is the one it reads
            have atB := linked.getElem?_number_chain tipMem bMem
            simp only [linked_number, top, atEnd, Option.some.injEq] at atB
            rw [atB]
            exact .inl (.inr member)
          · exact .inr ⟨b, bMem, positive, low, by omega, member⟩

/-- `TwoPhaseCommitVerifier` for a block one above the tip of the main chain: it accepts exactly
when every committed transaction was proposed in the window by the main chain, genesis apart. -/
theorem twoPhaseCommitVerify_chain {consensus : Consensus} (near : 1 ≤ consensus.txProposalWindow.closest)
    (index : ∀ n, store.getBlockHash n = (Linked.chain blocks tip)[n]?.map Block.hash)
    (shortId : H → ProposalShortId) (candidate : Block H) (next : candidate.number = tip.number + 1) :
    twoPhaseCommitVerify consensus shortId store candidate = some (.ok ()) ↔
      ∀ tx ∈ candidate.transactions.drop 1, ∃ b ∈ Linked.chain blocks tip, 0 < b.number ∧
        tip.number + 1 - consensus.txProposalWindow.farthest ≤ b.number ∧
        b.number ≤ tip.number + 1 - consensus.txProposalWindow.closest ∧ shortId tx.hash ∈ b.unionProposalIds := by
  obtain ⟨top, atTop, -⟩ := linked.getElem?_chain_of_le tipMem
    (show tip.number + 1 - consensus.txProposalWindow.closest ≤ number tip by simp only [linked_number]; omega)
  obtain ⟨ids, collected, members⟩ := collectProposals_chain linked tipMem stored
    (tip.number + 1 - consensus.txProposalWindow.farthest) _ top ∅ atTop
  unfold twoPhaseCommitVerify
  rw [next, if_neg (Nat.add_one_ne_zero _)]
  simp only [index, atTop, Option.map_some, collected, Option.some.injEq]
  dsimp only [Except.bind]
  split_ifs with missing
  · -- a committed id that the loop did not collect
    simp only [false_iff]
    obtain ⟨shortTx, member⟩ := missing
    rw [Finset.mem_sdiff, List.mem_toFinset, List.mem_map] at member
    obtain ⟨⟨tx, txMem, rfl⟩, absent⟩ := member
    intro all
    exact absent ((members _).mpr (.inr (all tx txMem)))
  · simp only [true_iff]
    intro tx txMem
    have committed : shortId tx.hash ∈ ids := by
      rw [Finset.not_nonempty_iff_eq_empty, Finset.sdiff_eq_empty_iff_subset] at missing
      exact missing (List.mem_toFinset.mpr (List.mem_map.mpr ⟨tx, txMem, rfl⟩))
    rcases (members _).mp committed with empty | found
    · simp at empty
    · exact found

end Verifier

/-- The proposal fields of a chain state: the table and the view `finalize` gives from a table that
agrees with the main chain. -/
def ProposalsFollow (proposalWindow : ProposalWindow) (main : List (Block H)) (tipNumber : Nat)
    (chain : ChainState H) : Prop :=
  ∃ (proposalTable : ProposalTable) (origin : ProposalView),
    ProposalsAgree proposalWindow main tipNumber proposalTable ∧
      chain.proposalTable = (proposalTable.finalize origin tipNumber).1 ∧
      chain.proposals = (proposalTable.finalize origin tipNumber).2.2

theorem proposalsFollow_initChain (ctx : ChainContext H) {genesis : Block H} (zero : genesis.number = 0)
    (validGenesis : ValidOn [] genesis) :
    ProposalsFollow ctx.consensus.txProposalWindow [genesis] 0 (initChain ctx genesis) := by
  have inv : ChainInvariant ctx [genesis] (initChain ctx genesis) genesis := chainInvariant_initChain zero validGenesis
  have read : (initChain ctx genesis).store.getBlockHash 0 = some genesis.hash := by
    rw [inv.index, chain_root _ zero]
    rfl
  have proposals := inv.stored.proposals genesis (List.mem_singleton_self _)
  have uncles := inv.stored.uncles genesis (List.mem_singleton_self _)
  have agree : ProposalsAgree ctx.consensus.txProposalWindow [genesis] 0
      ((ProposalTable.new ctx.consensus.txProposalWindow).insert 0 genesis.unionProposalIds.toFinset) := by
    constructor
    · rfl
    · intro n ids found
      rw [ProposalTable.lookup_insert] at found
      split_ifs at found with same
      · omega
      · simp [ProposalTable.new] at found
    · intro block mem positive _
      rw [List.mem_singleton.mp mem, zero] at positive
      omega
    · intro block mem _ ids found
      rw [ProposalTable.lookup_insert, if_pos rfl, Option.some.injEq] at found
      rw [List.mem_singleton.mp mem, found]
  -- the window of the block after genesis covers height zero only
  have initial : initProposalTable ctx (initChain ctx genesis).store genesis.number =
      ((((ProposalTable.new ctx.consensus.txProposalWindow).insert 0 genesis.unionProposalIds.toFinset).finalize {} 0).1,
        (((ProposalTable.new ctx.consensus.txProposalWindow).insert 0 genesis.unionProposalIds.toFinset).finalize {} 0).2.2) := by
    unfold initProposalTable
    simp only [zero, Nat.zero_sub, Nat.sub_zero, Nat.zero_add, List.range'_one, List.foldl_cons, List.foldl_nil, read,
      proposals, uncles, Option.getD_some]
    rw [Block.unionProposalIds, List.toFinset_append]
  exact ⟨_, {}, agree, congrArg Prod.fst initial, congrArg Prod.snd initial⟩

section Run

variable [LinearOrder H] {ctx : ChainContext H} {switch : Switch} {blocks : List (Block H)} {chain : ChainState H}

theorem Processed.proposals (passes : Passes ctx switch) (run : Processed ctx switch blocks chain) :
    ∀ tip, ChainInvariant ctx blocks chain tip →
      ProposalsFollow ctx.consensus.txProposalWindow (Linked.chain blocks tip) tip.number chain := by
  induction run with
  | genesis zero validGenesis =>
    intro tip inv
    obtain rfl := inv.eq_of_tipHash (List.mem_singleton_self _) (chainInvariant_initChain zero validGenesis).tipHash
    rw [chain_root _ zero, zero]
    exact proposalsFollow_initChain ctx zero validGenesis
  | @block blocks chain chain' block parent prefixRun parentMem linkedTo above fresh validBlock processed ih =>
    intro tip' inv'
    obtain ⟨tip, inv⟩ := Processed.invariant passes prefixRun
    have follows := ih tip inv
    have tipMem : tip ∈ blocks ++ [block] := List.mem_append_left _ inv.best.1
    have blockMem : block ∈ blocks ++ [block] := List.mem_append_right _ (List.mem_singleton_self _)
    have sameTip := inv.chain_append parentMem linkedTo above fresh inv.best.1
    obtain ⟨parentFound, -, parentValid⟩ := inv.parentExt parentMem linkedTo
    rcases processBlock_cases parentFound parentValid (inv.ownValid block.hash) processed with
      ⟨-, rfl⟩ | ⟨count, -, -, ⟨-, rfl⟩ | ⟨-, fork, rolledBack, found, -, ⟨⟨error, failed⟩, -⟩ |
        ⟨reconciled, table, -, updated, rfl⟩⟩⟩
    · -- the tip stays and so do the proposal fields
      obtain rfl := inv'.eq_of_tipHash tipMem inv.tipHash
      rw [sameTip]
      exact follows
    · obtain rfl := inv'.eq_of_tipHash tipMem inv.tipHash
      rw [sameTip]
      exact follows
    · obtain ⟨_, succeeded⟩ := inv.reconcile_ok parentMem linkedTo above fresh passes found rolledBack
      rw [succeeded] at failed
      cases failed
    · -- a switch to the new block: the table the state holds is patched for the fork
      obtain rfl : block = tip' := (inv'.eq_of_tipHash blockMem rfl).symm
      obtain ⟨before, origin, agree, tableEq, -⟩ := follows
      have agreeNow : ProposalsAgree ctx.consensus.txProposalWindow (Linked.chain (blocks ++ [block]) tip) tip.number
          chain.proposalTable := by
        rw [sameTip, tableEq]
        exact agree.finalize origin
      obtain ⟨k, fork', found', meet, newLt, -, attached, detached, -⟩ := inv.findFork_append parentMem linkedTo above fresh
        ⟨(storedExt chain.store parent).totalDifficulty + block.header.difficulty, count, none, []⟩
      obtain rfl : fork' = fork := Option.some_inj.mp (found'.symm.trans found)
      rw [← sameTip] at meet detached
      have below : k < block.number := by
        rw [inv'.linked.length_chain blockMem] at newLt
        simp only [linked_number] at newLt
        omega
      obtain ⟨updated', updatedEq, agree'⟩ :=
        agreeNow.update inv'.linked tipMem blockMem ctx k attached detached inv'.index inv'.stored meet below
      obtain rfl : updated' = table := Option.some_inj.mp (updatedEq.symm.trans updated)
      exact ⟨updated', chain.proposals, agree', rfl, rfl⟩

theorem proposal_view_agrees_with_two_phase_commit (passes : Passes ctx switch) (run : Processed ctx switch blocks chain)
    (near : 1 ≤ ctx.consensus.txProposalWindow.closest)
    (ordered : ctx.consensus.txProposalWindow.closest ≤ ctx.consensus.txProposalWindow.farthest)
    (quietGenesis : ∀ genesis ∈ blocks, genesis.number = 0 → genesis.unionProposalIds = [])
    (shortId : H → ProposalShortId) :
    ∃ tip, EarliestHeaviest (totalDifficultyOf blocks) blocks tip ∧ chain.store.tipHash = some tip.hash ∧
      (∀ id, id ∈ chain.proposals.set ↔ ∃ b ∈ Linked.chain blocks tip, 0 < b.number ∧
        tip.number + 1 - ctx.consensus.txProposalWindow.farthest ≤ b.number ∧
        b.number ≤ tip.number + 1 - ctx.consensus.txProposalWindow.closest ∧ id ∈ b.unionProposalIds) ∧
      (∀ candidate : Block H, candidate.number = tip.number + 1 →
        (twoPhaseCommitVerify ctx.consensus shortId chain.store candidate = some (.ok ()) ↔
          ∀ tx ∈ candidate.transactions.drop 1, shortId tx.hash ∈ chain.proposals.set)) ∧
      ∀ id, id ∈ chain.proposals.gap ↔ ∃ b ∈ Linked.chain blocks tip,
        tip.number + 1 - ctx.consensus.txProposalWindow.closest < b.number ∧ b.number ≤ tip.number ∧
          id ∈ b.unionProposalIds := by
  obtain ⟨tip, inv⟩ := Processed.invariant passes run
  obtain ⟨proposalTable, origin, agree, -, viewEq⟩ := Processed.proposals passes run tip inv
  have tipMem := inv.best.1
  have quiet : ∀ genesis ∈ Linked.chain blocks tip, genesis.number = 0 → genesis.unionProposalIds = [] :=
    fun genesis member => quietGenesis genesis (inv.linked.mem_chain tipMem genesis member)
  have inSet := fun id => agree.mem_set inv.linked tipMem quiet origin id
  have inGap := fun id => agree.mem_gap inv.linked tipMem quiet ordered origin id
  simp only [← viewEq] at inSet inGap
  refine ⟨tip, inv.best, inv.tipHash, inSet, fun candidate next => ?_, inGap⟩
  rw [twoPhaseCommitVerify_chain inv.linked tipMem inv.stored near inv.index shortId candidate next]
  simp only [inSet]

theorem heavyBlock_run_proposal_view :
    Passes sampleContext ⟨true⟩ ∧ Processed sampleContext ⟨true⟩ [sampleGenesis, heavyBlock] heavyChain ∧
      1 ≤ sampleContext.consensus.txProposalWindow.closest ∧
      sampleContext.consensus.txProposalWindow.closest ≤ sampleContext.consensus.txProposalWindow.farthest ∧
      (∀ genesis ∈ [sampleGenesis, heavyBlock], genesis.number = 0 → genesis.unionProposalIds = []) ∧
      ∃ tip, EarliestHeaviest (totalDifficultyOf [sampleGenesis, heavyBlock]) [sampleGenesis, heavyBlock] tip ∧
        heavyChain.store.tipHash = some tip.hash ∧
        (∀ id, id ∈ heavyChain.proposals.set ↔ ∃ b ∈ Linked.chain [sampleGenesis, heavyBlock] tip, 0 < b.number ∧
          tip.number + 1 - sampleContext.consensus.txProposalWindow.farthest ≤ b.number ∧
          b.number ≤ tip.number + 1 - sampleContext.consensus.txProposalWindow.closest ∧ id ∈ b.unionProposalIds) ∧
        (∀ candidate : Block Nat, candidate.number = tip.number + 1 →
          (twoPhaseCommitVerify sampleContext.consensus (fun _ => ⟨[]⟩) heavyChain.store candidate = some (.ok ()) ↔
            ∀ tx ∈ candidate.transactions.drop 1, (⟨[]⟩ : ProposalShortId) ∈ heavyChain.proposals.set)) ∧
        ∀ id, id ∈ heavyChain.proposals.gap ↔ ∃ b ∈ Linked.chain [sampleGenesis, heavyBlock] tip,
          tip.number + 1 - sampleContext.consensus.txProposalWindow.closest < b.number ∧ b.number ≤ tip.number ∧
            id ∈ b.unionProposalIds :=
  ⟨.inl rfl, heavyBlock_processed, by decide, by decide, by decide,
    proposal_view_agrees_with_two_phase_commit (.inl rfl) heavyBlock_processed (by decide) (by decide) (by decide)
      fun _ => ⟨[]⟩⟩

/-! The view against the verifier when genesis proposes an id: with the window `(1, 10)`, after one
block on top of genesis the view's `set` holds the id, which no block of the window but genesis
proposes, and the verifier rejects a block at the next height that commits it. -/

def proposingContext : ChainContext Nat :=
  { sampleContext with consensus := { sampleContext.consensus with txProposalWindow := ⟨1, 10⟩ } }

def proposingGenesis : Block Nat := { sampleGenesis with proposals := [⟨[1]⟩] }

def proposingChain : ChainState Nat :=
  (processBlock proposingContext ⟨true⟩ (initChain proposingContext proposingGenesis) heavyBlock).getD
    (initChain proposingContext proposingGenesis)

/-- A block at height two committing one transaction after its cellbase. -/
def committingBlock : Block Nat where
  header := ⟨3, 2, 2, ⟨0⟩, 0, 0⟩
  uncles := []
  transactions := [⟨40, [], [], [⟨OutPoint.null, 0⟩], [], [], []⟩, ⟨50, [], [], [], [], [], []⟩]
  proposals := []

theorem genesis_proposal_in_set_rejected :
    Processed proposingContext ⟨true⟩ [proposingGenesis, heavyBlock] proposingChain ∧
      1 ≤ proposingContext.consensus.txProposalWindow.closest ∧
      proposingContext.consensus.txProposalWindow.closest ≤ proposingContext.consensus.txProposalWindow.farthest ∧
      proposingChain.store.tipHash = some heavyBlock.hash ∧
      (⟨[1]⟩ : ProposalShortId) ∈ proposingChain.proposals.set ∧
      (¬ ∃ b ∈ Linked.chain [proposingGenesis, heavyBlock] heavyBlock, 0 < b.number ∧
        heavyBlock.number + 1 - proposingContext.consensus.txProposalWindow.farthest ≤ b.number ∧
        b.number ≤ heavyBlock.number + 1 - proposingContext.consensus.txProposalWindow.closest ∧
        (⟨[1]⟩ : ProposalShortId) ∈ b.unionProposalIds) ∧
      committingBlock.number = heavyBlock.number + 1 ∧
      twoPhaseCommitVerify proposingContext.consensus (fun _ => ⟨[1]⟩) proposingChain.store committingBlock =
        some (.error .invalid) := by
  have genesisValid : ValidOn [] proposingGenesis := ⟨by decide, by decide, by decide, by decide⟩
  have valid : ValidOn (Linked.chain [proposingGenesis] proposingGenesis) heavyBlock := by
    rw [chain_root [proposingGenesis] rfl]
    exact ⟨by decide, by decide, by decide, by decide⟩
  have processed : processBlock proposingContext ⟨true⟩ (initChain proposingContext proposingGenesis) heavyBlock =
      some proposingChain :=
    (Option.eq_some_of_isSome (by decide)).trans rfl
  exact ⟨.block (.genesis rfl genesisValid) (List.mem_singleton_self _) rfl rfl (by decide) valid processed,
    by decide, by decide, by decide, by decide, by decide, rfl, by decide⟩

end Run

end Ckb
