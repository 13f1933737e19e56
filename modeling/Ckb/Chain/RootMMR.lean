import Ckb.Chain.Service

/-!
The chain root MMR over every run. Nodes are stored by position and never removed by a rollback;
`reconcile_main_chain` opens the range at the size below the first attached block and pushes the
digest of every attached block, verified part included, so with a lawful library the store holds,
below the size after the tip, the nodes of the range built from the main chain's digests.
-/

namespace Ckb

open Linked MountainRange Store

variable {H : Type}

/-- Below the size after the leaves of `main`, the store holds the nodes of the range built from
their digests. -/
def RootMatches (mmr : MountainRange (HeaderDigest H)) (store : Store H) (main : List (Block H)) : Prop :=
  ∀ position < mmr.sizeAfter main.length,
    store.getHeaderDigest position = (mmr.nodes (main.map Block.digest))[position]?

variable {mmr : MountainRange (HeaderDigest H)} {store : Store H} {main : List (Block H)}

theorem RootMatches.congr {store' : Store H} (roots : RootMatches mmr store main)
    (same : store'.chainRootMMR = store.chainRootMMR) : RootMatches mmr store' main := by
  intro position below
  unfold getHeaderDigest
  rw [same]
  exact roots position below

theorem RootMatches.take (lawful : mmr.Lawful) (roots : RootMatches mmr store main) (n : Nat) :
    RootMatches mmr store (main.take n) := by
  intro position below
  obtain ⟨rest, whole⟩ := nodes_prefix ((main.take n).map Block.digest) ((main.drop n).map Block.digest)
  rw [← List.map_append, List.take_append_drop] at whole
  have shorter : (mmr.nodes ((main.take n).map Block.digest)).length = mmr.sizeAfter (main.take n).length := by
    rw [length_nodes lawful, List.length_map]
  have longer : (mmr.nodes (main.map Block.digest)).length = mmr.sizeAfter main.length := by
    rw [length_nodes lawful, List.length_map]
  have lengths := congrArg List.length whole
  rw [List.length_append, shorter, longer] at lengths
  rw [roots position (by omega), ← whole, List.getElem?_append_left (by omega)]

variable [DecidableEq H]

theorem getHeaderDigest_commitSession (store : Store H) (session : Session (HeaderDigest H)) (position : Nat) :
    (commitSession store session).getHeaderDigest position =
      if session.start ≤ position ∧ position < session.size then session.batch[position - session.start]?
      else store.getHeaderDigest position := by
  have keys : position ∈ session.batch.zipIdx.map (fun entry => session.start + entry.2) ↔
      session.start ≤ position ∧ position < session.size := by
    simp only [List.mem_map, List.mem_zipIdx_iff_getElem?, Prod.exists, Session.size]
    constructor
    · intro found
      obtain ⟨digest, index, stored, rfl⟩ := found
      have bound := (List.getElem?_eq_some_iff.mp stored).1
      omega
    · intro bounds
      exact ⟨_, position - session.start, List.getElem?_eq_getElem (by omega), by omega⟩
  rw [commitSession_eq]
  unfold getHeaderDigest
  split_ifs with inside
  · obtain ⟨digest, found⟩ : ∃ digest, session.batch[position - session.start]? = some digest :=
      ⟨_, List.getElem?_eq_getElem (by simp only [Session.size] at inside; omega)⟩
    rw [FiniteMap.lookup_foldl_insert _ _ _ _ (v := digest) fun entry member same => ?_, if_pos (keys.mpr inside), found]
    rw [List.mem_zipIdx_iff_getElem?, show entry.2 = position - session.start by omega, found] at member
    exact Option.some.inj member.symm
  · exact FiniteMap.lookup_foldl_insert_of_notMem _ _ _ _ fun inserted => inside (keys.mp inserted)

/-- Pushing the digests of `more` in a session opened at the size after `lower`, over a store that
holds the range of `lower`, then committing, leaves the range of `lower ++ more`. -/
theorem RootMatches.commitSession (lawful : mmr.Lawful) {lower : List (Block H)} (roots : RootMatches mmr store lower)
    (more : List (Block H)) (store' : Store H) (same : store'.chainRootMMR = store.chainRootMMR) :
    RootMatches mmr (Ckb.commitSession store'
      ((more.map Block.digest).foldl (Session.push mmr store.getHeaderDigest) ⟨mmr.sizeAfter lower.length, []⟩))
      (lower ++ more) := by
  have opened : mmr.sizeAfter lower.length = (mmr.nodes (lower.map Block.digest)).length := by
    rw [length_nodes lawful, List.length_map]
  have pushes := session_pushes lawful store.getHeaderDigest (lower.map Block.digest)
    (fun position below => roots position (by omega)) (more.map Block.digest)
  rw [← opened, ← List.map_append] at pushes
  set session := (more.map Block.digest).foldl (Session.push mmr store.getHeaderDigest) ⟨mmr.sizeAfter lower.length, []⟩
  have start : session.start = mmr.sizeAfter lower.length := Session.start_foldl_push _ _ _
  have size : mmr.sizeAfter (lower ++ more).length = session.start + session.batch.length := by
    rw [← List.length_map Block.digest, ← length_nodes lawful, ← pushes, List.length_append, start, opened]
  intro position below
  rw [getHeaderDigest_commitSession, ← pushes]
  split_ifs with inside
  · rw [List.getElem?_append_right (by omega), start, opened]
  · have old : position < session.start := by simp only [Session.size] at inside; omega
    rw [List.getElem?_append_left (by omega)]
    unfold getHeaderDigest
    rw [same]
    exact roots position (by omega)

variable (ctx : ChainContext H)

theorem roots_initChain (lawful : ctx.chainRootMMR.Lawful) (genesis : Block H) :
    RootMatches ctx.chainRootMMR (initChain ctx genesis).store [genesis] := by
  have empty : RootMatches ctx.chainRootMMR (genesisStore ctx genesis) [] := fun position below => by
    rw [List.length_nil, lawful.sizeAfter_zero] at below
    omega
  have initial : (initChain ctx genesis).store = Ckb.commitSession (genesisStore ctx genesis)
      (([genesis].map Block.digest).foldl (Session.push ctx.chainRootMMR (genesisStore ctx genesis).getHeaderDigest)
        ⟨ctx.chainRootMMR.sizeAfter ([] : List (Block H)).length, []⟩) := by
    rw [List.length_nil, lawful.sizeAfter_zero]
    rfl
  rw [initial]
  exact empty.commitSession lawful [genesis] _ rfl

variable {ctx} [LinearOrder H]

section Step

variable {blocks : List (Block H)} {chain : ChainState H} {tip block parent : Block H}
  (inv : ChainInvariant ctx blocks chain tip) (parentMem : parent ∈ blocks) (linkedTo : parent.hash = block.parentHash)
  (above : block.number = parent.number + 1) (fresh : ∀ other ∈ blocks, other.hash = block.hash → other = block)
include inv parentMem linkedTo above fresh

/-- A switch to a heavier block: the session reopens the range at the size after the part of the
main chain the new chain keeps, and pushes the digests of the new chain above it. -/
theorem ChainInvariant.roots_heavier (lawful : ctx.chainRootMMR.Lawful) {switch : Switch} (passes : Passes ctx switch)
    (roots : RootMatches ctx.chainRootMMR chain.store (Linked.chain blocks tip)) {newExt : BlockExt}
    {fork : ForkChanges H} {rolledBack reconciled : Store H}
    (found : findFork (chain.store.insertBlock block) {} chain.tipHeader.number block newExt = some fork)
    (rolled : rollback ctx.calcDataHash (chain.store.insertBlock block) fork.detachedBlocks = some rolledBack)
    (reconciledEq : reconcileMainChain ctx switch rolledBack fork = .ok reconciled) :
    RootMatches ctx.chainRootMMR (reconciled.insertTipHeader block.header) (Linked.chain (blocks ++ [block]) block) := by
  have linked' := inv.linked_append parentMem linkedTo above fresh
  have blockMem : block ∈ blocks ++ [block] := List.mem_append_right _ (List.mem_singleton_self _)
  obtain ⟨k, fork', found', meet, newLt, -, attached, -, lower, upper, unseen, split, dirty⟩ :=
    inv.findFork_append parentMem linkedTo above fresh newExt
  obtain rfl : fork' = fork := Option.some_inj.mp (found'.symm.trans found)
  obtain ⟨start, blockExt, startAt, reconciled', -, -⟩ :=
    inv.reconcile_fork parentMem linkedTo above fresh passes attached split dirty rolledBack
  obtain rfl := Except.ok.inj (reconciledEq.symm.trans reconciled')
  -- the first attached block is one above the part both chains share
  have startNumber : start.number = k + 1 := by
    obtain ⟨lt, same⟩ := List.getElem?_eq_some_iff.mp startAt
    have numbered := (linked'.chain_getElem blockMem (k + 1) lt).2
    rwa [same] at numbered
  have opened : ctx.chainRootMMR.sizeAfter ((Linked.chain (blocks ++ [block]) block).take (k + 1)).length =
      leafIndexToMmrSize ctx.chainRootMMR (start.number - 1) := by
    rw [leafIndexToMmrSize, startNumber, List.length_take, Nat.min_eq_left (by omega), Nat.add_sub_cancel]
  have common : RootMatches ctx.chainRootMMR rolledBack ((Linked.chain (blocks ++ [block]) block).take (k + 1)) := by
    rw [meet]
    exact (roots.take lawful (k + 1)).congr (rollback_frame rolled).chainRootMMR
  have whole : (Linked.chain (blocks ++ [block]) block).take (k + 1) ++ (lower ++ upper) =
      Linked.chain (blocks ++ [block]) block := by
    rw [← split, attached, List.take_append_drop]
  have committed := common.commitSession lawful (lower ++ upper)
    { (lower ++ upper).foldl (attach ctx.calcDataHash) rolledBack with blockExt := blockExt }
    (chainRootMMR_foldl_attach ctx.calcDataHash _ _)
  rw [opened, whole] at committed
  exact committed.congr rfl

end Step

variable {switch : Switch} {blocks : List (Block H)} {chain : ChainState H}

theorem Processed.roots (lawful : ctx.chainRootMMR.Lawful) (passes : Passes ctx switch)
    (run : Processed ctx switch blocks chain) :
    ∀ tip, ChainInvariant ctx blocks chain tip → RootMatches ctx.chainRootMMR chain.store (Linked.chain blocks tip) := by
  induction run with
  | genesis zero validGenesis =>
    intro tip inv
    obtain rfl := inv.eq_of_tipHash (List.mem_singleton_self _) (chainInvariant_initChain zero validGenesis).tipHash
    rw [chain_root _ zero]
    exact roots_initChain ctx lawful _
  | @block blocks chain chain' block parent prefixRun parentMem linkedTo above fresh validBlock processed ih =>
    intro tip' inv'
    obtain ⟨tip, inv⟩ := Processed.invariant passes prefixRun
    have roots := ih tip inv
    have tipMem : tip ∈ blocks ++ [block] := List.mem_append_left _ inv.best.1
    have blockMem : block ∈ blocks ++ [block] := List.mem_append_right _ (List.mem_singleton_self _)
    obtain ⟨parentFound, -, parentValid⟩ := inv.parentExt parentMem linkedTo
    rcases processBlock_cases parentFound parentValid (inv.ownValid block.hash) processed with
      ⟨-, rfl⟩ | ⟨count, -, -, ⟨-, rfl⟩ | ⟨-, fork, rolledBack, found, rolled, ⟨⟨error, failed⟩, -⟩ |
        ⟨reconciled, table, reconciledEq, -, rfl⟩⟩⟩
    · -- the tip stays: the call only stored the block
      obtain rfl := inv'.eq_of_tipHash tipMem inv.tipHash
      rw [inv.chain_append parentMem linkedTo above fresh inv.best.1]
      exact roots.congr rfl
    · obtain rfl := inv'.eq_of_tipHash tipMem inv.tipHash
      rw [inv.chain_append parentMem linkedTo above fresh inv.best.1]
      exact roots.congr rfl
    · obtain ⟨_, succeeded⟩ := inv.reconcile_ok parentMem linkedTo above fresh passes found rolledBack
      rw [succeeded] at failed
      cases failed
    · -- the new block is the tip
      obtain rfl := inv'.eq_of_tipHash blockMem rfl
      exact inv.roots_heavier parentMem linkedTo above fresh lawful passes roots found rolled reconciledEq

theorem chain_root_mmr_follows_main_chain {R : Type} (lawful : ctx.chainRootMMR.Lawful) (passes : Passes ctx switch)
    (run : Processed ctx switch blocks chain) (root : (Nat → Option (HeaderDigest H)) → Nat → R)
    (rootReadsBelow : ∀ read read' size, (∀ position < size, read position = read' position) →
      root read size = root read' size) :
    ∃ tip, EarliestHeaviest (totalDifficultyOf blocks) blocks tip ∧ chain.store.tipHash = some tip.hash ∧
      ∀ n ≤ tip.number,
        (∀ position < leafIndexToMmrSize ctx.chainRootMMR n, chain.store.getHeaderDigest position =
          (ctx.chainRootMMR.nodes (((Linked.chain blocks tip).take (n + 1)).map Block.digest))[position]?) ∧
        root chain.store.getHeaderDigest (leafIndexToMmrSize ctx.chainRootMMR n) =
          root (fun position => (ctx.chainRootMMR.nodes (((Linked.chain blocks tip).take (n + 1)).map Block.digest))[position]?)
            (leafIndexToMmrSize ctx.chainRootMMR n) := by
  obtain ⟨tip, inv⟩ := Processed.invariant passes run
  refine ⟨tip, inv.best, inv.tipHash, fun n low => ?_⟩
  have length : ((Linked.chain blocks tip).take (n + 1)).length = n + 1 := by
    rw [List.length_take, inv.linked.length_chain inv.best.1]
    simp only [linked_number]
    omega
  have nodes : ∀ position < leafIndexToMmrSize ctx.chainRootMMR n, chain.store.getHeaderDigest position =
      (ctx.chainRootMMR.nodes (((Linked.chain blocks tip).take (n + 1)).map Block.digest))[position]? :=
    fun position below => ((Processed.roots lawful passes run tip inv).take lawful (n + 1)) position (by rwa [length])
  exact ⟨nodes, rootReadsBelow _ _ _ nodes⟩

/-! The fork run of `Ckb.Chain.Service`, over a range that keeps a running digest, with the list
of the nodes below a size as its root. -/

theorem nodesBelow_readsBelow (read read' : Nat → Option (HeaderDigest Nat)) (size : Nat)
    (agree : ∀ position < size, read position = read' position) :
    (List.range size).map read = (List.range size).map read' :=
  List.map_congr_left fun position member => agree position (List.mem_range.mp member)

/-- A range that appends, with each leaf, the running digest from the first leaf, read back from the
node before the push: two nodes a leaf. -/
def chainingRange : MountainRange (HeaderDigest Nat) where
  push read size leaf :=
    match (if size = 0 then none else read (size - 1)) with
    | none => [leaf, leaf]
    | some previous => [leaf, ⟨previous.childrenHash, previous.totalDifficulty + leaf.totalDifficulty,
        previous.startNumber, leaf.endNumber, previous.startEpoch, leaf.endEpoch, previous.startTimestamp,
        leaf.endTimestamp, previous.startCompactTarget, leaf.endCompactTarget⟩]
  sizeAfter n := 2 * n

theorem chainingRange_lawful : chainingRange.Lawful where
  local_push read read' size leaf agree := by
    by_cases empty : size = 0
    · simp [chainingRange, empty]
    · simp only [chainingRange, if_neg empty, agree (size - 1) (by omega)]
  sizeAfter_zero := rfl
  sizeAfter_succ read n leaf := by
    simp only [chainingRange]
    split <;> simp <;> omega

def chainingContext : ChainContext Nat := { sampleContext with chainRootMMR := chainingRange }

theorem forkRun_chain_root :
    chainingContext.chainRootMMR.Lawful ∧ Passes chainingContext ⟨true⟩ ∧
      Processed chainingContext ⟨true⟩ forkBlocks
        (chainAfter chainingContext [cellbaseBlock 5 4 3, cellbaseBlock 4 2 2, cellbaseBlock 3 1 1, heavyBlock]) ∧
      (∀ (read read' : Nat → Option (HeaderDigest Nat)) size, (∀ position < size, read position = read' position) →
        (List.range size).map read = (List.range size).map read') ∧
      ∃ tip, EarliestHeaviest (totalDifficultyOf forkBlocks) forkBlocks tip ∧
        (chainAfter chainingContext [cellbaseBlock 5 4 3, cellbaseBlock 4 2 2, cellbaseBlock 3 1 1, heavyBlock]).store.tipHash =
          some tip.hash ∧
        ∀ n ≤ tip.number,
          (∀ position < leafIndexToMmrSize chainingContext.chainRootMMR n,
            (chainAfter chainingContext
              [cellbaseBlock 5 4 3, cellbaseBlock 4 2 2, cellbaseBlock 3 1 1, heavyBlock]).store.getHeaderDigest position =
            (chainingContext.chainRootMMR.nodes (((Linked.chain forkBlocks tip).take (n + 1)).map Block.digest))[position]?) ∧
          (List.range (leafIndexToMmrSize chainingContext.chainRootMMR n)).map
              (chainAfter chainingContext
                [cellbaseBlock 5 4 3, cellbaseBlock 4 2 2, cellbaseBlock 3 1 1, heavyBlock]).store.getHeaderDigest =
            (List.range (leafIndexToMmrSize chainingContext.chainRootMMR n)).map fun position =>
              (chainingContext.chainRootMMR.nodes (((Linked.chain forkBlocks tip).take (n + 1)).map Block.digest))[position]? :=
  have processed := forkBlocks_processed chainingContext (by decide) (by decide) (by decide) (by decide)
  ⟨chainingRange_lawful, .inl rfl, processed, nodesBelow_readsBelow,
    chain_root_mmr_follows_main_chain chainingRange_lawful (.inl rfl) processed
      (fun read size => (List.range size).map read) nodesBelow_readsBelow⟩

end Ckb
