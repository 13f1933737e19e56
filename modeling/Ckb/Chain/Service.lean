import Ckb.Chain.Heaviest

/-!
The chain service over whole runs: the genesis state of `ChainDB::init` satisfies the invariant of
the heaviest-chain rule, every successful `insert_block` and `verify_block` keeps it, and so it holds
after every call of every run.
-/

namespace Ckb

open Linked MountainRange Store

variable {H : Type} [DecidableEq H] (ctx : ChainContext H)

/-- The store `ChainDB::init` writes for the genesis block, before the session is committed. -/
def genesisStore (genesis : Block H) : Store H :=
  ((((attachBlockCell ctx.calcDataHash ({} : Store H) genesis).insertBlock genesis).insertBlockExt genesis.hash
    ⟨genesis.header.difficulty, 0, some true, []⟩).insertTipHeader genesis.header).attachBlock genesis

theorem initChain_store (genesis : Block H) :
    ∃ mmr, (initChain ctx genesis).store = { genesisStore ctx genesis with chainRootMMR := mmr } :=
  ⟨_, by simp only [initChain, commitSession_eq, genesisStore]; rfl⟩

variable {ctx}

theorem chainInvariant_initChain {genesis : Block H} (zero : genesis.number = 0) (validGenesis : ValidOn [] genesis) :
    ChainInvariant ctx [genesis] (initChain ctx genesis) genesis := by
  have single : Linked.chain [genesis] genesis = [genesis] := chain_root [genesis] zero
  obtain ⟨mmr, storeEq⟩ := initChain_store ctx genesis
  set ext : BlockExt := ⟨genesis.header.difficulty, 0, some true, []⟩
  have extFound : ∀ hash, (initChain ctx genesis).store.getBlockExt hash = if hash = genesis.hash then some ext else none := by
    intro hash
    rw [storeEq]
    change ((∅ : FiniteMap H BlockExt).insert genesis.hash ext).lookup hash = _
    split_ifs with same
    · rw [same, Finmap.lookup_insert]
    · rw [Finmap.lookup_insert_of_ne _ same]
      rfl
  have genesisExt : storedExt (initChain ctx genesis).store genesis = ext := by
    rw [storedExt, extFound, if_pos rfl]
    rfl
  have total : totalDifficultyOf [genesis] genesis = genesis.header.difficulty := by
    simp [totalDifficultyOf, weight, single]
  have empty : BlocksStored [] (attachBlockCell ctx.calcDataHash ({} : Store H) genesis) :=
    ⟨by simp, by simp, by simp, by simp, fun _ mem => absurd mem Finmap.notMem_empty⟩
  exact {
    linked := ⟨by simp, fun b mem nonzero => absurd (List.mem_singleton.mp mem ▸ zero) nonzero, by simp⟩
    valid := fun b mem => by
      rw [List.mem_singleton.mp mem, single]
      exact (chainValid_append.mpr ⟨fun _ _ found => by simp at found, validGenesis⟩ : ChainValid ([] ++ [genesis]))
    best := ⟨List.mem_singleton_self _, fun b mem => by
      rw [List.mem_singleton.mp mem]
      exact ⟨le_refl _, fun _ => le_refl _⟩⟩
    tipHash := by rw [storeEq]; rfl
    tipHeader := rfl
    totalDifficulty := total.symm
    stored := by
      rw [storeEq]
      exact (empty.insertBlock (by simp)).congr ⟨rfl, rfl, rfl, rfl⟩
    exts := fun b mem => by
      rw [List.mem_singleton.mp mem, genesisExt, extFound, if_pos rfl]
    extsSound := fun hash found stored => by
      rw [extFound] at stored
      split_ifs at stored with same
      · cases stored
        exact ⟨genesis, List.mem_singleton_self _, same.symm, total.symm, by simp [ext]⟩
    verifiedClosed := fun b mem _ ancestor inChain => by
      rw [List.mem_singleton.mp mem, single, List.mem_singleton] at inChain
      rw [inChain, genesisExt]
    mainVerified := fun b inChain => by
      rw [single, List.mem_singleton] at inChain
      rw [inChain, genesisExt]
    index := fun n => by
      rw [storeEq, single]
      change ((∅ : FiniteMap Nat H).insert genesis.number genesis.hash).lookup n = _
      cases n with
      | zero => rw [zero, Finmap.lookup_insert]; rfl
      | succ n => rw [zero, Finmap.lookup_insert_of_ne _ (by omega)]; rfl
    cells := by rw [storeEq, single]; rfl
    transactionInfo := by rw [storeEq, single]; rfl }

variable [LinearOrder H] {switch : Switch} {blocks : List (Block H)} {chain chain' : ChainState H}
  {tip block parent : Block H}

/-- One call of `insert_block` and `verify_block` that returns keeps the invariant, with the old
tip or the new block as the tip. -/
theorem ChainInvariant.processBlock_step (inv : ChainInvariant ctx blocks chain tip) (parentMem : parent ∈ blocks)
    (linkedTo : parent.hash = block.parentHash) (above : block.number = parent.number + 1)
    (fresh : ∀ other ∈ blocks, other.hash = block.hash → other = block)
    (validBlock : ValidOn (Linked.chain blocks parent) block) (passes : Passes ctx switch)
    (processed : processBlock ctx switch chain block = some chain') :
    ∃ tip', ChainInvariant ctx (blocks ++ [block]) chain' tip' := by
  obtain ⟨parentFound, parentTotal, parentValid⟩ := inv.parentExt parentMem linkedTo
  rcases processBlock_cases parentFound parentValid (inv.ownValid block.hash) processed with
    ⟨own, rfl⟩ | ⟨count, own, -, ⟨lighter, rfl⟩ | ⟨heavier, fork, rolledBack, found, rolled, reconciled⟩⟩
  · exact ⟨tip, inv.verified_step parentMem linkedTo above fresh own⟩
  · refine ⟨tip, inv.lighter_step parentMem linkedTo above fresh validBlock own (by rw [← parentTotal]) rfl ?_⟩
    rw [← parentTotal, ← inv.totalDifficulty]
    exact lighter
  · have heavier' : totalDifficultyOf blocks tip < totalDifficultyOf blocks parent + block.header.difficulty := by
      rw [← inv.totalDifficulty, ← parentTotal]
      exact heavier
    obtain ⟨fork', rolledBack', reconciled', found', rolled', reconciledEq, kept⟩ :=
      inv.heavier_step parentMem linkedTo above fresh passes validBlock
        (show (⟨(storedExt chain.store parent).totalDifficulty + block.header.difficulty, count, none, []⟩ :
          BlockExt).totalDifficulty = _ by rw [parentTotal]) heavier'
    -- `find_fork` and `rollback` are functions: the call reconciles the fork the step lemma describes
    obtain rfl : fork' = fork := Option.some_inj.mp (found'.symm.trans found)
    obtain rfl : rolledBack' = rolledBack := Option.some_inj.mp (rolled'.symm.trans rolled)
    rcases reconciled with ⟨⟨error, failed⟩, -⟩ | ⟨reconciled, table, succeeded, -, rfl⟩
    · obtain ⟨_, succeeded⟩ := inv.reconcile_ok parentMem linkedTo above fresh passes found _
      rw [succeeded] at failed
      cases failed
    · obtain rfl : reconciled' = reconciled := Except.ok.inj (reconciledEq.symm.trans succeeded)
      refine ⟨block, ?_⟩
      have tipState := kept (table.finalize chain.proposals block.number).1 (table.finalize chain.proposals block.number).2.2
      rwa [← parentTotal] at tipState

theorem Processed.invariant (passes : Passes ctx switch) (run : Processed ctx switch blocks chain) :
    ∃ tip, ChainInvariant ctx blocks chain tip := by
  induction run with
  | genesis zero validGenesis => exact ⟨_, chainInvariant_initChain zero validGenesis⟩
  | block _ parentMem linkedTo above fresh validBlock processed ih =>
    obtain ⟨tip, inv⟩ := ih
    exact inv.processBlock_step parentMem linkedTo above fresh validBlock passes processed

theorem verify_block_follows_heaviest_chain (passes : Passes ctx switch) (run : Processed ctx switch blocks chain) :
    ∃ tip, EarliestHeaviest (totalDifficultyOf blocks) blocks tip ∧ chain.store.tipHash = some tip.hash ∧
      (∀ hash ext, chain.store.getBlockExt hash = some ext →
        ∃ block ∈ blocks, block.hash = hash ∧ ext.totalDifficulty = totalDifficultyOf blocks block) ∧
      (∀ n ≤ tip.number, ∃ ancestor ∈ Linked.chain blocks tip,
        ancestor.number = n ∧ chain.store.getBlockHash n = some ancestor.hash) ∧
      (∀ n, tip.number < n → chain.store.getBlockHash n = none) ∧
      (∀ outPoint, outPoint ∈ chain.store.cells.cell ↔ LiveOn (Linked.chain blocks tip) outPoint) ∧
      ∀ block ∈ Linked.chain blocks tip, ∃ ext, chain.store.getBlockExt block.hash = some ext ∧ ext.verified = some true := by
  obtain ⟨tip, inv⟩ := Processed.invariant passes run
  have length : (Linked.chain blocks tip).length = tip.number + 1 := inv.linked.length_chain inv.best.1
  refine ⟨tip, inv.best, inv.tipHash, fun hash ext found => ?_, fun n low => ?_, fun n high => ?_,
    fun outPoint => ?_, fun block inChain => ?_⟩
  · obtain ⟨block, mem, same, total, -⟩ := inv.extsSound hash ext found
    exact ⟨block, mem, same, total⟩
  · have lt : n < (Linked.chain blocks tip).length := by omega
    have numbered := (inv.linked.chain_getElem inv.best.1 n lt).2
    refine ⟨_, List.getElem_mem lt, numbered, ?_⟩
    rw [inv.index, List.getElem?_eq_getElem lt]
    rfl
  · rw [inv.index, List.getElem?_eq_none (by omega)]
    rfl
  · rw [inv.cells, chainStore]
    exact mem_cell_foldl_attach rfl (inv.valid tip inv.best.1) outPoint
  · exact ⟨_, inv.exts block (inv.linked.mem_chain inv.best.1 block inChain), inv.mainVerified block inChain⟩

/-! A run of two calls: the genesis of the cell tests, then a heavier block spending one of its
cells, which makes `verify_block` switch the tip. -/

def sampleContext : ChainContext Nat :=
  ⟨List.length, ⟨⟨2, 10⟩, 1, ⟨⟨1⟩⟩⟩, ⟨fun _ _ leaf => [leaf], fun leaves => leaves⟩, fun _ _ _ => none⟩

def heavyBlock : Block Nat where
  header := ⟨2, 1, 1, ⟨0⟩, 0, 0x20010000⟩
  uncles := []
  transactions := [⟨20, [], [], [⟨OutPoint.null, 0⟩], [sampleOutput], [[]], [[]]⟩,
    ⟨30, [], [], [⟨⟨10, 0⟩, 0⟩], [sampleOutput], [[2]], [[]]⟩]
  proposals := []

def heavyChain : ChainState Nat :=
  (processBlock sampleContext ⟨true⟩ (initChain sampleContext sampleGenesis) heavyBlock).getD
    (initChain sampleContext sampleGenesis)

example : heavyChain.store.tipHash = some heavyBlock.hash := by decide

theorem heavyBlock_processed : Processed sampleContext ⟨true⟩ [sampleGenesis, heavyBlock] heavyChain := by
  have genesisValid : ValidOn [] sampleGenesis := ⟨by decide, by decide, by decide, by decide⟩
  have valid : ValidOn (Linked.chain [sampleGenesis] sampleGenesis) heavyBlock := by
    rw [chain_root [sampleGenesis] rfl]
    exact ⟨by decide, by decide, by decide, by decide⟩
  have processed :
      processBlock sampleContext ⟨true⟩ (initChain sampleContext sampleGenesis) heavyBlock = some heavyChain :=
    (Option.eq_some_of_isSome (by decide)).trans rfl
  exact .block (.genesis rfl genesisValid) (List.mem_singleton_self _) rfl rfl (by decide) valid processed

/-! A longer run: a sibling of `heavyBlock` of the same weight, which does not take the tip as it
came later, then two blocks on `heavyBlock`. -/

/-- A block at `number` on the block `parentHash` holding only its cellbase. -/
def cellbaseBlock (hash parentHash number : Nat) : Block Nat where
  header := ⟨hash, parentHash, number, ⟨0⟩, 0, 0x20010000⟩
  uncles := []
  transactions := [⟨10 * hash + 5, [], [], [⟨OutPoint.null, 0⟩], [sampleOutput], [[]], [[]]⟩]
  proposals := []

/-- The chain after processing `blocks`, the latest first, over the genesis. -/
def chainAfter (ctx : ChainContext Nat) : List (Block Nat) → ChainState Nat
  | [] => initChain ctx sampleGenesis
  | block :: earlier => (processBlock ctx ⟨true⟩ (chainAfter ctx earlier) block).getD (chainAfter ctx earlier)

theorem Processed.chainAfter_cons {ctx : ChainContext Nat} {blocks earlier : List (Block Nat)} {block parent : Block Nat}
    (run : Processed ctx ⟨true⟩ blocks (chainAfter ctx earlier)) (parentMem : parent ∈ blocks)
    (linkedTo : parent.hash = block.parentHash) (above : block.number = parent.number + 1)
    (fresh : ∀ other ∈ blocks, other.hash = block.hash → other = block) (valid : ValidOn (Linked.chain blocks parent) block)
    (ok : (processBlock ctx ⟨true⟩ (chainAfter ctx earlier) block).isSome) :
    Processed ctx ⟨true⟩ (blocks ++ [block]) (chainAfter ctx (block :: earlier)) := by
  obtain ⟨next, stepped⟩ := Option.isSome_iff_exists.mp ok
  refine .block run parentMem linkedTo above fresh valid ?_
  rw [chainAfter, stepped, Option.getD_some]

def forkBlocks : List (Block Nat) :=
  [sampleGenesis, heavyBlock, cellbaseBlock 3 1 1, cellbaseBlock 4 2 2, cellbaseBlock 5 4 3]

/-- The run of `forkBlocks` under any context whose calls of `process_block` along it succeed. -/
theorem forkBlocks_processed (ctx : ChainContext Nat)
    (heavyOk : (processBlock ctx ⟨true⟩ (chainAfter ctx []) heavyBlock).isSome)
    (siblingOk : (processBlock ctx ⟨true⟩ (chainAfter ctx [heavyBlock]) (cellbaseBlock 3 1 1)).isSome)
    (extendOk : (processBlock ctx ⟨true⟩ (chainAfter ctx [cellbaseBlock 3 1 1, heavyBlock]) (cellbaseBlock 4 2 2)).isSome)
    (topOk : (processBlock ctx ⟨true⟩ (chainAfter ctx [cellbaseBlock 4 2 2, cellbaseBlock 3 1 1, heavyBlock])
      (cellbaseBlock 5 4 3)).isSome) :
    Processed ctx ⟨true⟩ forkBlocks
      (chainAfter ctx [cellbaseBlock 5 4 3, cellbaseBlock 4 2 2, cellbaseBlock 3 1 1, heavyBlock]) := by
  have genesisValid : ValidOn [] sampleGenesis := ⟨by decide, by decide, by decide, by decide⟩
  have heavy : Processed ctx ⟨true⟩ [sampleGenesis, heavyBlock] (chainAfter ctx [heavyBlock]) :=
    (Processed.genesis rfl genesisValid).chainAfter_cons (List.mem_singleton_self _) rfl rfl (by decide)
      (by rw [chain_root [sampleGenesis] rfl]; exact ⟨by decide, by decide, by decide, by decide⟩)
      heavyOk
  have sibling := heavy.chainAfter_cons (show sampleGenesis ∈ [sampleGenesis, heavyBlock] by decide) rfl rfl
    (by decide) ⟨by decide, by decide, by decide, by decide⟩ siblingOk
  have extended := sibling.chainAfter_cons
    (show heavyBlock ∈ [sampleGenesis, heavyBlock, cellbaseBlock 3 1 1] by decide) rfl rfl (by decide)
    ⟨by decide, by decide, by decide, by decide⟩ extendOk
  exact extended.chainAfter_cons
    (show cellbaseBlock 4 2 2 ∈ [sampleGenesis, heavyBlock, cellbaseBlock 3 1 1, cellbaseBlock 4 2 2] by decide)
    rfl rfl (by decide) ⟨by decide, by decide, by decide, by decide⟩
    topOk

example : (chainAfter sampleContext [cellbaseBlock 5 4 3, cellbaseBlock 4 2 2, cellbaseBlock 3 1 1, heavyBlock]).store.tipHash =
    some 5 := by
  decide

theorem heavyBlock_run_follows_heaviest_chain :
    Passes sampleContext ⟨true⟩ ∧ Processed sampleContext ⟨true⟩ [sampleGenesis, heavyBlock] heavyChain ∧
      ∃ tip, EarliestHeaviest (totalDifficultyOf [sampleGenesis, heavyBlock]) [sampleGenesis, heavyBlock] tip ∧
        heavyChain.store.tipHash = some tip.hash ∧
        (∀ hash ext, heavyChain.store.getBlockExt hash = some ext →
          ∃ block ∈ [sampleGenesis, heavyBlock], block.hash = hash ∧
            ext.totalDifficulty = totalDifficultyOf [sampleGenesis, heavyBlock] block) ∧
        (∀ n ≤ tip.number, ∃ ancestor ∈ Linked.chain [sampleGenesis, heavyBlock] tip,
          ancestor.number = n ∧ heavyChain.store.getBlockHash n = some ancestor.hash) ∧
        (∀ n, tip.number < n → heavyChain.store.getBlockHash n = none) ∧
        (∀ outPoint, outPoint ∈ heavyChain.store.cells.cell ↔
          LiveOn (Linked.chain [sampleGenesis, heavyBlock] tip) outPoint) ∧
        ∀ block ∈ Linked.chain [sampleGenesis, heavyBlock] tip,
          ∃ ext, heavyChain.store.getBlockExt block.hash = some ext ∧ ext.verified = some true :=
  ⟨.inl rfl, heavyBlock_processed, verify_block_follows_heaviest_chain (.inl rfl) heavyBlock_processed⟩

end Ckb
