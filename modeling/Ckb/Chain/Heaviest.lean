import Ckb.Chain.Columns
import Ckb.Chain.LiveCells

/-!
The heaviest-chain rule over every run of the chain service. The invariant names the tip of the
snapshot and says that the store holds every received block, an ext with its total difficulty for
each, the main chain in the index, its cells and transactions, and a verified ext for each of its
blocks; one step of `insert_block` and `verify_block` keeps it, in each of its three outcomes.
-/

namespace Ckb

open Linked MountainRange Store

variable {H : Type} [DecidableEq H] (ctx : ChainContext H)

/-- What holds after every call, with `tip` the block the snapshot names. -/
structure ChainInvariant (blocks : List (Block H)) (chain : ChainState H) (tip : Block H) : Prop where
  linked : WellLinked blocks
  valid : ∀ block ∈ blocks, ChainValid (Linked.chain blocks block)
  best : EarliestHeaviest (totalDifficultyOf blocks) blocks tip
  tipHash : chain.store.tipHash = some tip.hash
  tipHeader : chain.tipHeader = tip.header
  totalDifficulty : chain.totalDifficulty = totalDifficultyOf blocks tip
  stored : BlocksStored blocks chain.store
  exts : ∀ block ∈ blocks, chain.store.getBlockExt block.hash = some (storedExt chain.store block)
  extsSound : ∀ hash ext, chain.store.getBlockExt hash = some ext →
    ∃ block ∈ blocks, block.hash = hash ∧ ext.totalDifficulty = totalDifficultyOf blocks block ∧ ext.verified ≠ some false
  verifiedClosed : ∀ block ∈ blocks, (storedExt chain.store block).verified = some true →
    ∀ ancestor ∈ Linked.chain blocks block, (storedExt chain.store ancestor).verified = some true
  mainVerified : ∀ block ∈ Linked.chain blocks tip, (storedExt chain.store block).verified = some true
  index : ∀ n, chain.store.getBlockHash n = (Linked.chain blocks tip)[n]?.map Block.hash
  cells : chain.store.cells = (chainStore ctx.calcDataHash (Linked.chain blocks tip)).cells
  transactionInfo : chain.store.transactionInfo = (chainStore ctx.calcDataHash (Linked.chain blocks tip)).transactionInfo

/-! ### The columns the invariant reads -/

theorem getBlockExt_insertBlockExt (store : Store H) (hash : H) (ext : BlockExt) (hash' : H) :
    (store.insertBlockExt hash ext).getBlockExt hash' = if hash' = hash then some ext else store.getBlockExt hash' := by
  unfold Store.insertBlockExt Store.getBlockExt
  split_ifs with same
  · rw [same, Finmap.lookup_insert]
  · exact Finmap.lookup_insert_of_ne _ same

theorem storedExt_insertBlockExt (store : Store H) (hash : H) (ext : BlockExt) (block : Block H) :
    storedExt (store.insertBlockExt hash ext) block = if block.hash = hash then ext else storedExt store block := by
  unfold storedExt
  rw [getBlockExt_insertBlockExt]
  split_ifs <;> rfl

/-- Erasing the detached blocks' numbers and inserting the attached ones turns an index of one
chain into an index of another that agrees with it up to height `k`. -/
theorem lookup_reindex {blocks : List (Block H)} (linked : WellLinked blocks) {a b : Block H} (aMem : a ∈ blocks)
    (bMem : b ∈ blocks) {k : Nat} (meet : (Linked.chain blocks a).take (k + 1) = (Linked.chain blocks b).take (k + 1))
    {index : FiniteMap Nat H} (indexed : ∀ n, index.lookup n = (Linked.chain blocks b)[n]?.map Block.hash) (n : Nat) :
    (((Linked.chain blocks a).drop (k + 1)).foldl (fun index block => index.insert block.number block.hash)
      (((Linked.chain blocks b).drop (k + 1)).reverse.foldl (fun index block => index.erase block.number) index)).lookup n =
      (Linked.chain blocks a)[n]?.map Block.hash := by
  have attachedNumbers : n ∈ ((Linked.chain blocks a).drop (k + 1)).map Block.number ↔ k + 1 ≤ n ∧ n ≤ a.number :=
    linked.mem_map_number_drop_chain aMem (k + 1) n
  have detachedNumbers : n ∈ ((Linked.chain blocks b).drop (k + 1)).map Block.number ↔ k + 1 ≤ n ∧ n ≤ b.number :=
    linked.mem_map_number_drop_chain bMem (k + 1) n
  have aLength : (Linked.chain blocks a).length = a.number + 1 := linked.length_chain aMem
  have bLength : (Linked.chain blocks b).length = b.number + 1 := linked.length_chain bMem
  by_cases attached : n ∈ ((Linked.chain blocks a).drop (k + 1)).map Block.number
  · -- the attached block at height `n` is the new chain's
    obtain ⟨x, xMem, numbered⟩ := List.mem_map.mp attached
    have xAt := linked.getElem?_number_chain aMem (List.mem_of_mem_drop xMem)
    simp only [linked_number] at xAt
    rw [FiniteMap.lookup_foldl_insert _ _ _ _ (v := x.hash) fun y yMem same => ?_, if_pos attached, ← numbered, xAt]
    · rfl
    · have yAt := linked.getElem?_number_chain aMem (List.mem_of_mem_drop yMem)
      simp only [linked_number] at yAt
      rw [same, ← numbered, xAt, Option.some_inj] at yAt
      rw [yAt]
  · rw [FiniteMap.lookup_foldl_insert_of_notMem _ _ _ _ attached, Store.lookup_foldl_erase_number]
    simp only [List.map_reverse, List.mem_reverse]
    have aNone : k < n → (Linked.chain blocks a)[n]? = none := fun above =>
      List.getElem?_eq_none (by rw [aLength]; by_contra low; exact attached (attachedNumbers.mpr ⟨above, by omega⟩))
    split_ifs with detached
    · rw [aNone (by have := detachedNumbers.mp detached; omega)]
      rfl
    · rw [indexed n]
      by_cases low : n ≤ k
      · rw [← List.getElem?_take_of_lt (show n < k + 1 by omega), ← meet, List.getElem?_take_of_lt (by omega)]
      · have bNone : (Linked.chain blocks b)[n]? = none :=
          List.getElem?_eq_none (by rw [bLength]; by_contra high; exact detached (detachedNumbers.mpr ⟨by omega, by omega⟩))
        rw [aNone (by omega), bNone]

theorem storedExt_of_getBlockExt {store : Store H} {block : Block H} {ext : BlockExt}
    (found : store.getBlockExt block.hash = some ext) : storedExt store block = ext := by
  rw [storedExt, found]
  rfl

theorem getBlockExt_storedExt {store : Store H} {block : Block H} {ext : BlockExt}
    (found : store.getBlockExt block.hash = some ext) : store.getBlockExt block.hash = some (storedExt store block) := by
  rw [storedExt_of_getBlockExt found, found]

theorem insertTipHeader_commitSession (store : Store H) (session : Session (HeaderDigest H)) (header : Header H) :
    SameBlocks ((commitSession store session).insertTipHeader header) store ∧
      ((commitSession store session).insertTipHeader header).blockExt = store.blockExt ∧
      ((commitSession store session).insertTipHeader header).indexByNumber = store.indexByNumber ∧
      ((commitSession store session).insertTipHeader header).cells = store.cells ∧
      ((commitSession store session).insertTipHeader header).transactionInfo = store.transactionInfo ∧
      ((commitSession store session).insertTipHeader header).tipHash = some header.hash := by
  rw [commitSession_eq]
  exact ⟨⟨rfl, rfl, rfl, rfl⟩, rfl, rfl, rfl, rfl, rfl⟩

section Stored

variable {ctx} {blocks : List (Block H)} {chain : ChainState H} {tip : Block H} (inv : ChainInvariant ctx blocks chain tip)
include inv

theorem ChainInvariant.storedExt_totalDifficulty {block : Block H} (mem : block ∈ blocks) :
    (storedExt chain.store block).totalDifficulty = totalDifficultyOf blocks block := by
  obtain ⟨other, otherMem, same, total, -⟩ := inv.extsSound _ _ (inv.exts block mem)
  rwa [inv.linked.hash_injective other otherMem block mem same] at total

theorem ChainInvariant.verified_of_ne_none {block : Block H} (mem : block ∈ blocks)
    (seen : (storedExt chain.store block).verified ≠ none) : (storedExt chain.store block).verified = some true := by
  obtain ⟨-, -, -, -, valid⟩ := inv.extsSound _ _ (inv.exts block mem)
  cases verified : (storedExt chain.store block).verified with
  | none => exact absurd verified seen
  | some result =>
    cases result
    · exact absurd verified valid
    · rfl

theorem ChainInvariant.ownValid (hash : H) : (chain.store.getBlockExt hash).bind (·.verified) ≠ some false := by
  intro failed
  obtain ⟨ext, found, failedExt⟩ := Option.bind_eq_some_iff.mp failed
  obtain ⟨-, -, -, -, valid⟩ := inv.extsSound _ _ found
  exact valid failedExt

theorem ChainInvariant.eq_of_tipHash {block : Block H} (mem : block ∈ blocks) (named : chain.store.tipHash = some block.hash) :
    tip = block :=
  inv.linked.hash_injective tip inv.best.1 block mem (Option.some_inj.mp (inv.tipHash.symm.trans named))

end Stored

/-! ### The calls of `verify_block` -/

section Outcomes

variable [LinearOrder H] {ctx} {switch : Switch} {chain : ChainState H} {block : Block H} {parentExt : BlockExt}

theorem verifyBlock_of_verified (parent : chain.store.getBlockExt block.parentHash = some parentExt)
    (own : (chain.store.getBlockExt block.hash).bind (·.verified) = some true) :
    verifyBlock ctx switch chain block = some (.ok (chain, false)) := by
  simp [verifyBlock, parent, own]

theorem verifyBlock_of_overflow (parent : chain.store.getBlockExt block.parentHash = some parentExt)
    (own : (chain.store.getBlockExt block.hash).bind (·.verified) = none) (parentValid : parentExt.verified ≠ some false)
    (overflow : checkedAdd parentExt.totalUnclesCount block.uncles.length = none) :
    verifyBlock ctx switch chain block = none := by
  simp [verifyBlock, parent, own, parentValid, overflow]

theorem verifyBlock_of_le (parent : chain.store.getBlockExt block.parentHash = some parentExt)
    (own : (chain.store.getBlockExt block.hash).bind (·.verified) = none) (parentValid : parentExt.verified ≠ some false)
    {count : Nat} (counted : checkedAdd parentExt.totalUnclesCount block.uncles.length = some count)
    (lighter : parentExt.totalDifficulty + block.header.difficulty ≤ chain.totalDifficulty) :
    verifyBlock ctx switch chain block = some (.ok ({ chain with store := (chain.store.insertBlockExt block.hash
      ⟨parentExt.totalDifficulty + block.header.difficulty, count, none, []⟩) }, true)) := by
  simp [verifyBlock, parent, own, parentValid, counted, Nat.not_lt.mpr lighter]

theorem verifyBlock_of_lt (parent : chain.store.getBlockExt block.parentHash = some parentExt)
    (own : (chain.store.getBlockExt block.hash).bind (·.verified) = none) (parentValid : parentExt.verified ≠ some false)
    {count : Nat} (counted : checkedAdd parentExt.totalUnclesCount block.uncles.length = some count)
    (heavier : chain.totalDifficulty < parentExt.totalDifficulty + block.header.difficulty) {fork : ForkChanges H}
    (found : findFork chain.store {} chain.tipHeader.number block
      ⟨parentExt.totalDifficulty + block.header.difficulty, count, none, []⟩ = some fork)
    {rolledBack : Store H} (rolled : rollback ctx.calcDataHash chain.store fork.detachedBlocks = some rolledBack)
    {reconciled : Store H} (reconciledEq : reconcileMainChain ctx switch rolledBack fork = .ok reconciled) :
    verifyBlock ctx switch chain block =
      (updateProposalTable ctx (reconciled.insertTipHeader block.header) fork chain.proposalTable).map fun table =>
        .ok (⟨reconciled.insertTipHeader block.header, block.header, parentExt.totalDifficulty + block.header.difficulty,
          (table.finalize chain.proposals block.number).1, (table.finalize chain.proposals block.number).2.2⟩, true) := by
  simp only [verifyBlock, parent, own, parentValid, if_false, counted, heavier, if_true, found, rolled, reconciledEq,
    Option.bind_eq_bind, Option.bind_some, Option.pure_def]
  cases updateProposalTable ctx (reconciled.insertTipHeader block.header) fork chain.proposalTable <;> rfl

theorem verifyBlock_of_reconcile_error (parent : chain.store.getBlockExt block.parentHash = some parentExt)
    (own : (chain.store.getBlockExt block.hash).bind (·.verified) = none) (parentValid : parentExt.verified ≠ some false)
    {count : Nat} (counted : checkedAdd parentExt.totalUnclesCount block.uncles.length = some count)
    (heavier : chain.totalDifficulty < parentExt.totalDifficulty + block.header.difficulty) {fork : ForkChanges H}
    (found : findFork chain.store {} chain.tipHeader.number block
      ⟨parentExt.totalDifficulty + block.header.difficulty, count, none, []⟩ = some fork)
    {rolledBack : Store H} (rolled : rollback ctx.calcDataHash chain.store fork.detachedBlocks = some rolledBack)
    {error : ChainError} (failed : reconcileMainChain ctx switch rolledBack fork = .error error) :
    verifyBlock ctx switch chain block = some (.error error) := by
  simp [verifyBlock, parent, own, parentValid, counted, heavier, found, rolled, failed]

/-- What a call of `insert_block` and `verify_block` that returns can have done, when the parent's
ext is stored and neither it nor the block's failed verification: nothing but store the block, store
its ext, fail to reconcile, or switch the tip to it. -/
theorem processBlock_cases {chain' : ChainState H} (parent : chain.store.getBlockExt block.parentHash = some parentExt)
    (parentValid : parentExt.verified ≠ some false)
    (ownValid : (chain.store.getBlockExt block.hash).bind (·.verified) ≠ some false)
    (processed : processBlock ctx switch chain block = some chain') :
    ((chain.store.getBlockExt block.hash).bind (·.verified) = some true ∧
        chain' = { chain with store := chain.store.insertBlock block }) ∨
      ∃ count, (chain.store.getBlockExt block.hash).bind (·.verified) = none ∧
        checkedAdd parentExt.totalUnclesCount block.uncles.length = some count ∧
        ((parentExt.totalDifficulty + block.header.difficulty ≤ chain.totalDifficulty ∧
            chain' = { chain with store := ((chain.store.insertBlock block).insertBlockExt block.hash
              ⟨parentExt.totalDifficulty + block.header.difficulty, count, none, []⟩) }) ∨
          (chain.totalDifficulty < parentExt.totalDifficulty + block.header.difficulty ∧
            ∃ fork rolledBack, findFork (chain.store.insertBlock block) {} chain.tipHeader.number block
                ⟨parentExt.totalDifficulty + block.header.difficulty, count, none, []⟩ = some fork ∧
              rollback ctx.calcDataHash (chain.store.insertBlock block) fork.detachedBlocks = some rolledBack ∧
              (((∃ error, reconcileMainChain ctx switch rolledBack fork = .error error) ∧
                  chain' = { chain with store := chain.store.insertBlock block }) ∨
                ∃ (reconciled : Store H) (table : ProposalTable), reconcileMainChain ctx switch rolledBack fork = .ok reconciled ∧
                  updateProposalTable ctx (reconciled.insertTipHeader block.header) fork chain.proposalTable = some table ∧
                  chain' = ⟨reconciled.insertTipHeader block.header, block.header,
                    parentExt.totalDifficulty + block.header.difficulty, (table.finalize chain.proposals block.number).1,
                    (table.finalize chain.proposals block.number).2.2⟩))) := by
  -- `processBlock` runs `verify_block` on the snapshot with the block inserted
  simp only [processBlock] at processed
  set inserted : ChainState H := { chain with store := chain.store.insertBlock block }
  have parent' : inserted.store.getBlockExt block.parentHash = some parentExt := parent
  cases own : (chain.store.getBlockExt block.hash).bind (·.verified) with
  | some verified =>
    cases verified with
    | false => exact absurd own ownValid
    | true =>
      rw [verifyBlock_of_verified parent' own] at processed
      exact .inl ⟨rfl, (Option.some_inj.mp processed).symm⟩
  | none =>
    cases counted : checkedAdd parentExt.totalUnclesCount block.uncles.length with
    | none =>
      rw [verifyBlock_of_overflow parent' own parentValid counted] at processed
      cases processed
    | some count =>
      refine .inr ⟨count, rfl, rfl, ?_⟩
      have own' : (inserted.store.getBlockExt block.hash).bind (·.verified) = none := own
      have snapshot : inserted.tipHeader = chain.tipHeader ∧ inserted.totalDifficulty = chain.totalDifficulty := ⟨rfl, rfl⟩
      by_cases heavier : chain.totalDifficulty < parentExt.totalDifficulty + block.header.difficulty
      · refine .inr ⟨heavier, ?_⟩
        cases found : findFork inserted.store {} chain.tipHeader.number block
            ⟨parentExt.totalDifficulty + block.header.difficulty, count, none, []⟩ with
        | none => simp [verifyBlock, parent', own', snapshot, parentValid, counted, heavier, found] at processed
        | some fork =>
          cases rolled : rollback ctx.calcDataHash inserted.store fork.detachedBlocks with
          | none => simp [verifyBlock, parent', own', snapshot, parentValid, counted, heavier, found, rolled] at processed
          | some rolledBack =>
            refine ⟨fork, rolledBack, rfl, rolled, ?_⟩
            cases reconciledEq : reconcileMainChain ctx switch rolledBack fork with
            | error error =>
              rw [verifyBlock_of_reconcile_error parent' own parentValid counted heavier found rolled reconciledEq] at processed
              exact .inl ⟨⟨error, rfl⟩, (Option.some_inj.mp processed).symm⟩
            | ok reconciled =>
              rw [verifyBlock_of_lt parent' own parentValid counted heavier found rolled reconciledEq, Option.map_map] at processed
              obtain ⟨table, updated, switched⟩ := Option.map_eq_some_iff.mp processed
              exact .inr ⟨reconciled, table, rfl, updated, switched.symm⟩
      · rw [verifyBlock_of_le parent' own parentValid counted (Nat.not_lt.mp heavier)] at processed
        exact .inl ⟨Nat.not_lt.mp heavier, (Option.some_inj.mp processed).symm⟩

end Outcomes

/-! ### One step -/

section Step

variable {ctx} {blocks : List (Block H)} {chain : ChainState H} {tip block parent : Block H}
  (inv : ChainInvariant ctx blocks chain tip) (parentMem : parent ∈ blocks) (linkedTo : parent.hash = block.parentHash)
  (above : block.number = parent.number + 1) (fresh : ∀ other ∈ blocks, other.hash = block.hash → other = block)
include inv parentMem linkedTo above fresh

theorem ChainInvariant.linked_append : WellLinked (blocks ++ [block]) :=
  inv.linked.append parentMem linkedTo above fresh

theorem ChainInvariant.chain_append {other : Block H} (mem : other ∈ blocks) :
    Linked.chain (blocks ++ [block]) other = Linked.chain blocks other :=
  inv.linked.chain_of_sublist (inv.linked_append parentMem linkedTo above fresh)
    (fun _ member => List.mem_append_left _ member) other mem

theorem ChainInvariant.chain_append_self :
    Linked.chain (blocks ++ [block]) block = Linked.chain blocks parent ++ [block] := by
  rw [(inv.linked_append parentMem linkedTo above fresh).chain_parent (List.mem_append_left _ parentMem) linkedTo above,
    inv.chain_append parentMem linkedTo above fresh parentMem]

theorem ChainInvariant.totalDifficulty_append {other : Block H} (mem : other ∈ blocks) :
    totalDifficultyOf (blocks ++ [block]) other = totalDifficultyOf blocks other := by
  simp only [totalDifficultyOf, weight, inv.chain_append parentMem linkedTo above fresh mem]

theorem ChainInvariant.totalDifficulty_append_self :
    totalDifficultyOf (blocks ++ [block]) block = totalDifficultyOf blocks parent + block.header.difficulty := by
  simp [totalDifficultyOf, weight, inv.chain_append_self parentMem linkedTo above fresh]

theorem ChainInvariant.best_append :
    EarliestHeaviest (totalDifficultyOf (blocks ++ [block])) blocks tip :=
  inv.best.congr fun _ mem => (inv.totalDifficulty_append parentMem linkedTo above fresh mem).symm

/-- An ext stored before the step still accounts for a block, at the same total difficulty. -/
theorem ChainInvariant.extsSound_append {hash : H} {ext : BlockExt} (found : chain.store.getBlockExt hash = some ext) :
    ∃ other ∈ blocks ++ [block], other.hash = hash ∧
      ext.totalDifficulty = totalDifficultyOf (blocks ++ [block]) other ∧ ext.verified ≠ some false := by
  obtain ⟨other, member, same, total, valid⟩ := inv.extsSound hash ext found
  refine ⟨other, List.mem_append_left _ member, same, ?_, valid⟩
  rw [inv.totalDifficulty_append parentMem linkedTo above fresh member]
  exact total

/-- The new block's chain is its parent's with the block on top, so it is valid where the block is. -/
theorem ChainInvariant.valid_append (validBlock : ValidOn (Linked.chain blocks parent) block) :
    ∀ other ∈ blocks ++ [block], ChainValid (Linked.chain (blocks ++ [block]) other) := by
  intro other member
  rcases List.mem_append.mp member with old | new
  · rw [inv.chain_append parentMem linkedTo above fresh old]
    exact inv.valid other old
  · rw [List.mem_singleton.mp new, inv.chain_append_self parentMem linkedTo above fresh]
    exact chainValid_append.mpr ⟨inv.valid parent parentMem, validBlock⟩

omit above fresh in
theorem ChainInvariant.parentExt :
    chain.store.getBlockExt block.parentHash = some (storedExt chain.store parent) ∧
      (storedExt chain.store parent).totalDifficulty = totalDifficultyOf blocks parent ∧
      (storedExt chain.store parent).verified ≠ some false := by
  have found := inv.exts parent parentMem
  obtain ⟨-, -, -, -, valid⟩ := inv.extsSound _ _ found
  exact ⟨linkedTo ▸ found, inv.storedExt_totalDifficulty parentMem, valid⟩

/-- A block verified before: the call returns without writing, after `insert_block` stored the
block again. -/
theorem ChainInvariant.verified_step (own : (chain.store.getBlockExt block.hash).bind (·.verified) = some true) :
    ChainInvariant ctx (blocks ++ [block]) { chain with store := chain.store.insertBlock block } tip := by
  obtain ⟨ext, found, -⟩ := Option.bind_eq_some_iff.mp own
  obtain ⟨other, otherMem, same, -, -⟩ := inv.extsSound _ _ found
  have seen : block ∈ blocks := fresh other otherMem same ▸ otherMem
  have old : ∀ other ∈ blocks ++ [block], other ∈ blocks := fun other member =>
    (List.mem_append.mp member).elim id fun new => List.mem_singleton.mp new ▸ seen
  have chains := fun {other} (mem : other ∈ blocks) => inv.chain_append parentMem linkedTo above fresh mem
  have totals := fun {other} (mem : other ∈ blocks) => inv.totalDifficulty_append parentMem linkedTo above fresh mem
  have lighter := (inv.best.2 block seen).1
  exact {
    linked := inv.linked_append parentMem linkedTo above fresh
    valid := fun other member => by rw [chains (old other member)]; exact inv.valid other (old other member)
    best := (inv.best_append parentMem linkedTo above fresh).append_of_le (by rw [totals seen, totals inv.best.1]; exact lighter)
    tipHash := inv.tipHash
    tipHeader := inv.tipHeader
    totalDifficulty := by rw [totals inv.best.1]; exact inv.totalDifficulty
    stored := inv.stored.insertBlock fresh
    exts := fun other member => inv.exts other (old other member)
    extsSound := fun _ _ found => inv.extsSound_append parentMem linkedTo above fresh found
    verifiedClosed := fun other member verified => by
      rw [chains (old other member)]
      exact inv.verifiedClosed other (old other member) verified
    mainVerified := by rw [chains inv.best.1]; exact inv.mainVerified
    index := by rw [chains inv.best.1]; exact inv.index
    cells := by rw [chains inv.best.1]; exact inv.cells
    transactionInfo := by rw [chains inv.best.1]; exact inv.transactionInfo }

theorem ChainInvariant.lighter_step (validBlock : ValidOn (Linked.chain blocks parent) block)
    (own : (chain.store.getBlockExt block.hash).bind (·.verified) = none) {newExt : BlockExt}
    (newTotal : newExt.totalDifficulty = totalDifficultyOf blocks parent + block.header.difficulty)
    (newUnverified : newExt.verified = none)
    (lighter : totalDifficultyOf blocks parent + block.header.difficulty ≤ totalDifficultyOf blocks tip) :
    ChainInvariant ctx (blocks ++ [block])
      { chain with store := (chain.store.insertBlock block).insertBlockExt block.hash newExt } tip := by
  have chains := fun {other} (mem : other ∈ blocks) => inv.chain_append parentMem linkedTo above fresh mem
  have totals := fun {other} (mem : other ∈ blocks) => inv.totalDifficulty_append parentMem linkedTo above fresh mem
  have total := inv.totalDifficulty_append_self parentMem linkedTo above fresh
  -- no block with the new block's hash was verified: its ext would have made the call return
  have notVerified : ∀ other ∈ blocks, other.hash = block.hash → (storedExt chain.store other).verified ≠ some true := by
    intro other member same verified
    have found := inv.exts other member
    rw [same] at found
    rw [found, Option.bind_some] at own
    rw [own] at verified
    simp at verified
  have stored' : ∀ other, storedExt ((chain.store.insertBlock block).insertBlockExt block.hash newExt) other =
      if other.hash = block.hash then newExt else storedExt chain.store other :=
    storedExt_insertBlockExt _ _ _
  have kept : ∀ other ∈ blocks, (storedExt chain.store other).verified = some true →
      (storedExt ((chain.store.insertBlock block).insertBlockExt block.hash newExt) other).verified = some true :=
    fun other member verified => by rwa [stored', if_neg fun same => notVerified other member same verified]
  exact {
    linked := inv.linked_append parentMem linkedTo above fresh
    valid := inv.valid_append parentMem linkedTo above fresh validBlock
    best := (inv.best_append parentMem linkedTo above fresh).append_of_le (by rw [total, totals inv.best.1]; exact lighter)
    tipHash := inv.tipHash
    tipHeader := inv.tipHeader
    totalDifficulty := by rw [totals inv.best.1]; exact inv.totalDifficulty
    stored := (inv.stored.insertBlock fresh).congr ⟨rfl, rfl, rfl, rfl⟩
    exts := fun other member => by
      rw [getBlockExt_insertBlockExt, stored']
      split_ifs with same
      · rfl
      · rcases List.mem_append.mp member with old | new
        · exact inv.exts other old
        · exact absurd (congrArg Block.hash (List.mem_singleton.mp new)) same
    extsSound := fun hash ext found => by
      rw [getBlockExt_insertBlockExt] at found
      split_ifs at found with same
      · cases found
        exact ⟨block, List.mem_append_right _ (List.mem_singleton_self _), same.symm, by rw [total, newTotal],
          by simp [newUnverified]⟩
      · exact inv.extsSound_append parentMem linkedTo above fresh found
    verifiedClosed := fun other member verified => by
      rw [stored'] at verified
      split_ifs at verified with same
      · rw [newUnverified] at verified
        simp at verified
      · have old : other ∈ blocks := (List.mem_append.mp member).elim id fun new =>
          absurd (congrArg Block.hash (List.mem_singleton.mp new)) same
        rw [chains old]
        exact fun ancestor inChain =>
          kept ancestor (inv.linked.mem_chain old ancestor inChain) (inv.verifiedClosed other old verified ancestor inChain)
    mainVerified := by
      rw [chains inv.best.1]
      exact fun other inChain =>
        kept other (inv.linked.mem_chain inv.best.1 other inChain) (inv.mainVerified other inChain)
    index := by rw [chains inv.best.1]; exact inv.index
    cells := by rw [chains inv.best.1]; exact inv.cells
    transactionInfo := by rw [chains inv.best.1]; exact inv.transactionInfo }

omit linkedTo above fresh in
/-- The part of a fork below the blocks with no verified ext was verified before: it ends in a
block whose ext was seen, and verification is closed under ancestry. -/
theorem ChainInvariant.lower_verified {newExt : BlockExt} {lower upper : List (Block H)} {dirtyExts : List BlockExt}
    {unseen : Bool} (dirty : DirtySplit (chain.store.insertBlock block) newExt lower upper dirtyExts unseen)
    {common : List (Block H)} (parentChain : Linked.chain blocks parent = common ++ lower ++ upper.dropLast) :
    ∀ x ∈ lower, (storedExt chain.store x).verified = some true := by
  intro x mem
  have nonempty : 0 < lower.length := List.length_pos_of_mem mem
  cases unseen with
  | true => simp [dirty.lower_nil rfl] at mem
  | false =>
    obtain ⟨top, topLast, topSeen⟩ := dirty.lower_last rfl
    have topOld : top ∈ blocks := by
      refine inv.linked.mem_chain parentMem top ?_
      rw [parentChain]
      exact List.mem_append_left _ (List.mem_append_right _ (List.mem_of_getLast? topLast))
    have topAt : (Linked.chain blocks parent)[(common ++ lower).length - 1]? = some top := by
      rw [parentChain, List.getElem?_append_left (by simp; omega), ← List.getLast?_eq_getElem?,
        List.getLast?_append_of_ne_nil _ (List.ne_nil_of_mem mem)]
      exact topLast
    -- the top's chain is everything up to it, the whole lower part included
    have topChain := inv.linked.chain_of_getElem? parentMem topAt
    rw [Nat.sub_add_cancel (by simp; omega), parentChain, List.take_left' rfl] at topChain
    exact inv.verifiedClosed top topOld (inv.verified_of_ne_none topOld topSeen) x
      (by rw [topChain]; exact List.mem_append_right _ mem)

variable [LinearOrder H]

/-- `find_fork` of the new block against the main chain, after `insert_block`: the two chains
agree up to a height `k`, and the fork is what lies above it. -/
theorem ChainInvariant.findFork_append (newExt : BlockExt) :
    ∃ k fork, findFork (chain.store.insertBlock block) {} chain.tipHeader.number block newExt = some fork ∧
      (Linked.chain (blocks ++ [block]) block).take (k + 1) = (Linked.chain blocks tip).take (k + 1) ∧
      k + 1 < (Linked.chain (blocks ++ [block]) block).length ∧ k < (Linked.chain blocks tip).length ∧
      fork.attachedBlocks = (Linked.chain (blocks ++ [block]) block).drop (k + 1) ∧
      fork.detachedBlocks = (Linked.chain blocks tip).drop (k + 1) ∧
      ∃ lower upper unseen, fork.attachedBlocks = lower ++ upper ∧
        DirtySplit (chain.store.insertBlock block) newExt lower upper fork.dirtyExts unseen := by
  have linked' := inv.linked_append parentMem linkedTo above fresh
  have blockMem : block ∈ blocks ++ [block] := List.mem_append_right _ (List.mem_singleton_self _)
  have tipMem : tip ∈ blocks ++ [block] := List.mem_append_left _ inv.best.1
  have mainEq := inv.chain_append parentMem linkedTo above fresh inv.best.1
  have stored' := inv.stored.insertBlock fresh
  have newSelf := inv.chain_append_self parentMem linkedTo above fresh
  have newLength : (Linked.chain (blocks ++ [block]) block).length = block.number + 1 := linked'.length_chain blockMem
  have inMain : ∀ (n : Nat) x, (Linked.chain blocks tip)[n]? = some x → x ∈ blocks ++ [block] :=
    fun _ x found => List.mem_append_left _ (inv.linked.mem_chain inv.best.1 x (List.mem_of_getElem? found))
  -- below its top the new chain is the parent's chain
  have belowTop : ∀ j x, j + 1 < (Linked.chain (blocks ++ [block]) block).length →
      (Linked.chain (blocks ++ [block]) block)[j]? = some x → x ∈ blocks := by
    intro j x lt found
    rw [newSelf] at lt found
    rw [List.getElem?_append_left (by simpa using lt)] at found
    exact inv.linked.mem_chain parentMem x (List.mem_of_getElem? found)
  have linkedNew : ∀ (j : Nat) (x : Block H), (Linked.chain (blocks ++ [block]) block)[j + 1]? = some x →
      (Linked.chain (blocks ++ [block]) block)[j]?.map Block.hash = some x.parentHash := by
    intro j x found
    obtain ⟨lt, same⟩ := List.getElem?_eq_some_iff.mp found
    have parentOf := linked'.parentHash_getElem_chain blockMem j lt
    rw [same] at parentOf
    rw [List.getElem?_eq_getElem (by omega), Option.map_some]
    simpa using parentOf.symm
  have knownNew : ∀ j x, j + 1 < (Linked.chain (blocks ++ [block]) block).length →
      (Linked.chain (blocks ++ [block]) block)[j]? = some x →
      (chain.store.insertBlock block).getBlock x.hash = some (some x) ∧
        (chain.store.insertBlock block).getBlockExt x.hash = some (storedExt (chain.store.insertBlock block) x) := by
    intro j x lt found
    have mem := belowTop j x lt found
    exact ⟨stored'.getBlock linked'.hash_injective (List.mem_append_left _ mem), inv.exts x mem⟩
  have root : (Linked.chain (blocks ++ [block]) block)[0]? = (Linked.chain blocks tip)[0]? := by
    rw [← mainEq]
    exact linked'.head_chain_eq blockMem tipMem
  have newTop : (Linked.chain (blocks ++ [block]) block)[block.number]? = some block := by
    have last := linked'.getLast_chain blockMem
    rw [List.getLast?_eq_getElem?, newLength] at last
    simpa using last
  have mainLength : (Linked.chain blocks tip).length = chain.tipHeader.number + 1 := by
    rw [inv.tipHeader, inv.linked.length_chain inv.best.1]
    rfl
  obtain ⟨k, fork, found, meetK, newLt, mainLt, attached, detached, rest⟩ :=
    findFork_eq linkedNew knownNew inv.index (fun n x found => stored'.getBlock linked'.hash_injective (inMain n x found))
      (fun j x y lt inNew inOld same => linked'.hash_injective x (linked'.mem_chain blockMem x (List.mem_of_getElem? inNew))
        y (inMain j y inOld) same)
      root newLength newTop (by omega) mainLength
  have meet : (Linked.chain (blocks ++ [block]) block).take (k + 1) = (Linked.chain blocks tip).take (k + 1) := by
    rw [← mainEq]
    refine linked'.take_chain_eq blockMem tipMem (by omega) (by rwa [mainEq]) ?_
    have same := meetK
    rw [List.getElem?_eq_getElem (by omega), List.getElem?_eq_getElem mainLt, Option.some_inj] at same
    simpa [mainEq] using same
  exact ⟨k, fork, found, meet, newLt, mainLt, attached, detached, rest⟩

omit parentMem linkedTo above in
/-- Rolling the main chain back to height `k`, after `insert_block`: the cells and transactions
of the chain below are left, and only the index changes besides. -/
theorem ChainInvariant.rollback_main (k : Nat) :
    ∃ rolledBack, rollback ctx.calcDataHash (chain.store.insertBlock block) ((Linked.chain blocks tip).drop (k + 1)) =
        some rolledBack ∧
      rolledBack.cells = (chainStore ctx.calcDataHash ((Linked.chain blocks tip).take (k + 1))).cells ∧
      rolledBack.transactionInfo =
        (chainStore ctx.calcDataHash ((Linked.chain blocks tip).take (k + 1))).transactionInfo ∧
      DetachFrame rolledBack (chain.store.insertBlock block) ((Linked.chain blocks tip).drop (k + 1)).reverse := by
  have whole := List.take_append_drop (k + 1) (Linked.chain blocks tip)
  have stored' := inv.stored.insertBlock fresh
  have valid : ChainValid ((Linked.chain blocks tip).take (k + 1) ++ (Linked.chain blocks tip).drop (k + 1)) := by
    rw [whole]
    exact inv.valid tip inv.best.1
  have bodies : ∀ x ∈ (Linked.chain blocks tip).take (k + 1) ++ (Linked.chain blocks tip).drop (k + 1),
      ∀ index < x.transactions.length,
        (chain.store.insertBlock block).blockBody.lookup (x.hash, index) = x.transactions[index]? := by
    rw [whole]
    exact fun x mem => stored'.body x (List.mem_append_left _ (inv.linked.mem_chain inv.best.1 x mem))
  have cells : (chain.store.insertBlock block).cells =
      (chainStore ctx.calcDataHash ((Linked.chain blocks tip).take (k + 1) ++ (Linked.chain blocks tip).drop (k + 1))).cells := by
    rw [whole]
    exact inv.cells
  have infos : (chain.store.insertBlock block).transactionInfo =
      (chainStore ctx.calcDataHash ((Linked.chain blocks tip).take (k + 1) ++
        (Linked.chain blocks tip).drop (k + 1))).transactionInfo := by
    rw [whole]
    exact inv.transactionInfo
  obtain ⟨rolledBack, rolled, cells', infos', -⟩ := rollback_chainStore valid bodies cells infos
  exact ⟨rolledBack, rolled, cells', infos', rollback_frame rolled⟩

/-- `reconcile_main_chain` of the fork above height `k`: the session opens below the first attached
block, and the attached blocks have distinct hashes. -/
theorem ChainInvariant.reconcile_fork {switch : Switch} (passes : Passes ctx switch) {newExt : BlockExt} {k : Nat}
    {fork : ForkChanges H} {lower upper : List (Block H)} {unseen : Bool}
    (attached : fork.attachedBlocks = (Linked.chain (blocks ++ [block]) block).drop (k + 1))
    (split : fork.attachedBlocks = lower ++ upper)
    (dirty : DirtySplit (chain.store.insertBlock block) newExt lower upper fork.dirtyExts unseen) (rolledBack : Store H) :
    ∃ start blockExt, (Linked.chain (blocks ++ [block]) block)[k + 1]? = some start ∧
      reconcileMainChain ctx switch rolledBack fork =
        .ok (commitSession { (lower ++ upper).foldl (attach ctx.calcDataHash) rolledBack with blockExt := blockExt }
          (((lower ++ upper).map Block.digest).foldl (Session.push ctx.chainRootMMR rolledBack.getHeaderDigest)
            ⟨leafIndexToMmrSize ctx.chainRootMMR (start.number - 1), []⟩)) ∧
      (∀ hash ∉ upper.map Block.hash, blockExt.lookup hash = rolledBack.blockExt.lookup hash) ∧
      ∀ pair ∈ fork.dirtyExts.zip upper, ∃ txsFees,
        blockExt.lookup pair.2.hash = some { pair.1 with verified := some true, txsFees := txsFees } := by
  have linked' := inv.linked_append parentMem linkedTo above fresh
  have blockMem : block ∈ blocks ++ [block] := List.mem_append_right _ (List.mem_singleton_self _)
  have attachedEq : lower ++ upper = (Linked.chain (blocks ++ [block]) block).drop (k + 1) := split.symm.trans attached
  obtain ⟨start, rest, startEq⟩ := List.exists_cons_of_ne_nil (show lower ++ upper ≠ [] by simp [dirty.upper_ne_nil])
  have startAt : (Linked.chain (blocks ++ [block]) block)[k + 1]? = some start := by
    have heads := congrArg List.head? attachedEq
    rw [startEq, List.head?_drop, List.head?_cons] at heads
    exact heads.symm
  have distinct : (upper.map Block.hash).Nodup := by
    have sub : upper.Sublist (Linked.chain (blocks ++ [block]) block) :=
      (List.sublist_append_right lower upper).trans (attachedEq ▸ List.drop_sublist _ _)
    exact (linked'.nodup_map_hash_chain blockMem).sublist (sub.map _)
  obtain ⟨blockExt, reconciled, others, verifiedUpper⟩ :=
    reconcileMainChain_eq passes rolledBack split (by rw [startEq]; rfl) dirty.length_dirty distinct
  exact ⟨start, blockExt, startAt, reconciled, others, verifiedUpper⟩

theorem ChainInvariant.reconcile_ok {switch : Switch} (passes : Passes ctx switch) {newExt : BlockExt}
    {fork : ForkChanges H} (found : findFork (chain.store.insertBlock block) {} chain.tipHeader.number block newExt = some fork)
    (rolledBack : Store H) : ∃ reconciled, reconcileMainChain ctx switch rolledBack fork = .ok reconciled := by
  obtain ⟨k, fork', found', -, -, -, attached, -, lower, upper, unseen, split, dirty⟩ :=
    inv.findFork_append parentMem linkedTo above fresh newExt
  obtain rfl : fork' = fork := Option.some_inj.mp (found'.symm.trans found)
  obtain ⟨start, blockExt, -, reconciled, -⟩ :=
    inv.reconcile_fork parentMem linkedTo above fresh passes attached split dirty rolledBack
  exact ⟨_, reconciled⟩

/-- A block heavier than the tip, not verified before: the main chain is rolled back to where the
block's chain leaves it, the block's chain above that point is attached and verified, and the
block becomes the tip. -/
theorem ChainInvariant.heavier_step {switch : Switch} (passes : Passes ctx switch)
    (validBlock : ValidOn (Linked.chain blocks parent) block) {newExt : BlockExt}
    (newTotal : newExt.totalDifficulty = totalDifficultyOf blocks parent + block.header.difficulty)
    (heavier : totalDifficultyOf blocks tip < totalDifficultyOf blocks parent + block.header.difficulty) :
    ∃ fork rolledBack reconciled,
      findFork (chain.store.insertBlock block) {} chain.tipHeader.number block newExt = some fork ∧
      rollback ctx.calcDataHash (chain.store.insertBlock block) fork.detachedBlocks = some rolledBack ∧
      reconcileMainChain ctx switch rolledBack fork = .ok reconciled ∧
      ∀ table proposals, ChainInvariant ctx (blocks ++ [block])
        ⟨reconciled.insertTipHeader block.header, block.header,
          totalDifficultyOf blocks parent + block.header.difficulty, table, proposals⟩ block := by
  have linked' := inv.linked_append parentMem linkedTo above fresh
  have blockMem : block ∈ blocks ++ [block] := List.mem_append_right _ (List.mem_singleton_self _)
  have tipMem : tip ∈ blocks ++ [block] := List.mem_append_left _ inv.best.1
  have chains := fun {other} (mem : other ∈ blocks) => inv.chain_append parentMem linkedTo above fresh mem
  have totals := fun {other} (mem : other ∈ blocks) => inv.totalDifficulty_append parentMem linkedTo above fresh mem
  have total := inv.totalDifficulty_append_self parentMem linkedTo above fresh
  have newSelf := inv.chain_append_self parentMem linkedTo above fresh
  obtain ⟨k, fork, found, meet, newLt, mainLt, attached, detached, lower, upper, unseen, split, dirty⟩ :=
    inv.findFork_append parentMem linkedTo above fresh newExt
  obtain ⟨rolledBack, rolled, rolledCells, rolledInfos, frame⟩ := inv.rollback_main fresh k
  -- the attached blocks are the new chain above height `k`
  have attachedEq : lower ++ upper = (Linked.chain (blocks ++ [block]) block).drop (k + 1) := split.symm.trans attached
  have whole : Linked.chain (blocks ++ [block]) block =
      (Linked.chain (blocks ++ [block]) block).take (k + 1) ++ (lower ++ upper) := by
    rw [attachedEq, List.take_append_drop]
  obtain ⟨start, blockExt, -, reconciled, others, verifiedUpper⟩ :=
    inv.reconcile_fork parentMem linkedTo above fresh passes attached split dirty rolledBack
  set session : Session (HeaderDigest H) := ((lower ++ upper).map Block.digest).foldl
    (Session.push ctx.chainRootMMR rolledBack.getHeaderDigest) ⟨leafIndexToMmrSize ctx.chainRootMMR (start.number - 1), []⟩
  refine ⟨fork, rolledBack, _, found, detached ▸ rolled, reconciled, fun table proposals => ?_⟩
  set attachedStore := (lower ++ upper).foldl (attach ctx.calcDataHash) rolledBack
  obtain ⟨sameFinal, extFinal, indexFinal, cellsFinal, infosFinal, tipFinal⟩ :=
    insertTipHeader_commitSession { attachedStore with blockExt := blockExt } session block.header
  set final := (commitSession { attachedStore with blockExt := blockExt } session).insertTipHeader block.header
  have sameAttached : SameBlocks final (chain.store.insertBlock block) := by
    have attachedSame : SameBlocks { attachedStore with blockExt := blockExt } attachedStore := ⟨rfl, rfl, rfl, rfl⟩
    exact sameFinal.trans (attachedSame.trans ((sameBlocks_foldl_attach ctx.calcDataHash (lower ++ upper) rolledBack).trans
      frame.sameBlocks))
  -- where the blocks of the new chain sit: the parent's chain is the new chain without its top
  have lastUpper : upper.getLast? = some block := by
    have last := linked'.getLast_chain blockMem
    rwa [whole, List.getLast?_append_of_ne_nil _ (by simp [dirty.upper_ne_nil]),
      List.getLast?_append_of_ne_nil _ dirty.upper_ne_nil] at last
  have blockUpper : block ∈ upper := List.mem_of_getLast? lastUpper
  have parentChain : Linked.chain blocks parent =
      (Linked.chain (blocks ++ [block]) block).take (k + 1) ++ lower ++ upper.dropLast := by
    have init := congrArg List.dropLast whole
    rwa [newSelf, List.dropLast_concat, ← newSelf, List.dropLast_append_of_ne_nil (by simp [dirty.upper_ne_nil]),
      List.dropLast_append_of_ne_nil dirty.upper_ne_nil, ← List.append_assoc] at init
  have inNew : ∀ x ∈ Linked.chain (blocks ++ [block]) block, x ∈ blocks ++ [block] := linked'.mem_chain blockMem
  have upperNew : ∀ x ∈ upper, x ∈ Linked.chain (blocks ++ [block]) block := fun x mem => by
    rw [whole]
    exact List.mem_append_right _ (List.mem_append_right _ mem)
  have inParent : ∀ x ∈ lower ++ upper.dropLast, x ∈ blocks := fun x mem => by
    refine inv.linked.mem_chain parentMem x ?_
    rw [parentChain, List.append_assoc]
    exact List.mem_append_right _ mem
  have oldOf : ∀ x ∈ blocks ++ [block], x ∉ upper → x ∈ blocks := fun x mem absent =>
    (List.mem_append.mp mem).elim id fun new => absurd (List.mem_singleton.mp new ▸ blockUpper) absent
  have notUpperHash : ∀ x ∈ blocks ++ [block], x ∉ upper → x.hash ∉ upper.map Block.hash := by
    intro x mem absent inMap
    obtain ⟨y, yMem, same⟩ := List.mem_map.mp inMap
    exact absent (linked'.hash_injective y (inNew y (upperNew y yMem)) x mem same ▸ yMem)
  -- the exts: verified ones for the upper blocks, the old ones elsewhere
  have extLookup : ∀ hash, final.getBlockExt hash = blockExt.lookup hash := fun hash => by
    change final.blockExt.lookup hash = _
    rw [extFinal]
  have oldExt : ∀ hash ∉ upper.map Block.hash, final.getBlockExt hash = chain.store.getBlockExt hash := by
    intro hash absent
    rw [extLookup, others hash absent, frame.blockExt]
    rfl
  have upperExt : ∀ x ∈ upper, ∃ ext, final.getBlockExt x.hash = some ext ∧ ext.verified = some true ∧
      ext.totalDifficulty = totalDifficultyOf (blocks ++ [block]) x := by
    intro x mem
    have sides : x ∈ upper.dropLast ∨ upper.getLast? = some x := by
      rw [← List.dropLast_append_getLast dirty.upper_ne_nil, List.mem_append, List.mem_singleton] at mem
      exact mem.imp id fun last => by rw [last, List.getLast?_eq_some_getLast dirty.upper_ne_nil]
    rcases sides with inInit | isLast
    · have old := inParent x (List.mem_append_right _ inInit)
      obtain ⟨txsFees, stored⟩ := verifiedUpper (storedExt (chain.store.insertBlock block) x, x)
        (dirty.mem_zip.mpr (.inl ⟨inInit, rfl⟩))
      refine ⟨_, (extLookup _).trans stored, rfl, ?_⟩
      rw [totals old]
      exact inv.storedExt_totalDifficulty old
    · have same : x = block := Option.some_inj.mp (isLast.symm.trans lastUpper)
      obtain ⟨txsFees, stored⟩ := verifiedUpper (newExt, x) (dirty.mem_zip.mpr (.inr ⟨isLast, rfl⟩))
      refine ⟨_, (extLookup _).trans stored, rfl, ?_⟩
      rw [same, total]
      exact newTotal
  have keptExt : ∀ x ∈ blocks ++ [block], x ∉ upper → storedExt final x = storedExt chain.store x :=
    fun x mem absent => by rw [storedExt, storedExt, oldExt x.hash (notUpperHash x mem absent)]
  have keptVerified : ∀ x ∈ blocks ++ [block], (storedExt chain.store x).verified = some true →
      (storedExt final x).verified = some true := by
    intro x mem verified
    by_cases inUpper : x ∈ upper
    · obtain ⟨ext, stored, verified', -⟩ := upperExt x inUpper
      rwa [storedExt_of_getBlockExt stored]
    · rwa [keptExt x mem inUpper]
  -- every block of the new chain is verified: the lower part sits below a verified block
  have lowerVerified := inv.lower_verified parentMem dirty parentChain
  have allVerified : ∀ x ∈ Linked.chain (blocks ++ [block]) block, (storedExt final x).verified = some true := by
    intro x mem
    by_cases inUpper : x ∈ upper
    · obtain ⟨ext, stored, verified, -⟩ := upperExt x inUpper
      rwa [storedExt_of_getBlockExt stored]
    · refine keptVerified x (inNew x mem) ?_
      rw [whole, List.mem_append, List.mem_append] at mem
      rcases mem with common | inLower | inUpper'
      · rw [meet] at common
        exact inv.mainVerified x (List.mem_of_mem_take common)
      · exact lowerVerified x inLower
      · exact absurd inUpper' inUpper
  exact {
    linked := linked'
    valid := inv.valid_append parentMem linkedTo above fresh validBlock
    best := (inv.best_append parentMem linkedTo above fresh).append_of_lt (by rw [total, totals inv.best.1]; exact heavier)
    tipHash := tipFinal
    tipHeader := rfl
    totalDifficulty := total.symm
    stored := (inv.stored.insertBlock fresh).congr sameAttached
    exts := fun other member => by
      by_cases inUpper : other ∈ upper
      · obtain ⟨ext, stored, -, -⟩ := upperExt other inUpper
        exact getBlockExt_storedExt stored
      · rw [keptExt other member inUpper, oldExt other.hash (notUpperHash other member inUpper)]
        exact inv.exts other (oldOf other member inUpper)
    extsSound := fun hash ext stored => by
      by_cases inUpper : hash ∈ upper.map Block.hash
      · obtain ⟨x, xMem, rfl⟩ := List.mem_map.mp inUpper
        obtain ⟨ext', stored', verified, total'⟩ := upperExt x xMem
        rw [stored', Option.some_inj] at stored
        subst stored
        exact ⟨x, inNew x (upperNew x xMem), rfl, total', by simp [verified]⟩
      · rw [oldExt hash inUpper] at stored
        exact inv.extsSound_append parentMem linkedTo above fresh stored
    verifiedClosed := fun other member verified => by
      by_cases inUpper : other ∈ upper
      · exact fun ancestor inChain =>
          allVerified ancestor (linked'.mem_chain_of_mem_chain blockMem (upperNew other inUpper) inChain)
      · have old := oldOf other member inUpper
        rw [keptExt other member inUpper] at verified
        rw [chains old]
        exact fun ancestor inChain => keptVerified ancestor (List.mem_append_left _ (inv.linked.mem_chain old ancestor inChain))
          (inv.verifiedClosed other old verified ancestor inChain)
    mainVerified := allVerified
    index := fun n => by
      change final.indexByNumber.lookup n = _
      rw [indexFinal]
      change attachedStore.indexByNumber.lookup n = _
      rw [indexByNumber_foldl_attach, frame.indexByNumber, attachedEq, ← chains inv.best.1]
      exact lookup_reindex linked' blockMem tipMem (by rw [chains inv.best.1]; exact meet)
        (fun n => by rw [chains inv.best.1]; exact inv.index n) n
    cells := by
      rw [cellsFinal]
      change attachedStore.cells = _
      rw [cells_foldl_attach rolledCells, chainStore, ← List.foldl_append, ← meet, attachedEq, List.take_append_drop]
      rfl
    transactionInfo := by
      rw [infosFinal]
      change attachedStore.transactionInfo = _
      rw [transactionInfo_foldl_attach rolledInfos, chainStore, ← List.foldl_append, ← meet, attachedEq,
        List.take_append_drop]
      rfl }

end Step

end Ckb
