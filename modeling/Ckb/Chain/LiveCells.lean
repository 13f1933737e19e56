import Ckb.Store.CellSpec
import Ckb.Chain.MainChain

/-!
The cells and the transaction index of a store are those of attaching its main chain to an empty
store. Along a chain whose every block is valid on the blocks before it, the live cells are then
the outputs created on the chain and not spent on it, and rolling back the top of the chain gives
the cells and the index of what remains.
-/

namespace Ckb

open CellColumns

variable {H : Type}

/-- Every block of the chain is valid on the blocks before it. -/
def ChainValid (chain : List (Block H)) : Prop :=
  ∀ (i : Nat) (block : Block H), chain[i]? = some block → ValidOn (chain.take i) block

theorem chainValid_append {chain : List (Block H)} {block : Block H} :
    ChainValid (chain ++ [block]) ↔ ChainValid chain ∧ ValidOn chain block := by
  constructor
  · intro valid
    refine ⟨fun i member found => ?_, ?_⟩
    · have inside := (List.getElem?_eq_some_iff.mp found).1
      have := valid i member (by rw [List.getElem?_append_left inside]; exact found)
      rwa [List.take_append_of_le_length inside.le] at this
    · have := valid chain.length block (by simp)
      rwa [List.take_left' rfl] at this
  · intro valid i member found
    rcases Nat.lt_or_ge i chain.length with inside | outside
    · rw [List.getElem?_append_left inside] at found
      rw [List.take_append_of_le_length inside.le]
      exact valid.1 i member found
    · rw [List.getElem?_append_right outside] at found
      obtain ⟨lt, same⟩ := List.getElem?_eq_some_iff.mp found
      simp only [List.length_singleton, Nat.lt_one_iff] at lt
      have atEnd : i = chain.length := by omega
      rw [atEnd, List.take_left' rfl, ← same]
      simpa using valid.2

theorem ChainValid.take {chain : List (Block H)} (valid : ChainValid chain) (n : Nat) : ChainValid (chain.take n) := by
  intro i member found
  have inside := (List.getElem?_eq_some_iff.mp found).1
  rw [List.length_take] at inside
  rw [List.take_take, min_eq_left (by omega)]
  exact valid i member (by rw [← List.getElem?_take_of_lt (show i < n by omega)]; exact found)

theorem ChainValid.spent_created {chain : List (Block H)} (valid : ChainValid chain) {spender : Block H}
    (member : spender ∈ chain) {outPoint : OutPoint H} (dead : outPoint ∈ spender.deadPts) :
    ∃ creator ∈ chain, outPoint ∈ creator.outputPts := by
  obtain ⟨i, found⟩ := List.mem_iff_getElem?.mp member
  rcases (valid i spender found).inputs outPoint dead with own | live
  · exact ⟨spender, member, own⟩
  · obtain ⟨creator, created, output⟩ := live.1
    exact ⟨creator, List.mem_of_mem_take created, output⟩

/-! ### One block -/

variable {calcDataHash : List UInt8 → H}

section Attach

variable {store : Store H} {block : Block H}

theorem mem_cell_insertCells [DecidableEq H] (cells : CellColumns H) (items : List (OutPoint H × CellEntry H × Option (CellDataEntry H)))
    (outPoint : OutPoint H) : outPoint ∈ (cells.insertCells items).cell ↔ outPoint ∈ cells.cell ∨ outPoint ∈ items.map (·.1) := by
  rw [insertCells_eq]
  exact FiniteMap.mem_foldl_insert _ _ _ _ _

theorem mem_cell_deleteCells [DecidableEq H] (cells : CellColumns H) (outPoints : List (OutPoint H)) (outPoint : OutPoint H) :
    outPoint ∈ (cells.deleteCells outPoints).cell ↔ outPoint ∈ cells.cell ∧ outPoint ∉ outPoints := by
  rw [deleteCells_eq]
  exact FiniteMap.mem_foldl_erase _ _ _

theorem mem_map_newCells (outputsData : ∀ tx ∈ block.transactions, tx.outputsData.length = tx.outputs.length)
    (outPoint : OutPoint H) : outPoint ∈ (newCells calcDataHash block).map (·.1) ↔ outPoint ∈ block.outputPts := by
  constructor
  · intro created
    obtain ⟨item, member, rfl⟩ := List.mem_map.mp created
    exact key_mem_outputPts_of_mem_newCells calcDataHash member
  · intro output
    obtain ⟨tx, txMember, sameHash, inside⟩ := Block.mem_outputPts.mp output
    obtain ⟨txIndex, txFound⟩ := List.mem_iff_getElem?.mp txMember
    have dataInside : outPoint.index < tx.outputsData.length := by rw [outputsData tx txMember]; exact inside
    refine List.mem_map.mpr ⟨_, (mem_newCells calcDataHash).mpr ⟨txIndex, tx, txFound, outPoint.index, _, _,
      List.getElem?_eq_getElem inside, List.getElem?_eq_getElem dataInside, rfl⟩, ?_⟩
    simp [cellRecord, ← sameHash]

variable [DecidableEq H]

theorem mem_cell_attach (outputsData : ∀ tx ∈ block.transactions, tx.outputsData.length = tx.outputs.length)
    (outPoint : OutPoint H) :
    outPoint ∈ (attach calcDataHash store block).cells.cell ↔
      (outPoint ∈ store.cells.cell ∨ outPoint ∈ block.outputPts) ∧ outPoint ∉ block.deadPts := by
  rw [cells_attach, mem_cell_deleteCells, mem_cell_insertCells, mem_map_newCells outputsData]

theorem mem_transactionInfo_attach (txHash : H) :
    txHash ∈ (attach calcDataHash store block).transactionInfo ↔ txHash ∈ store.transactionInfo ∨ txHash ∈ block.txHashes := by
  rw [transactionInfo_attach, Store.attachBlock]
  simp only
  rw [FiniteMap.mem_foldl_insert, List.zipIdx_map_fst]

end Attach

/-! ### Chains -/

variable [DecidableEq H]

variable (calcDataHash) in
/-- The store obtained by attaching a chain, block by block, to an empty one. -/
def chainStore (chain : List (Block H)) : Store H := chain.foldl (attach calcDataHash) {}

theorem transactionInfo_foldl_attach {store store' : Store H} (same : store.transactionInfo = store'.transactionInfo)
    (blocks : List (Block H)) :
    (blocks.foldl (attach calcDataHash) store).transactionInfo = (blocks.foldl (attach calcDataHash) store').transactionInfo := by
  induction blocks generalizing store store' with
  | nil => exact same
  | cons block rest ih =>
    exact ih (by rw [transactionInfo_attach, transactionInfo_attach]; simp [Store.attachBlock, same])

theorem blockBody_foldl_attach (store : Store H) (blocks : List (Block H)) :
    (blocks.foldl (attach calcDataHash) store).blockBody = store.blockBody := by
  induction blocks generalizing store with
  | nil => rfl
  | cons block rest ih => exact (ih _).trans blockBody_attach

/-- The transactions indexed after attaching a chain to a store with an empty index are the
chain's. -/
theorem mem_transactionInfo_foldl_attach {store : Store H} (empty : store.transactionInfo = ∅) (chain : List (Block H))
    (txHash : H) :
    txHash ∈ (chain.foldl (attach calcDataHash) store).transactionInfo ↔ ∃ block ∈ chain, txHash ∈ block.txHashes := by
  induction chain using List.reverseRecOn with
  | nil => simp [empty, Finmap.notMem_empty]
  | append_singleton chain block ih =>
    rw [List.foldl_append, List.foldl_cons, List.foldl_nil, mem_transactionInfo_attach, ih]
    simp only [List.mem_append, List.mem_singleton]
    constructor
    · intro found
      rcases found with ⟨other, member, indexed⟩ | own
      · exact ⟨other, .inl member, indexed⟩
      · exact ⟨block, .inr rfl, own⟩
    · intro found
      obtain ⟨other, member, indexed⟩ := found
      rcases member with old | new
      · exact .inl ⟨other, old, indexed⟩
      · exact .inr (new ▸ indexed)

/-- The live cells after attaching a valid chain to a store with no cells are the outputs created
on the chain and not spent on it. -/
theorem mem_cell_foldl_attach {store : Store H} (empty : store.cells.cell = ∅) {chain : List (Block H)}
    (valid : ChainValid chain) (outPoint : OutPoint H) :
    outPoint ∈ (chain.foldl (attach calcDataHash) store).cells.cell ↔ LiveOn chain outPoint := by
  induction chain using List.reverseRecOn generalizing outPoint with
  | nil => simp [empty, LiveOn, Finmap.notMem_empty]
  | append_singleton chain block ih =>
    obtain ⟨validChain, validBlock⟩ := chainValid_append.mp valid
    rw [List.foldl_append, List.foldl_cons, List.foldl_nil, mem_cell_attach validBlock.outputsData, ih validChain]
    -- an output of the new block was spent by no earlier block: its hash is new to the chain
    have unspent : outPoint ∈ block.outputPts → ∀ spender ∈ chain, outPoint ∉ spender.deadPts := by
      intro output spender member dead
      obtain ⟨creator, created, created'⟩ := validChain.spent_created member dead
      exact validBlock.fresh creator created _ (Block.txHash_mem_of_mem_outputPts output)
        (Block.txHash_mem_of_mem_outputPts created')
    simp only [LiveOn, List.mem_append, List.mem_singleton]
    constructor
    · intro live
      obtain ⟨created, notNew⟩ := live
      rcases created with ⟨⟨creator, member, output⟩, unspentOld⟩ | output
      · exact ⟨⟨creator, .inl member, output⟩, fun spender member => member.elim (unspentOld spender) (· ▸ notNew)⟩
      · exact ⟨⟨block, .inr rfl, output⟩, fun spender member => member.elim (unspent output spender) (· ▸ notNew)⟩
    · intro live
      obtain ⟨⟨creator, member, output⟩, unspentAll⟩ := live
      refine ⟨?_, unspentAll block (.inr rfl)⟩
      rcases member with old | new
      · exact .inl ⟨⟨creator, old, output⟩, fun spender member => unspentAll spender (.inl member)⟩
      · exact .inr (new ▸ output)

theorem AttachRun.cellsIndexed {store : Store H} {blocks : List (Block H)} (run : AttachRun calcDataHash store blocks)
    (indexed : CellsIndexed calcDataHash store) : CellsIndexed calcDataHash (blocks.foldl (attach calcDataHash) store) := by
  induction run with
  | nil store => exact indexed
  | cons attachable rest ih => exact ih (indexed.attach attachable)

/-- Attaching the top of a valid chain to its lower part, over a store that holds the chain's
bodies and no cells, is a run of attachable blocks. -/
theorem attachRun_of_chainValid (base : Store H) (cellsEmpty : base.cells.cell = ∅) (infoEmpty : base.transactionInfo = ∅) :
    ∀ lower upper : List (Block H), ChainValid (lower ++ upper) →
      (∀ block ∈ upper, ∀ index < block.transactions.length,
        base.blockBody.lookup (block.hash, index) = block.transactions[index]?) →
      AttachRun calcDataHash (lower.foldl (attach calcDataHash) base) upper := by
  intro lower upper
  induction upper generalizing lower with
  | nil => exact fun _ _ => .nil _
  | cons block upper ih =>
    intro valid bodies
    have onLower : ValidOn lower block := by
      have := valid lower.length block (by simp)
      rwa [List.take_left' rfl] at this
    have lowerValid : ChainValid lower := by
      have := valid.take lower.length
      rwa [List.take_left' rfl] at this
    refine .cons ⟨fun outPoint dead => ?_, fun txHash own indexed => ?_, onLower.distinct, ?_⟩ ?_
    · rcases onLower.inputs outPoint dead with output | live
      · exact .inl output
      · exact .inr ((mem_cell_foldl_attach cellsEmpty lowerValid outPoint).mpr live)
    · obtain ⟨ancestor, member, earlier⟩ := (mem_transactionInfo_foldl_attach infoEmpty lower txHash).mp indexed
      exact onLower.fresh ancestor member txHash own earlier
    · rw [blockBody_foldl_attach]
      exact bodies block List.mem_cons_self
    · have next := ih (lower ++ [block]) (by simpa using valid)
        fun other member => bodies other (List.mem_cons_of_mem block member)
      simpa using next

variable [LinearOrder H]

/-- Rolling back the top of a valid chain from a store with the chain's cells and index gives the
cells and the index of the chain below it. -/
theorem rollback_chainStore {store : Store H} {lower upper : List (Block H)} (valid : ChainValid (lower ++ upper))
    (bodies : ∀ block ∈ lower ++ upper, ∀ index < block.transactions.length,
      store.blockBody.lookup (block.hash, index) = block.transactions[index]?)
    (cells : store.cells = (chainStore calcDataHash (lower ++ upper)).cells)
    (infos : store.transactionInfo = (chainStore calcDataHash (lower ++ upper)).transactionInfo) :
    ∃ store', rollback calcDataHash store upper = some store' ∧
      store'.cells = (chainStore calcDataHash lower).cells ∧
      store'.transactionInfo = (chainStore calcDataHash lower).transactionInfo ∧ store'.blockBody = store.blockBody := by
  set base : Store H := { blockBody := store.blockBody }
  have lowerRun : AttachRun calcDataHash base lower := attachRun_of_chainValid base rfl rfl [] lower
    (by simpa using valid.take lower.length) fun block member => bodies block (List.mem_append_left _ member)
  have indexed := lowerRun.cellsIndexed (cellsIndexed_of_cells_empty rfl)
  have upperRun : AttachRun calcDataHash (lower.foldl (attach calcDataHash) base) upper :=
    attachRun_of_chainValid base rfl rfl lower upper valid fun block member => bodies block (List.mem_append_right _ member)
  have emptyCells : ({} : Store H).cells = base.cells := rfl
  have emptyInfos : ({} : Store H).transactionInfo = base.transactionInfo := rfl
  have same : store.SameCells (upper.foldl (attach calcDataHash) (lower.foldl (attach calcDataHash) base)) := by
    refine ⟨?_, ?_, ?_⟩
    · rw [cells, chainStore, ← List.foldl_append]
      exact cells_foldl_attach emptyCells _
    · rw [infos, chainStore, ← List.foldl_append]
      exact transactionInfo_foldl_attach emptyInfos _
    · rw [blockBody_foldl_attach, blockBody_foldl_attach]
  obtain ⟨store', rolled, restored⟩ := rollback_attachRun indexed upperRun same
  refine ⟨store', rolled, ?_, ?_, ?_⟩
  · rw [restored.cells]
    exact (cells_foldl_attach emptyCells _).symm
  · rw [restored.transactionInfo]
    exact (transactionInfo_foldl_attach emptyInfos _).symm
  · rw [restored.blockBody, blockBody_foldl_attach]

end Ckb
