import Ckb.Store.Cell

namespace Ckb

variable {H : Type}

namespace Block

theorem mem_outputPts {block : Block H} {outPoint : OutPoint H} :
    outPoint ∈ block.outputPts ↔ ∃ tx ∈ block.transactions, outPoint.txHash = tx.hash ∧ outPoint.index < tx.outputs.length := by
  simp [outputPts, TransactionView.mem_outputPts]

theorem txHash_mem_of_mem_outputPts {block : Block H} {outPoint : OutPoint H} (output : outPoint ∈ block.outputPts) :
    outPoint.txHash ∈ block.txHashes := by
  obtain ⟨tx, member, same, -⟩ := mem_outputPts.mp output
  exact List.mem_map.mpr ⟨tx, member, same.symm⟩

end Block

theorem mem_newCells (calcDataHash : List UInt8 → H) {block : Block H} {item : OutPoint H × CellEntry H × Option (CellDataEntry H)} :
    item ∈ newCells calcDataHash block ↔
      ∃ txIndex tx, block.transactions[txIndex]? = some tx ∧ ∃ index cellOutput data,
        tx.outputs[index]? = some cellOutput ∧ tx.outputsData[index]? = some data ∧
          item = cellRecord calcDataHash ⟨tx.hash, index⟩ cellOutput block.hash block.number
            block.header.epoch.fullValue txIndex data := by
  simp only [newCells, List.mem_flatMap, List.mem_map, Prod.exists, List.mem_zipIdx_iff_getElem?,
    List.getElem?_zip_eq_some]
  constructor
  · rintro ⟨tx, txIndex, found, cellOutput, data, index, ⟨output, stored⟩, rfl⟩
    exact ⟨txIndex, tx, found, index, cellOutput, data, output, stored, rfl⟩
  · rintro ⟨txIndex, tx, found, index, cellOutput, data, output, stored, rfl⟩
    exact ⟨tx, txIndex, found, cellOutput, data, index, ⟨output, stored⟩, rfl⟩

theorem key_mem_outputPts_of_mem_newCells (calcDataHash : List UInt8 → H) {block : Block H} {item : OutPoint H × CellEntry H × Option (CellDataEntry H)}
    (member : item ∈ newCells calcDataHash block) : item.1 ∈ block.outputPts := by
  obtain ⟨txIndex, tx, found, index, cellOutput, data, output, -, rfl⟩ := (mem_newCells calcDataHash).mp member
  exact Block.mem_outputPts.mpr ⟨tx, List.mem_of_getElem? found, rfl, (List.getElem?_eq_some_iff.mp output).1⟩

variable [DecidableEq H]

namespace CellColumns

/-- What the three columns hold under one out point. -/
def slot (cells : CellColumns H) (outPoint : OutPoint H) :
    Option (CellEntry H) × Option (Option (CellDataEntry H)) × Option (Option H) :=
  (cells.cell.lookup outPoint, cells.cellData.lookup outPoint, cells.cellDataHash.lookup outPoint)

/-- The slot of a stored entry and data entry, or of no cell. -/
def slotOf : Option (CellEntry H × Option (CellDataEntry H)) →
    Option (CellEntry H) × Option (Option (CellDataEntry H)) × Option (Option H)
  | none => (none, none, none)
  | some record => (some record.1, some record.2, some (record.2.map (·.outputDataHash)))

theorem ext_slot {cells cells' : CellColumns H} (same : ∀ outPoint, cells.slot outPoint = cells'.slot outPoint) :
    cells = cells' := by
  obtain ⟨cell, cellData, cellDataHash⟩ := cells
  obtain ⟨cell', cellData', cellDataHash'⟩ := cells'
  simp only [slot, Prod.mk.injEq] at same
  simp only [mk.injEq]
  exact ⟨Finmap.ext_lookup fun k => (same k).1, Finmap.ext_lookup fun k => (same k).2.1,
    Finmap.ext_lookup fun k => (same k).2.2⟩

theorem insertCells_eq (cells : CellColumns H) (items : List (OutPoint H × CellEntry H × Option (CellDataEntry H))) :
    cells.insertCells items =
      { cell := items.foldl (fun m item => m.insert item.1 item.2.1) cells.cell
        cellData := items.foldl (fun m item => m.insert item.1 item.2.2) cells.cellData
        cellDataHash := items.foldl (fun m item => m.insert item.1 (item.2.2.map (·.outputDataHash)))
          cells.cellDataHash } := by
  induction items generalizing cells with
  | nil => rfl
  | cons item rest ih => exact ih _

theorem deleteCells_eq (cells : CellColumns H) (outPoints : List (OutPoint H)) :
    cells.deleteCells outPoints =
      { cell := outPoints.foldl (fun m k => m.erase k) cells.cell
        cellData := outPoints.foldl (fun m k => m.erase k) cells.cellData
        cellDataHash := outPoints.foldl (fun m k => m.erase k) cells.cellDataHash } := by
  induction outPoints generalizing cells with
  | nil => rfl
  | cons outPoint rest ih => exact ih _

theorem slot_insertCells (cells : CellColumns H) {items : List (OutPoint H × CellEntry H × Option (CellDataEntry H))}
    {outPoint : OutPoint H} {record : CellEntry H × Option (CellDataEntry H)}
    (agree : ∀ item ∈ items, item.1 = outPoint → item.2 = record) :
    (cells.insertCells items).slot outPoint =
      if outPoint ∈ items.map (·.1) then slotOf (some record) else cells.slot outPoint := by
  rw [insertCells_eq]
  simp only [slot]
  rw [FiniteMap.lookup_foldl_insert _ _ _ _ fun item member same => congrArg Prod.fst (agree item member same),
    FiniteMap.lookup_foldl_insert _ _ _ _ fun item member same => congrArg Prod.snd (agree item member same),
    FiniteMap.lookup_foldl_insert _ _ _ _ fun item member same => by rw [agree item member same]]
  split_ifs <;> rfl

theorem slot_insertCells_of_notMem (cells : CellColumns H)
    {items : List (OutPoint H × CellEntry H × Option (CellDataEntry H))} {outPoint : OutPoint H}
    (absent : outPoint ∉ items.map (·.1)) : (cells.insertCells items).slot outPoint = cells.slot outPoint := by
  rw [insertCells_eq]
  simp only [slot, FiniteMap.lookup_foldl_insert_of_notMem _ _ _ _ absent]

theorem slot_deleteCells (cells : CellColumns H) (outPoints : List (OutPoint H)) (outPoint : OutPoint H) :
    (cells.deleteCells outPoints).slot outPoint =
      if outPoint ∈ outPoints then slotOf none else cells.slot outPoint := by
  rw [deleteCells_eq]
  simp only [slot, FiniteMap.lookup_foldl_erase]
  split_ifs <;> rfl

theorem lookup_cell_eq_none {cells : CellColumns H} {outPoint : OutPoint H} (vacant : cells.slot outPoint = slotOf none) :
    outPoint ∉ cells.cell :=
  Finmap.lookup_eq_none.mp (congrArg Prod.fst vacant)

end CellColumns

open CellColumns

variable (calcDataHash : List UInt8 → H)

namespace Store

/-- The cell `detach_block_cell` rebuilds at an out point from the transaction index. -/
def rebuiltCell (store : Store H) (outPoint : OutPoint H) : Option (CellEntry H × Option (CellDataEntry H)) := do
  let (tx, info) ← store.getTransactionWithInfo outPoint.txHash
  let (cellOutput, data) ← (← tx.outputWithData outPoint.index)
  pure (cellRecord calcDataHash outPoint cellOutput info.blockHash info.blockNumber info.blockEpoch info.index data).2

variable {calcDataHash}

theorem rebuiltCell_congr {store store' : Store H} {outPoint : OutPoint H}
    (info : store.transactionInfo.lookup outPoint.txHash = store'.transactionInfo.lookup outPoint.txHash)
    (bodies : store.blockBody = store'.blockBody) :
    store.rebuiltCell calcDataHash outPoint = store'.rebuiltCell calcDataHash outPoint := by
  simp only [rebuiltCell, getTransactionWithInfo, getTransactionInfo, info, bodies]

theorem mem_transactionInfo_of_rebuiltCell {store : Store H} {outPoint : OutPoint H}
    {record : CellEntry H × Option (CellDataEntry H)} (rebuilt : store.rebuiltCell calcDataHash outPoint = some record) :
    outPoint.txHash ∈ store.transactionInfo := by
  cases found : store.transactionInfo.lookup outPoint.txHash with
  | none => simp [rebuiltCell, getTransactionWithInfo, getTransactionInfo, found] at rebuilt
  | some info => exact Finmap.mem_of_lookup_eq_some found

theorem outputWithData_isSome_of_rebuiltCell {store : Store H} {outPoint : OutPoint H}
    {record : CellEntry H × Option (CellDataEntry H)} (rebuilt : store.rebuiltCell calcDataHash outPoint = some record)
    {found : TransactionView H × TransactionInfo H} (lookup : store.getTransactionWithInfo outPoint.txHash = some found) :
    (found.1.outputWithData outPoint.index).isSome := by
  simp only [rebuiltCell, lookup, Option.bind_eq_bind, Option.bind_some] at rebuilt
  cases data : found.1.outputWithData outPoint.index with
  | none => simp [data] at rebuilt
  | some _ => rfl

end Store

open Store

/-- Every stored cell is the one the transaction index rebuilds. -/
def CellsIndexed (store : Store H) : Prop :=
  ∀ outPoint, store.cells.slot outPoint = slotOf none ∨
    store.cells.slot outPoint = slotOf (store.rebuiltCell calcDataHash outPoint)

variable {calcDataHash}

theorem cellsIndexed_of_cells_empty {store : Store H} (empty : store.cells = {}) : CellsIndexed calcDataHash store :=
  fun _ => .inl (by simp [empty, slot, slotOf])

namespace CellsIndexed

variable {store : Store H} (indexed : CellsIndexed calcDataHash store)
include indexed

theorem live {outPoint : OutPoint H} (live : outPoint ∈ store.cells.cell) :
    ∃ record, store.rebuiltCell calcDataHash outPoint = some record ∧
      store.cells.slot outPoint = slotOf (some record) := by
  rcases indexed outPoint with vacant | rebuilt
  · exact absurd live (lookup_cell_eq_none vacant)
  · cases found : store.rebuiltCell calcDataHash outPoint with
    | none => exact absurd live (lookup_cell_eq_none (found ▸ rebuilt))
    | some record => exact ⟨record, rfl, found ▸ rebuilt⟩

theorem vacant {outPoint : OutPoint H} (dead : outPoint ∉ store.cells.cell) :
    store.cells.slot outPoint = slotOf none := by
  rcases indexed outPoint with vacant | rebuilt
  · exact vacant
  · cases found : store.rebuiltCell calcDataHash outPoint with
    | none => exact found ▸ rebuilt
    | some record =>
      rw [found] at rebuilt
      exact absurd (Finmap.mem_of_lookup_eq_some (congrArg Prod.fst rebuilt)) dead

theorem txHash_mem {outPoint : OutPoint H} (live : outPoint ∈ store.cells.cell) :
    outPoint.txHash ∈ store.transactionInfo := by
  obtain ⟨record, rebuilt, -⟩ := indexed.live live
  exact mem_transactionInfo_of_rebuiltCell rebuilt

end CellsIndexed

/-! ### The transaction index -/

namespace Store

theorem lookup_attachBlock_of_notMem {store : Store H} {block : Block H} {txHash : H}
    (absent : txHash ∉ block.txHashes) :
    (store.attachBlock block).transactionInfo.lookup txHash = store.transactionInfo.lookup txHash := by
  refine FiniteMap.lookup_foldl_insert_of_notMem _ _ _ _ ?_
  rwa [← List.zipIdx_map_fst 0 block.txHashes] at absent

theorem lookup_attachBlock {store : Store H} {block : Block H} (distinct : block.txHashes.Nodup)
    {txIndex : Nat} {tx : TransactionView H} (found : block.transactions[txIndex]? = some tx) :
    (store.attachBlock block).transactionInfo.lookup tx.hash =
      some ⟨block.hash, block.number, block.header.epoch.fullValue, txIndex⟩ := by
  have hashFound : block.txHashes[txIndex]? = some tx.hash := by simp [Block.txHashes, found]
  have position : ∀ entry ∈ block.txHashes.zipIdx, entry.1 = tx.hash → entry.2 = txIndex := by
    intro entry member same
    rw [List.mem_zipIdx_iff_getElem?, same, ← hashFound] at member
    exact ((List.getElem?_inj (List.getElem?_eq_some_iff.mp hashFound).1 distinct).mp member.symm).symm
  rw [attachBlock, FiniteMap.lookup_foldl_insert _ _ _ _ fun entry member same => by rw [position entry member same],
    if_pos (by rw [List.zipIdx_map_fst]; exact List.mem_of_getElem? hashFound)]

theorem transactionInfo_detachBlock_attachBlock {store : Store H} {block : Block H}
    (fresh : ∀ txHash ∈ block.txHashes, txHash ∉ store.transactionInfo) :
    ((store.attachBlock block).detachBlock block).transactionInfo = store.transactionInfo := by
  apply Finmap.ext_lookup
  intro txHash
  simp only [detachBlock, FiniteMap.lookup_foldl_erase]
  split_ifs with indexed
  · exact (Finmap.lookup_eq_none.mpr (fresh txHash indexed)).symm
  · exact lookup_attachBlock_of_notMem indexed

theorem transactionInfo_detachBlock_congr {store store' : Store H} (block : Block H)
    (same : store.transactionInfo = store'.transactionInfo) :
    (store.detachBlock block).transactionInfo = (store'.detachBlock block).transactionInfo := by
  simp [detachBlock, same]

theorem lookup_detachBlock_of_notMem {store : Store H} {block : Block H} {txHash : H} (absent : txHash ∉ block.txHashes) :
    (store.detachBlock block).transactionInfo.lookup txHash = store.transactionInfo.lookup txHash := by
  simp [detachBlock, FiniteMap.lookup_foldl_erase, absent]

theorem lookup_detachBlock_of_mem {store : Store H} {block : Block H} {txHash : H} (present : txHash ∈ block.txHashes) :
    (store.detachBlock block).transactionInfo.lookup txHash = none := by
  simp [detachBlock, FiniteMap.lookup_foldl_erase, present]

end Store

/-! ### What `detach_block_cell` restores -/

theorem inputPtsMap_eq (block : Block H) :
    inputPtsMap block = block.deadPts.foldl (fun inputPts pts => inputPts.push pts.txHash pts.index) ∅ := by
  rw [inputPtsMap, Block.deadPts, List.foldl_flatMap]

theorem mem_inputPtsMap {block : Block H} {txHash : H} {index : Nat} :
    index ∈ ((inputPtsMap block).lookup txHash).getD [] ↔ ⟨txHash, index⟩ ∈ block.deadPts := by
  rw [inputPtsMap_eq, FiniteMap.mem_foldl_push]
  constructor
  · rintro (empty | ⟨pts, dead, rfl, rfl⟩)
    · simp at empty
    · exact dead
  · exact fun dead => .inr ⟨_, dead, rfl, rfl⟩

theorem mem_keys_inputPtsMap {block : Block H} {outPoint : OutPoint H} (dead : outPoint ∈ block.deadPts) :
    outPoint.txHash ∈ (inputPtsMap block).keys := by
  rw [Finmap.mem_keys, inputPtsMap_eq, FiniteMap.mem_keys_foldl_push]
  exact .inr ⟨outPoint, dead, rfl⟩

section Restore

variable {store : Store H} {txHash : H} {indexes : List Nat}

theorem mem_restoredCells {items : List (OutPoint H × CellEntry H × Option (CellDataEntry H))}
    (ran : restoredCells calcDataHash store txHash indexes = some items) {item : OutPoint H × CellEntry H × Option (CellDataEntry H)} :
    item ∈ items ↔ item.1.txHash = txHash ∧ item.1.index ∈ indexes ∧
      store.rebuiltCell calcDataHash item.1 = some item.2 := by
  unfold restoredCells at ran
  split at ran
  · rename_i missing
    cases ran
    simp only [List.not_mem_nil, false_iff, not_and]
    rintro rfl -
    simp [rebuiltCell, missing]
  · rename_i tx info lookup
    rw [mem_of_filterMapM_option_eq_some ran]
    constructor
    · rintro ⟨index, member, restored⟩
      cases data : tx.outputWithData index with
      | none => simp [data] at restored
      | some cell =>
        cases cell with
        | none => simp [data] at restored
        | some cell =>
          simp only [data, Option.map_some, Option.some.injEq] at restored
          subst restored
          simp [rebuiltCell, lookup, data, member, cellRecord]
    · obtain ⟨⟨itemHash, index⟩, record⟩ := item
      rintro ⟨rfl, member, rebuilt⟩
      refine ⟨index, member, ?_⟩
      simp only [rebuiltCell, lookup, Option.bind_eq_bind, Option.bind_some] at rebuilt
      cases data : tx.outputWithData index with
      | none => simp [data] at rebuilt
      | some cell =>
        cases cell with
        | none => simp [data] at rebuilt
        | some cell =>
          simp only [data, Option.bind_some, Option.pure_def, Option.some.injEq] at rebuilt
          simp [← rebuilt, cellRecord]

theorem restoredCells_isSome
    (total : ∀ index ∈ indexes, ∀ found ∈ store.getTransactionWithInfo txHash, (found.1.outputWithData index).isSome) :
    (restoredCells calcDataHash store txHash indexes).isSome := by
  unfold restoredCells
  split
  · rfl
  · rename_i tx info lookup
    exact filterMapM_option_isSome fun index member => by
      simpa using total index member (tx, info) lookup

end Restore

/-! ### Attaching a block -/

section Attach

variable {store : Store H} {block : Block H}

theorem cells_attach :
    (attach calcDataHash store block).cells =
      (store.cells.insertCells (newCells calcDataHash block)).deleteCells block.deadPts := rfl

theorem transactionInfo_attach :
    (attach calcDataHash store block).transactionInfo = (store.attachBlock block).transactionInfo := rfl

theorem blockBody_attach : (attach calcDataHash store block).blockBody = store.blockBody := rfl

theorem slot_attach_of_not_output {outPoint : OutPoint H} (notOutput : outPoint ∉ block.outputPts) :
    (attach calcDataHash store block).cells.slot outPoint =
      if outPoint ∈ block.deadPts then slotOf none else store.cells.slot outPoint := by
  rw [cells_attach, slot_deleteCells, slot_insertCells_of_notMem]
  intro new
  obtain ⟨item, member, rfl⟩ := List.mem_map.mp new
  exact notOutput (key_mem_outputPts_of_mem_newCells calcDataHash member)

end Attach

theorem cells_foldl_attach {store store' : Store H} (same : store.cells = store'.cells) (blocks : List (Block H)) :
    (blocks.foldl (attach calcDataHash) store).cells = (blocks.foldl (attach calcDataHash) store').cells := by
  induction blocks generalizing store store' with
  | nil => exact same
  | cons block rest ih =>
    exact ih (by rw [cells_attach, cells_attach, same])

/-- What a block must satisfy against the store it is attached to: each input spends a live cell
or one of its outputs; its transactions are new to the index, have distinct hashes, and are stored
under the block (by `insert_block`). -/
structure Attachable (store : Store H) (block : Block H) : Prop where
  inputs : ∀ outPoint ∈ block.deadPts, outPoint ∈ block.outputPts ∨ outPoint ∈ store.cells.cell
  fresh : ∀ txHash ∈ block.txHashes, txHash ∉ store.transactionInfo
  distinct : block.txHashes.Nodup
  stored : ∀ index < block.transactions.length,
    store.blockBody.lookup (block.hash, index) = block.transactions[index]?

section Preserve

variable {store : Store H} {block : Block H}

theorem Attachable.foreign (attachable : Attachable store block) (indexed : CellsIndexed calcDataHash store) :
    ∀ outPoint ∈ store.cells.cell, outPoint.txHash ∉ block.txHashes :=
  fun _ live own => attachable.fresh _ own (indexed.txHash_mem live)

theorem rebuiltCell_attach_of_mem_newCells (attachable : Attachable store block)
    {item : OutPoint H × CellEntry H × Option (CellDataEntry H)} (member : item ∈ newCells calcDataHash block) :
    (attach calcDataHash store block).rebuiltCell calcDataHash item.1 = some item.2 := by
  obtain ⟨txIndex, tx, found, index, cellOutput, data, output, stored, rfl⟩ := (mem_newCells calcDataHash).mp member
  have info : (store.attachBlock block).transactionInfo.lookup tx.hash =
      some ⟨block.hash, block.number, block.header.epoch.fullValue, txIndex⟩ :=
    lookup_attachBlock attachable.distinct found
  have body : store.blockBody.lookup (block.hash, txIndex) = some tx := by
    rw [attachable.stored txIndex (List.getElem?_eq_some_iff.mp found).1, found]
  simp [rebuiltCell, getTransactionWithInfo, getTransactionInfo, transactionInfo_attach, blockBody_attach, info,
    body, TransactionView.outputWithData, output, stored, cellRecord]

theorem CellsIndexed.attach (indexed : CellsIndexed calcDataHash store) (attachable : Attachable store block) :
    CellsIndexed calcDataHash (attach calcDataHash store block) := by
  intro outPoint
  rw [cells_attach, slot_deleteCells]
  split_ifs with dead
  · exact .inl rfl
  · by_cases new : outPoint ∈ (newCells calcDataHash block).map (·.1)
    · -- a new cell: the index now holds its transaction
      obtain ⟨item, member, rfl⟩ := List.mem_map.mp new
      have rebuilt := rebuiltCell_attach_of_mem_newCells attachable member
      have agree : ∀ other ∈ newCells calcDataHash block, other.1 = item.1 → other.2 = item.2 :=
        fun other otherMember same => by
          have otherRebuilt := rebuiltCell_attach_of_mem_newCells attachable otherMember
          rw [same, rebuilt] at otherRebuilt
          exact (Option.some.inj otherRebuilt).symm
      exact .inr (by rw [slot_insertCells _ agree, if_pos new, rebuilt])
    · rw [slot_insertCells_of_notMem _ new]
      by_cases live : outPoint ∈ store.cells.cell
      · -- an old cell: its transaction is not one of the block's, so the index still rebuilds it
        obtain ⟨record, rebuilt, stored⟩ := indexed.live live
        have own := attachable.foreign indexed outPoint live
        have same : (Ckb.attach calcDataHash store block).rebuiltCell calcDataHash outPoint =
            store.rebuiltCell calcDataHash outPoint :=
          rebuiltCell_congr (by rw [transactionInfo_attach, lookup_attachBlock_of_notMem own]) blockBody_attach
        exact .inr (by rw [stored, same, rebuilt])
      · exact .inl (indexed.vacant live)

end Preserve

variable [LinearOrder H]

/-- `detach_block_cell` restores exactly the spent cells the index rebuilds; it does not panic when
the index finds data for each of them. -/
theorem detachBlockCell_eq {store : Store H} {block : Block H}
    (total : ∀ outPoint ∈ block.deadPts, ∀ found ∈ store.getTransactionWithInfo outPoint.txHash,
      (found.1.outputWithData outPoint.index).isSome) :
    ∃ restored, detachBlockCell calcDataHash store block =
        some ((store.insertCells restored).deleteCells block.outputPts) ∧
      ∀ item, item ∈ restored ↔ item.1 ∈ block.deadPts ∧ store.rebuiltCell calcDataHash item.1 = some item.2 := by
  have groupsSome := mapM_option_isSome (f := fun txHash =>
      restoredCells calcDataHash store txHash (((inputPtsMap block).lookup txHash).getD []))
    (l := sortedElems (inputPtsMap block).keys) fun txHash _ =>
    restoredCells_isSome fun index member => total _ (mem_inputPtsMap.mp member)
  obtain ⟨groups, ran⟩ := Option.isSome_iff_exists.mp groupsSome
  refine ⟨groups.flatten, by simp [detachBlockCell, ran], fun item => ?_⟩
  simp only [List.mem_flatten]
  constructor
  · rintro ⟨group, grouped, member⟩
    obtain ⟨txHash, -, restored⟩ := (mem_of_mapM_option_eq_some ran).mp grouped
    obtain ⟨same, index, rebuilt⟩ := (mem_restoredCells restored).mp member
    subst same
    exact ⟨mem_inputPtsMap.mp index, rebuilt⟩
  · rintro ⟨dead, rebuilt⟩
    have key : item.1.txHash ∈ sortedElems (inputPtsMap block).keys :=
      mem_sortedElems.mpr (mem_keys_inputPtsMap dead)
    have groupSome : (restoredCells calcDataHash store item.1.txHash
        (((inputPtsMap block).lookup item.1.txHash).getD [])).isSome :=
      restoredCells_isSome fun index member => total _ (mem_inputPtsMap.mp member)
    obtain ⟨group, restored⟩ := Option.isSome_iff_exists.mp groupSome
    exact ⟨group, (mem_of_mapM_option_eq_some ran).mpr ⟨_, key, restored⟩,
      (mem_restoredCells restored).mpr ⟨rfl, mem_inputPtsMap.mpr dead, rebuilt⟩⟩

/-! ### One block -/

/-- Two stores that agree on what `detach` reads. -/
structure Store.SameCells (store store' : Store H) : Prop where
  cells : store.cells = store'.cells
  transactionInfo : store.transactionInfo = store'.transactionInfo
  blockBody : store.blockBody = store'.blockBody

section Detach

variable {store : Store H} {block : Block H}

/-- Detaching a block from a store that agrees with the attached one gives the cells back, when
every input of the block spends a live cell or one of its outputs and no live cell comes from a
transaction with the hash of one of the block's. -/
theorem detach_restores (indexed : CellsIndexed calcDataHash store)
    (inputs : ∀ outPoint ∈ block.deadPts, outPoint ∈ block.outputPts ∨ outPoint ∈ store.cells.cell)
    (foreign : ∀ outPoint ∈ store.cells.cell, outPoint.txHash ∉ block.txHashes)
    {attached : Store H} (same : attached.SameCells (attach calcDataHash store block)) :
    ∃ store', detach calcDataHash attached block = some store' ∧ store'.cells = store.cells ∧
      store'.transactionInfo = (attached.detachBlock block).transactionInfo ∧ store'.blockBody = store.blockBody := by
  -- off the block's own transactions, the index after `detach_block` is the one before the block
  have offBlock : ∀ outPoint : OutPoint H, outPoint.txHash ∉ block.txHashes →
      (attached.detachBlock block).rebuiltCell calcDataHash outPoint = store.rebuiltCell calcDataHash outPoint :=
    fun outPoint own => rebuiltCell_congr
      (by rw [lookup_detachBlock_of_notMem own, same.transactionInfo, transactionInfo_attach,
        lookup_attachBlock_of_notMem own])
      same.blockBody
  have total : ∀ outPoint ∈ block.deadPts, ∀ found ∈ (attached.detachBlock block).getTransactionWithInfo outPoint.txHash,
      (found.1.outputWithData outPoint.index).isSome := by
    intro outPoint dead found lookup
    by_cases own : outPoint.txHash ∈ block.txHashes
    · simp [getTransactionWithInfo, getTransactionInfo, lookup_detachBlock_of_mem own] at lookup
    · rcases inputs outPoint dead with output | live
      · exact absurd (Block.txHash_mem_of_mem_outputPts output) own
      · obtain ⟨record, rebuilt, -⟩ := indexed.live live
        exact outputWithData_isSome_of_rebuiltCell ((offBlock outPoint own).trans rebuilt) lookup
  obtain ⟨restored, ran, members⟩ := detachBlockCell_eq total
  refine ⟨_, ran, ?_, rfl, same.blockBody⟩
  apply ext_slot
  intro outPoint
  change (((attached.detachBlock block).cells.insertCells restored).deleteCells block.outputPts).slot outPoint = _
  rw [slot_deleteCells]
  split_ifs with output
  · -- an output of the block: no live cell comes from the block's transactions
    exact (indexed.vacant fun live => foreign outPoint live (Block.txHash_mem_of_mem_outputPts output)).symm
  · have attachedSlot : (attached.detachBlock block).cells.slot outPoint =
        if outPoint ∈ block.deadPts then slotOf none else store.cells.slot outPoint := by
      rw [← slot_attach_of_not_output output]
      exact congrArg (slot · outPoint) same.cells
    by_cases dead : outPoint ∈ block.deadPts
    · -- a live cell the block spent comes back as the index rebuilds it
      have live := (inputs outPoint dead).resolve_left output
      obtain ⟨record, rebuilt, stored⟩ := indexed.live live
      have rebuilt' := (offBlock outPoint (foreign outPoint live)).trans rebuilt
      have agree : ∀ item ∈ restored, item.1 = outPoint → item.2 = record := fun item member same => by
        have found := ((members item).mp member).2
        rw [same, rebuilt'] at found
        exact (Option.some.inj found).symm
      have present : outPoint ∈ restored.map (·.1) :=
        List.mem_map.mpr ⟨(outPoint, record), (members _).mpr ⟨dead, rebuilt'⟩, rfl⟩
      rw [slot_insertCells _ agree, if_pos present, stored]
    · have absent : outPoint ∉ restored.map (·.1) := fun restoredKey => by
        obtain ⟨item, member, rfl⟩ := List.mem_map.mp restoredKey
        exact dead ((members item).mp member).1
      rw [slot_insertCells_of_notMem _ absent, attachedSlot, if_neg dead]

end Detach

/-! ### Runs -/

variable (calcDataHash) in
/-- A sequence of blocks attached one after the other, each attachable to the store before it. -/
inductive AttachRun : Store H → List (Block H) → Prop
  | nil (store : Store H) : AttachRun store []
  | cons {store : Store H} {block : Block H} {blocks : List (Block H)} :
    Attachable store block → AttachRun (attach calcDataHash store block) blocks → AttachRun store (block :: blocks)

theorem rollback_cons (store : Store H) (block : Block H) (blocks : List (Block H)) :
    rollback calcDataHash store (block :: blocks) =
      (rollback calcDataHash store blocks).bind fun store' => detach calcDataHash store' block := by
  simp [rollback, List.foldlM_append]

/-- Rolling back a run of attached blocks from any store that agrees with its end gives back the
start. -/
theorem rollback_attachRun {store : Store H} {blocks : List (Block H)} (indexed : CellsIndexed calcDataHash store)
    (run : AttachRun calcDataHash store blocks) {attached : Store H}
    (same : attached.SameCells (blocks.foldl (attach calcDataHash) store)) :
    ∃ store', rollback calcDataHash attached blocks = some store' ∧ store'.SameCells store := by
  induction run generalizing attached with
  | nil store => exact ⟨attached, rfl, same⟩
  | cons attachable rest ih =>
    rename_i store block blocks
    -- the later blocks come off first and leave a store that agrees with this block attached
    obtain ⟨detachedRest, rolled, sameRest⟩ := ih (indexed.attach attachable) same
    obtain ⟨store', detached, cells, infos, bodies⟩ :=
      detach_restores indexed attachable.inputs (attachable.foreign indexed) sameRest
    refine ⟨store', by rw [rollback_cons, rolled]; exact detached, ⟨cells, ?_, bodies⟩⟩
    rw [infos, transactionInfo_detachBlock_congr block sameRest.transactionInfo,
      transactionInfo_detachBlock_congr block transactionInfo_attach]
    exact transactionInfo_detachBlock_attachBlock attachable.fresh

variable (calcDataHash) in
theorem attach_then_detach_restores_cells :
    (∀ (store : Store H) (block : Block H), CellsIndexed calcDataHash store →
      (∀ outPoint ∈ block.deadPts, outPoint ∈ block.outputPts ∨ outPoint ∈ store.cells.cell) →
      (∀ outPoint ∈ store.cells.cell, outPoint.txHash ∉ block.txHashes) →
      ∃ store', detach calcDataHash (attach calcDataHash store block) block = some store' ∧
        store'.cells = store.cells) ∧
    ∀ (store : Store H) (detachedBlocks attachedBlocks : List (Block H)), CellsIndexed calcDataHash store →
      AttachRun calcDataHash store detachedBlocks →
      ∃ store', rollback calcDataHash (detachedBlocks.foldl (attach calcDataHash) store) detachedBlocks = some store' ∧
        store'.cells = store.cells ∧ store'.transactionInfo = store.transactionInfo ∧
        (attachedBlocks.foldl (attach calcDataHash) store').cells =
          (attachedBlocks.foldl (attach calcDataHash) store).cells := by
  constructor
  · intro store block indexed inputs foreign
    obtain ⟨store', detached, cells, -⟩ :=
      detach_restores indexed inputs foreign ⟨rfl, rfl, rfl⟩
    exact ⟨store', detached, cells⟩
  · intro store detachedBlocks attachedBlocks indexed run
    obtain ⟨store', rolled, same⟩ := rollback_attachRun indexed run ⟨rfl, rfl, rfl⟩
    exact ⟨store', rolled, same.cells, same.transactionInfo, cells_foldl_attach same.cells attachedBlocks⟩

/-! A genesis block with a cellbase of two outputs, then a block whose second transaction spends
a genesis cell and whose third spends the second's output. -/

def sampleOutput : CellOutput Nat := ⟨100, ⟨0, .data, []⟩, none⟩

def sampleGenesis : Block Nat where
  header := ⟨1, 0, 0, ⟨0⟩, 0, 0⟩
  uncles := []
  transactions := [⟨10, [], [], [⟨OutPoint.null, 0⟩], [sampleOutput, sampleOutput], [[1], []], [[]]⟩]
  proposals := []

def sampleBlock : Block Nat where
  header := ⟨2, 1, 1, ⟨0⟩, 0, 0⟩
  uncles := []
  transactions := [⟨20, [], [], [⟨OutPoint.null, 0⟩], [sampleOutput], [[]], [[]]⟩,
    ⟨30, [], [], [⟨⟨10, 0⟩, 0⟩], [sampleOutput], [[2]], [[]]⟩,
    ⟨40, [], [], [⟨⟨30, 0⟩, 0⟩], [], [], [[]]⟩]
  proposals := []

/-- The store after `ChainDB::init` attached the genesis, with the next block already inserted. -/
def sampleStore : Store Nat :=
  attach List.length (((({} : Store Nat).insertBlock sampleGenesis).insertBlock sampleBlock)) sampleGenesis

theorem sampleBlock_detach_restores :
    CellsIndexed List.length sampleStore ∧ AttachRun List.length sampleStore [sampleBlock] ∧
      (∃ store', detach List.length (attach List.length sampleStore sampleBlock) sampleBlock = some store' ∧
        store'.cells = sampleStore.cells) ∧
      ∃ store', rollback List.length ([sampleBlock].foldl (attach List.length) sampleStore) [sampleBlock] = some store' ∧
        store'.cells = sampleStore.cells ∧ store'.transactionInfo = sampleStore.transactionInfo ∧
        ([] : List (Block Nat)).foldl (attach List.length) store' = store' :=
  have indexed : CellsIndexed List.length sampleStore :=
    (cellsIndexed_of_cells_empty rfl).attach ⟨by decide, by decide, by decide, by decide⟩
  have attachable : Attachable sampleStore sampleBlock := ⟨by decide, by decide, by decide, by decide⟩
  have foreign : ∀ outPoint ∈ sampleStore.cells.cell, outPoint.txHash ∉ sampleBlock.txHashes :=
    attachable.foreign indexed
  have run : AttachRun List.length sampleStore [sampleBlock] := .cons attachable (.nil _)
  ⟨indexed, run, (attach_then_detach_restores_cells List.length).1 _ _ indexed attachable.inputs foreign,
    by
      obtain ⟨store', rolled, cells, infos, -⟩ :=
        (attach_then_detach_restores_cells List.length).2 _ [sampleBlock] [] indexed run
      exact ⟨store', rolled, cells, infos, rfl⟩⟩

end Ckb
