import Ckb.Chain.ReconcileSpec

/-!
Which columns each write of the chain service leaves alone. `get_block` reads four columns that
only `insert_block` writes; the main-chain index is written by `attach_block` and `detach_block`
only, one number each.
-/

namespace Ckb

open MountainRange

variable {H : Type} [DecidableEq H]

namespace Store

/-- Two stores with the same columns for what `get_block` reads. -/
structure SameBlocks (store store' : Store H) : Prop where
  blockHeader : store.blockHeader = store'.blockHeader
  blockUncle : store.blockUncle = store'.blockUncle
  blockProposalIds : store.blockProposalIds = store'.blockProposalIds
  blockBody : store.blockBody = store'.blockBody

namespace SameBlocks

theorem refl (store : Store H) : SameBlocks store store := ⟨rfl, rfl, rfl, rfl⟩

theorem trans {store store' store'' : Store H} (first : SameBlocks store store') (second : SameBlocks store' store'') :
    SameBlocks store store'' :=
  ⟨first.blockHeader.trans second.blockHeader, first.blockUncle.trans second.blockUncle,
    first.blockProposalIds.trans second.blockProposalIds, first.blockBody.trans second.blockBody⟩

theorem getBlock {store store' : Store H} (same : SameBlocks store store') (hash : H) :
    store.getBlock hash = store'.getBlock hash := by
  simp [Store.getBlock, getBlockHeader, getBlockBody, same.blockHeader, same.blockUncle, same.blockProposalIds,
    same.blockBody]

end SameBlocks

theorem lookup_blockBody_insertBlock (store : Store H) (block : Block H) (key : H × Nat) :
    (store.insertBlock block).blockBody.lookup key =
      if key.1 = block.hash ∧ key.2 < block.transactions.length then block.transactions[key.2]?
      else store.blockBody.lookup key := by
  have keys : key ∈ block.transactions.zipIdx.map (fun entry => (block.hash, entry.2)) ↔
      key.1 = block.hash ∧ key.2 < block.transactions.length := by
    obtain ⟨hash, index⟩ := key
    simp only [List.mem_map, List.mem_zipIdx_iff_getElem?, Prod.mk.injEq, Prod.exists]
    constructor
    · intro found
      obtain ⟨tx, position, stored, rfl, rfl⟩ := found
      exact ⟨rfl, (List.getElem?_eq_some_iff.mp stored).1⟩
    · intro found
      exact ⟨_, index, List.getElem?_eq_getElem found.2, found.1.symm, rfl⟩
  unfold insertBlock
  simp only
  split_ifs with own
  · rw [FiniteMap.lookup_foldl_insert _ _ _ _ (v := block.transactions[key.2]) fun entry member same => ?_,
      if_pos (keys.mpr own), List.getElem?_eq_getElem own.2]
    rw [List.mem_zipIdx_iff_getElem?, congrArg Prod.snd same] at member
    exact Option.some.inj (member.symm.trans (List.getElem?_eq_getElem own.2))
  · exact FiniteMap.lookup_foldl_insert_of_notMem _ _ _ _ fun inserted => own (keys.mp inserted)

omit [DecidableEq H] in
theorem lookup_foldl_erase_number (blocks : List (Block H)) (index : FiniteMap Nat H) (n : Nat) :
    (blocks.foldl (fun index block => index.erase block.number) index).lookup n =
      if n ∈ blocks.map Block.number then none else index.lookup n := by
  rw [← FiniteMap.lookup_foldl_erase, List.foldl_map]

end Store

open Store

section Stored

variable [LinearOrder H]

theorem getBlockBody_eq {store : Store H} {hash : H} {txs : List (TransactionView H)}
    (keys : ∀ key ∈ store.blockBody, key.1 = hash → key.2 < txs.length)
    (lookups : ∀ index < txs.length, store.blockBody.lookup (hash, index) = txs[index]?) :
    store.getBlockBody hash = txs := by
  have indexes : sortedElems ((store.blockBody.keys.filter (·.1 = hash)).image (·.2)) = List.range txs.length := by
    refine sortedElems_eq List.pairwise_lt_range fun index => ?_
    simp only [List.mem_range, Finset.mem_image, Finset.mem_filter, Finmap.mem_keys]
    constructor
    · intro lt
      have found := lookups index lt
      rw [List.getElem?_eq_getElem lt] at found
      exact ⟨(hash, index), ⟨Finmap.mem_of_lookup_eq_some found, rfl⟩, rfl⟩
    · intro found
      obtain ⟨key, ⟨member, first⟩, second⟩ := found
      rw [← second]
      exact keys key member first
  rw [getBlockBody, indexes, List.filterMap_congr fun index member => lookups index (List.mem_range.mp member)]
  exact filterMap_range_getElem? txs

/-- `insert_block` has stored each block of the list, and the body column holds nothing else. -/
structure BlocksStored (blocks : List (Block H)) (store : Store H) : Prop where
  header : ∀ block ∈ blocks, store.blockHeader.lookup block.hash = some block.header
  uncles : ∀ block ∈ blocks, store.blockUncle.lookup block.hash = some block.uncles
  proposals : ∀ block ∈ blocks, store.blockProposalIds.lookup block.hash = some block.proposals
  body : ∀ block ∈ blocks, ∀ index < block.transactions.length,
    store.blockBody.lookup (block.hash, index) = block.transactions[index]?
  bodyFrom : ∀ key ∈ store.blockBody, ∃ block ∈ blocks, block.hash = key.1 ∧ key.2 < block.transactions.length

namespace BlocksStored

variable {blocks : List (Block H)} {store : Store H} (stored : BlocksStored blocks store)
include stored

omit [LinearOrder H] in
theorem congr {store' : Store H} (same : SameBlocks store' store) : BlocksStored blocks store' := by
  obtain ⟨header, uncles, proposals, body, bodyFrom⟩ := stored
  rw [← same.blockHeader] at header
  rw [← same.blockUncle] at uncles
  rw [← same.blockProposalIds] at proposals
  rw [← same.blockBody] at body bodyFrom
  exact ⟨header, uncles, proposals, body, bodyFrom⟩

theorem getBlockBody (unique : ∀ a ∈ blocks, ∀ b ∈ blocks, a.hash = b.hash → a = b) {block : Block H}
    (mem : block ∈ blocks) : store.getBlockBody block.hash = block.transactions := by
  refine getBlockBody_eq (fun key member first => ?_) (stored.body block mem)
  obtain ⟨other, otherMem, same, lt⟩ := stored.bodyFrom key member
  rwa [unique other otherMem block mem (same.trans first)] at lt

theorem getBlock (unique : ∀ a ∈ blocks, ∀ b ∈ blocks, a.hash = b.hash → a = b) {block : Block H}
    (mem : block ∈ blocks) : store.getBlock block.hash = some (some block) := by
  simp [Store.getBlock, getBlockHeader, stored.header block mem, stored.uncles block mem,
    stored.proposals block mem, stored.getBlockBody unique mem]

omit [LinearOrder H] in
theorem insertBlock {block : Block H} (fresh : ∀ other ∈ blocks, other.hash = block.hash → other = block) :
    BlocksStored (blocks ++ [block]) (store.insertBlock block) := by
  have cases : ∀ other ∈ blocks ++ [block], other.hash = block.hash → other = block := fun other member same => by
    rcases List.mem_append.mp member with old | new
    · exact fresh other old same
    · exact List.mem_singleton.mp new
  have old : ∀ other ∈ blocks ++ [block], other.hash ≠ block.hash → other ∈ blocks := fun other member differs => by
    rcases List.mem_append.mp member with old | new
    · exact old
    · exact absurd (congrArg Block.hash (List.mem_singleton.mp new)) differs
  -- a column written under the new block's hash keeps every other block's entry
  have column : ∀ {V : Type} (entries : FiniteMap H V) (get : Block H → V),
      (∀ other ∈ blocks, entries.lookup other.hash = some (get other)) →
      ∀ other ∈ blocks ++ [block], (entries.insert block.hash (get block)).lookup other.hash = some (get other) := by
    intro V entries get was other member
    by_cases same : other.hash = block.hash
    · rw [cases other member same, Finmap.lookup_insert]
    · rw [Finmap.lookup_insert_of_ne _ same, was other (old other member same)]
  refine ⟨column _ Block.header stored.header, column _ Block.uncles stored.uncles,
    column _ Block.proposals stored.proposals, fun other member index lt => ?_, fun key member => ?_⟩
  · rw [lookup_blockBody_insertBlock]
    by_cases same : other.hash = block.hash
    · rw [cases other member same] at lt ⊢
      rw [if_pos ⟨rfl, lt⟩]
    · rw [if_neg fun own => same own.1]
      exact stored.body other (old other member same) index lt
  · have found := Finmap.mem_iff.mp member
    obtain ⟨tx, lookedUp⟩ := found
    rw [lookup_blockBody_insertBlock] at lookedUp
    split_ifs at lookedUp with own
    · exact ⟨block, List.mem_append_right _ (List.mem_singleton_self block), own.1.symm, own.2⟩
    · obtain ⟨other, otherMem, same, lt⟩ := stored.bodyFrom key (Finmap.mem_of_lookup_eq_some lookedUp)
      exact ⟨other, List.mem_append_left _ otherMem, same, lt⟩

end BlocksStored

end Stored

variable (calcDataHash : List UInt8 → H)

theorem sameBlocks_foldl_attach (blocks : List (Block H)) (store : Store H) :
    SameBlocks (blocks.foldl (attach calcDataHash) store) store := by
  induction blocks generalizing store with
  | nil => exact .refl store
  | cons block rest ih => exact (ih _).trans ⟨rfl, rfl, rfl, rfl⟩

theorem indexByNumber_foldl_attach (blocks : List (Block H)) (store : Store H) :
    (blocks.foldl (attach calcDataHash) store).indexByNumber =
      blocks.foldl (fun index block => index.insert block.number block.hash) store.indexByNumber := by
  induction blocks generalizing store with
  | nil => rfl
  | cons block rest ih => exact ih _

theorem chainRootMMR_foldl_attach (blocks : List (Block H)) (store : Store H) :
    (blocks.foldl (attach calcDataHash) store).chainRootMMR = store.chainRootMMR := by
  induction blocks generalizing store with
  | nil => rfl
  | cons block rest ih => exact ih _

/-- What a detach leaves alone, and the number it drops from the index. -/
structure DetachFrame (store' store : Store H) (blocks : List (Block H)) : Prop where
  sameBlocks : SameBlocks store' store
  blockExt : store'.blockExt = store.blockExt
  tipHash : store'.tipHash = store.tipHash
  chainRootMMR : store'.chainRootMMR = store.chainRootMMR
  indexByNumber : store'.indexByNumber = blocks.foldl (fun index block => index.erase block.number) store.indexByNumber

variable {calcDataHash} [LinearOrder H]

theorem detach_frame {store store' : Store H} {block : Block H} (detached : detach calcDataHash store block = some store') :
    DetachFrame store' store [block] := by
  simp only [detach, detachBlockCell, Option.bind_eq_bind, Option.bind_eq_some_iff, Option.pure_def,
    Option.some.injEq] at detached
  obtain ⟨_, _, rfl⟩ := detached
  exact ⟨⟨rfl, rfl, rfl, rfl⟩, rfl, rfl, rfl, rfl⟩

theorem rollback_frame {store store' : Store H} {blocks : List (Block H)}
    (rolled : rollback calcDataHash store blocks = some store') : DetachFrame store' store blocks.reverse := by
  unfold rollback at rolled
  generalize blocks.reverse = detached at rolled ⊢
  induction detached generalizing store with
  | nil =>
    cases rolled
    exact ⟨.refl _, rfl, rfl, rfl, rfl⟩
  | cons block rest ih =>
    rw [List.foldlM_cons] at rolled
    cases first : detach calcDataHash store block with
    | none => simp [first] at rolled
    | some middle =>
      rw [first] at rolled
      have step := detach_frame first
      have later := ih rolled
      exact ⟨later.sameBlocks.trans step.sameBlocks, later.blockExt.trans step.blockExt, later.tipHash.trans step.tipHash,
        later.chainRootMMR.trans step.chainRootMMR, by rw [later.indexByNumber, step.indexByNumber]; rfl⟩

end Ckb
