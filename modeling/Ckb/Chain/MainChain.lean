import Ckb.Chain.Verify
import Ckb.Support.BlockTree

/-!
What the chain service is for, over the blocks it has received: the main chain is the chain of the
earliest-received block of maximal total difficulty, the total difficulty of a block sums the
header difficulties along its chain, and the live cells of a chain are the outputs created on it and
not spent on it. A run is a sequence of blocks each received after its parent, valid on its
parent's chain, and processed by `insert_block` and `verify_block` from the genesis state.
-/

namespace Ckb

variable {H : Type}

instance : Linked (Block H) H := ⟨Block.hash, Block.parentHash, Block.number⟩

@[simp] theorem linked_hash (block : Block H) : Linked.hash block = block.hash := rfl

@[simp] theorem linked_parentHash (block : Block H) : Linked.parentHash block = block.parentHash := rfl

@[simp] theorem linked_number (block : Block H) : Linked.number block = block.number := rfl

variable [DecidableEq H]

/-- The sum of the header difficulties along the chain of a block. -/
def totalDifficultyOf (blocks : List (Block H)) (block : Block H) : Nat :=
  Linked.weight (fun block => block.header.difficulty) blocks block

/-- An out point created on a chain and spent by no non-cellbase input on it. -/
def LiveOn (chain : List (Block H)) (outPoint : OutPoint H) : Prop :=
  (∃ block ∈ chain, outPoint ∈ block.outputPts) ∧ ∀ block ∈ chain, outPoint ∉ block.deadPts

instance (chain : List (Block H)) (outPoint : OutPoint H) : Decidable (LiveOn chain outPoint) :=
  inferInstanceAs (Decidable ((∃ block ∈ chain, outPoint ∈ block.outputPts) ∧ ∀ block ∈ chain, outPoint ∉ block.deadPts))

/-- What verification of a block on the chain of its ancestors guarantees of its transactions: each
input spends a live cell or an output of the block, the hashes are new to the chain and distinct,
and every output has its data. -/
structure ValidOn (ancestors : List (Block H)) (block : Block H) : Prop where
  inputs : ∀ outPoint ∈ block.deadPts, outPoint ∈ block.outputPts ∨ LiveOn ancestors outPoint
  fresh : ∀ ancestor ∈ ancestors, ∀ txHash ∈ block.txHashes, txHash ∉ ancestor.txHashes
  distinct : block.txHashes.Nodup
  outputsData : ∀ tx ∈ block.transactions, tx.outputsData.length = tx.outputs.length

/-- Contextual verification never fails: it is switched off, or accepts every block. -/
def Passes (ctx : ChainContext H) (switch : Switch) : Prop :=
  switch.disableAll = true ∨ ∀ store session block, (ctx.contextualVerify store session block).isSome

variable [LinearOrder H]

/-- The runs of the chain service: the genesis state, then blocks whose parent was received
before, valid on the parent's chain, and with a hash no other received block has. -/
inductive Processed (ctx : ChainContext H) (switch : Switch) : List (Block H) → ChainState H → Prop
  | genesis {genesis : Block H} : genesis.number = 0 → ValidOn [] genesis →
    Processed ctx switch [genesis] (initChain ctx genesis)
  | block {blocks : List (Block H)} {chain chain' : ChainState H} {block parent : Block H} :
    Processed ctx switch blocks chain → parent ∈ blocks → parent.hash = block.parentHash →
    block.number = parent.number + 1 → (∀ other ∈ blocks, other.hash = block.hash → other = block) →
    ValidOn (Linked.chain blocks parent) block → processBlock ctx switch chain block = some chain' →
    Processed ctx switch (blocks ++ [block]) chain'

end Ckb
