import Ckb.Support.FiniteMap

/-!
The orphan block pool of the chain service (`chain/src/utils/orphan_block_pool.rs`): blocks that
arrived before their parent, grouped by parent hash in `blocks`, with `parents` giving the parent
of each block in the pool and `leaders` the parents outside the pool that have a child in it.
When a leader is stored, `remove_blocks_by_parent` takes its whole subtree out of the pool,
breadth first from the leader; `clean_expired_blocks` does so for every leader whose first child
is more than `EXPIRED_EPOCH` epochs old.

The hash maps are finite maps, iterated in increasing key order. The `while let` loop of
`remove_blocks_by_parent` runs on fuel of one turn for each block in the pool and one for the
leader, all the turns it can take. Epoch numbers are those of `EpochNumberWithFraction`, below
`2 ^ 24`, so `epoch_number + EXPIRED_EPOCH` does not overflow.
-/

namespace Ckb.Chain

def expiredEpoch : Nat := 6

/-- The fields of `LonelyBlockHash` the pool reads. -/
structure LonelyBlockHash (H : Type) where
  hash : H
  parentHash : H
  epochNumber : Nat
deriving DecidableEq, Repr

structure InnerPool (H : Type) where
  blocks : FiniteMap H (FiniteMap H (LonelyBlockHash H))
  parents : FiniteMap H H
  leaders : Finset H

namespace InnerPool

variable {H : Type} [LinearOrder H]

def empty : InnerPool H := ⟨∅, ∅, ∅⟩

/-- `insert`: the block is filed under its parent, stops being a leader, and makes its parent a
leader when the parent is not in the pool. -/
def insert (pool : InnerPool H) (lonelyBlock : LonelyBlockHash H) : InnerPool H :=
  let hash := lonelyBlock.hash
  let parentHash := lonelyBlock.parentHash
  let siblings := (pool.blocks.lookup parentHash).getD ∅
  let blocks := pool.blocks.insert parentHash (siblings.insert hash lonelyBlock)
  -- out-of-order insertion needs to be deduplicated
  let leaders := pool.leaders.erase hash
  let leaders := if parentHash ∈ pool.parents then leaders else Insert.insert parentHash leaders
  { blocks, parents := pool.parents.insert hash parentHash, leaders }

/-- The `while let` loop of `remove_blocks_by_parent`: pop a parent hash, take its children out of
the pool, and queue their hashes. -/
def removeLoop : Nat → List H → InnerPool H → List (LonelyBlockHash H) → InnerPool H × List (LonelyBlockHash H)
  | 0, _, pool, removed => (pool, removed)
  | _ + 1, [], pool, removed => (pool, removed)
  | fuel + 1, parentHash :: queue, pool, removed =>
    match pool.blocks.lookup parentHash with
    | none => removeLoop fuel queue pool removed
    | some orphaned =>
      -- `orphaned.into_iter().unzip()`
      let hashes := sortedElems orphaned.keys
      let blocks := hashes.filterMap orphaned.lookup
      let pool := { pool with
        blocks := pool.blocks.erase parentHash
        parents := hashes.foldl (fun parents hash => parents.erase hash) pool.parents }
      removeLoop fuel (queue ++ hashes) pool (removed ++ blocks)

/-- The number of blocks filed in the pool, the turns the loop of `remove_blocks_by_parent` can
take besides the first. -/
def filedCount (pool : InnerPool H) : Nat := pool.blocks.sumBy fun children => children.keys.card

/-- `remove_blocks_by_parent`: nothing unless the hash is a leader; then its subtree, breadth
first. -/
def removeBlocksByParent (pool : InnerPool H) (parentHash : H) : InnerPool H × List (LonelyBlockHash H) :=
  if parentHash ∈ pool.leaders then
    removeLoop (pool.filedCount + 1) [parentHash] { pool with leaders := pool.leaders.erase parentHash } []
  else (pool, [])

def getBlock (pool : InnerPool H) (hash : H) : Option (LonelyBlockHash H) :=
  (pool.parents.lookup hash).bind fun parentHash => (pool.blocks.lookup parentHash).bind (·.lookup hash)

/-- `need_clean`: the first child of the parent is more than `EXPIRED_EPOCH` epochs before the tip. -/
def needClean (pool : InnerPool H) (parentHash : H) (tipEpoch : Nat) : Bool :=
  match pool.blocks.lookup parentHash with
  | none => false
  | some children =>
    match (sortedElems children.keys).head? >>= children.lookup with
    | some lonelyBlock => lonelyBlock.epochNumber + expiredEpoch < tipEpoch
    | none => false

/-- One turn of the loop of `clean_expired_blocks`. -/
def cleanLeader (tipEpoch : Nat) (state : InnerPool H × List (LonelyBlockHash H)) (hash : H) :
    InnerPool H × List (LonelyBlockHash H) :=
  let (pool, result) := state
  if pool.needClean hash tipEpoch then
    -- remove items in orphan pool and return hash to callee (clean header map)
    let (pool, descendants) := pool.removeBlocksByParent hash
    (pool, result ++ descendants)
  else (pool, result)

/-- `clean_expired_blocks`: over a copy of the leaders, the subtree of each one that needs
cleaning. -/
def cleanExpiredBlocks (pool : InnerPool H) (tipEpoch : Nat) : InnerPool H × List (LonelyBlockHash H) :=
  (sortedElems pool.leaders).foldl (cleanLeader tipEpoch) (pool, [])

/-- `len`: the blocks in the pool. -/
def len (pool : InnerPool H) : Nat := pool.parents.keys.card

def cloneLeaders (pool : InnerPool H) : List H := sortedElems pool.leaders

variable (parentOf : H → H)

/-- The calls that change the pool. A block hash commits to the parent hash, so the parent of an
inserted block is `parentOf` of its hash, and no block is its own parent. -/
inductive Step : InnerPool H → InnerPool H → Prop
  | insert (pool : InnerPool H) (lonelyBlock : LonelyBlockHash H) (linked : lonelyBlock.parentHash = parentOf lonelyBlock.hash)
      (notOwnParent : lonelyBlock.parentHash ≠ lonelyBlock.hash) : Step pool (pool.insert lonelyBlock)
  | removeBlocksByParent (pool : InnerPool H) (parentHash : H) : Step pool (pool.removeBlocksByParent parentHash).1
  | cleanExpiredBlocks (pool : InnerPool H) (tipEpoch : Nat) : Step pool (pool.cleanExpiredBlocks tipEpoch).1

def Reachable (pool : InnerPool H) : Prop := Relation.ReflTransGen (Step parentOf) empty pool

end InnerPool

end Ckb.Chain
