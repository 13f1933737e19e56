import Ckb.Store.Cell
import Ckb.Support.MountainRange
import Ckb.Chain.ProposalTable
import Ckb.Types.Difficulty

/-!
`ConsumeUnverifiedBlockProcessor::verify_block` (`ckb-chain/src/verify.rs`): a block whose parent is
stored becomes the tip when its total difficulty is strictly greater than the tip's. `find_fork`
walks back from it to the main chain, `rollback` detaches the old branch, and
`reconcile_main_chain` attaches the new one inside one store transaction, verifying only the blocks
not verified before and pushing every attached block's digest to the chain root MMR. An error drops
the transaction: the state is then the one before the call.

`find_fork` reads the committed store, the rest the transaction; both are the store before the call
here, as nothing is written before `find_fork` returns. The loops of `find_fork` are given the
block number of their index as fuel, which their own exits never exceed. Contextual verification
(`resolve_block_transactions` and `ContextualBlockVerifier::verify`) is a parameter returning the
fees of the block's transactions or a failure.
-/

namespace Ckb

open MountainRange

/-- The flag of `Switch` the modelled code reads. -/
structure Switch where
  disableAll : Bool
deriving DecidableEq, Repr

inductive ChainError where
  | parentExtNotFound
  | previouslyVerifiedFailed
  | invalidParent
  | verifyFailed
deriving DecidableEq, Repr

structure ForkChanges (H : Type) where
  attachedBlocks : List (Block H) := []
  detachedBlocks : List (Block H) := []
  dirtyExts : List BlockExt := []

namespace ForkChanges

variable {H : Type}

def hasDetached (fork : ForkChanges H) : Bool := !fork.detachedBlocks.isEmpty

def verifiedLen (fork : ForkChanges H) : Nat := fork.attachedBlocks.length - fork.dirtyExts.length

end ForkChanges

/-- The walk of `find_fork`: a number, the hash of the new branch's block at it, and whether every
block seen so far was unverified. -/
structure GlobalIndex (H : Type) where
  number : Nat
  hash : H
  unseen : Bool

def GlobalIndex.forward {H : Type} (index : GlobalIndex H) (hash : H) : GlobalIndex H :=
  { index with number := index.number - 1, hash := hash }

/-- What the chain service reads besides the store and its snapshot. -/
structure ChainContext (H : Type) where
  calcDataHash : List UInt8 → H
  consensus : Consensus
  chainRootMMR : MountainRange (HeaderDigest H)
  contextualVerify : Store H → Session (HeaderDigest H) → Block H → Option (List Nat)

/-- The store and the snapshot of the tip that `verify_block` reads and replaces. -/
structure ChainState (H : Type) where
  store : Store H
  tipHeader : Header H
  totalDifficulty : Nat
  proposalTable : ProposalTable
  proposals : ProposalView

def Block.digest {H : Type} (block : Block H) : HeaderDigest H := block.header.digest

def leafIndexToMmrSize {D : Type} (mmr : MountainRange D) (index : Nat) : Nat := mmr.sizeAfter (index + 1)

variable {H : Type} [DecidableEq H]

/-- `ChainRootMMR::commit`: the session's nodes written at their positions. -/
def commitSession (store : Store H) (session : Session (HeaderDigest H)) : Store H :=
  session.batch.zipIdx.foldl (fun store entry => store.insertHeaderDigest (session.start + entry.2) entry.1) store

/-- The step both loops of `find_fork` make while every block seen is unverified: the ext of the
index's block joins the dirty exts, or the walk notes a verified block. -/
def takeDirtyExt (store : Store H) (fork : ForkChanges H) (index : GlobalIndex H) :
    Option (ForkChanges H × GlobalIndex H) :=
  if index.unseen then do
    let ext ← store.getBlockExt index.hash
    if ext.verified.isNone then pure ({ fork with dirtyExts := ext :: fork.dirtyExts }, index)
    else pure (fork, { index with unseen := false })
  else pure (fork, index)

/-- The `while index.number > current_tip_number` loop of `alignment_fork`. -/
def alignAttached (store : Store H) (currentTipNumber : Nat) :
    Nat → ForkChanges H → GlobalIndex H → Option (ForkChanges H × GlobalIndex H)
  | 0, fork, index => pure (fork, index)
  | fuel + 1, fork, index =>
    if index.number > currentTipNumber then do
      let (fork, index) ← takeDirtyExt store fork index
      let newBlock ← (← store.getBlock index.hash)
      alignAttached store currentTipNumber fuel { fork with attachedBlocks := newBlock :: fork.attachedBlocks }
        (index.forward newBlock.parentHash)
    else pure (fork, index)

def alignmentFork (store : Store H) (fork : ForkChanges H) (index : GlobalIndex H)
    (newTipNumber currentTipNumber : Nat) : Option (ForkChanges H × GlobalIndex H) :=
  if newTipNumber ≤ currentTipNumber then do
    let oldBlocks ← (List.range' newTipNumber (currentTipNumber + 1 - newTipNumber)).mapM fun bn => do
      let hash ← store.getBlockHash bn
      store.getBlock hash
    let oldBlocks ← oldBlocks.mapM id
    pure ({ fork with detachedBlocks := fork.detachedBlocks ++ oldBlocks }, index)
  else alignAttached store currentTipNumber index.number fork index

def findForkUntilLatestCommon (store : Store H) :
    Nat → ForkChanges H → GlobalIndex H → Option (ForkChanges H × GlobalIndex H)
  | 0, fork, index => pure (fork, index)
  | fuel + 1, fork, index =>
    if index.number = 0 then pure (fork, index) else do
      let detachedHash ← store.getBlockHash index.number
      if detachedHash = index.hash then pure (fork, index) else do
        let detachedBlock ← (← store.getBlock detachedHash)
        let (fork, index) ← takeDirtyExt store { fork with detachedBlocks := detachedBlock :: fork.detachedBlocks } index
        let attachedBlock ← (← store.getBlock index.hash)
        findForkUntilLatestCommon store fuel { fork with attachedBlocks := attachedBlock :: fork.attachedBlocks }
          (index.forward attachedBlock.parentHash)

def findFork (store : Store H) (fork : ForkChanges H) (currentTipNumber : Nat) (newTipBlock : Block H)
    (newTipExt : BlockExt) : Option (ForkChanges H) := do
  let fork := { fork with dirtyExts := newTipExt :: fork.dirtyExts, attachedBlocks := newTipBlock :: fork.attachedBlocks }
  let index : GlobalIndex H := ⟨newTipBlock.number - 1, newTipBlock.parentHash, true⟩
  let (fork, index) ← alignmentFork store fork index newTipBlock.number currentTipNumber
  let (fork, _) ← findForkUntilLatestCommon store index.number fork index
  pure fork

/-- `insert_ok_ext`; the fees are those of the verifier's cache entries, when it ran. -/
def insertOkExt (store : Store H) (hash : H) (ext : BlockExt) (txsFees : Option (List Nat)) : Store H :=
  store.insertBlockExt hash { ext with verified := some true, txsFees := txsFees.getD ext.txsFees }

def insertFailureExt (store : Store H) (hash : H) (ext : BlockExt) : Store H :=
  store.insertBlockExt hash { ext with verified := some false }

variable [LinearOrder H] (ctx : ChainContext H)

/-- Attach a block and push its digest, as both loops of `reconcile_main_chain` do. -/
def attachAndPush (state : Store H × Session (HeaderDigest H)) (block : Block H) :
    Store H × Session (HeaderDigest H) :=
  (attach ctx.calcDataHash state.1 block, state.2.push ctx.chainRootMMR state.1.getHeaderDigest block.digest)

/-- One round of the loop over the dirty exts: the store, the session and whether a block failed. -/
def reconcileDirty (switch : Switch) (state : Store H × Session (HeaderDigest H) × Bool)
    (entry : BlockExt × Block H) : Store H × Session (HeaderDigest H) × Bool :=
  let (store, session, foundError) := state
  let (ext, block) := entry
  if !switch.disableAll then
    if !foundError then
      match ctx.contextualVerify store session block with
      | some txsFees =>
        let (store, session) := attachAndPush ctx (store, session) block
        (insertOkExt store block.hash ext (some txsFees), session, false)
      | none => (insertFailureExt store block.hash ext, session, true)
    else (insertFailureExt store block.hash ext, session, true)
  else
    let (store, session) := attachAndPush ctx (store, session) block
    (insertOkExt store block.hash ext none, session, foundError)

def reconcileMainChain (switch : Switch) (store : Store H) (fork : ForkChanges H) : Except ChainError (Store H) :=
  match fork.attachedBlocks with
  | [] => .ok store
  | startBlock :: _ =>
    let mmrSize := leafIndexToMmrSize ctx.chainRootMMR (startBlock.number - 1)
    let verifiedLen := fork.verifiedLen
    let verified := (fork.attachedBlocks.take verifiedLen).foldl (attachAndPush ctx) (store, ⟨mmrSize, []⟩)
    let (store, session, foundError) := (fork.dirtyExts.zip (fork.attachedBlocks.drop verifiedLen)).foldl
      (reconcileDirty ctx switch) (verified.1, verified.2, false)
    if foundError then .error .verifyFailed else .ok (commitSession store session)

/-- `reload_proposal_table`: after a rollback, the numbers from the window of the new tip's child
down to the common ancestor are read back from the main chain. -/
def reloadProposalTable (store : Store H) (fork : ForkChanges H) (proposalTable : ProposalTable) :
    Option ProposalTable :=
  if fork.hasDetached then do
    let detachedFront ← fork.detachedBlocks.head?.map (·.number)
    if detachedFront < 2 then pure proposalTable else
      let common := detachedFront - 1
      let newTip := (fork.attachedBlocks.getLast?.map (·.number)).getD common
      let proposalStart := max 1 (newTip + 1 - ctx.consensus.txProposalWindow.farthest)
      (List.range' proposalStart (common + 1 - proposalStart)).foldlM (fun proposalTable bn => do
        let hash ← store.getBlockHash bn
        let blk ← (← store.getBlock hash)
        pure (proposalTable.insert bn blk.unionProposalIds.toFinset)) proposalTable
  else pure proposalTable

def updateProposalTable (store : Store H) (fork : ForkChanges H) (proposalTable : ProposalTable) :
    Option ProposalTable :=
  let proposalTable := fork.detachedBlocks.foldl (fun table blk => table.remove blk.number) proposalTable
  let proposalTable := fork.attachedBlocks.foldl (fun table blk => table.insert blk.number blk.unionProposalIds.toFinset)
    proposalTable
  reloadProposalTable ctx store fork proposalTable

/-- `verify_block` of a block stored by `insert_block`; `true` when the block was not verified
before. The status map of invalid blocks and the epoch columns are left out. -/
def verifyBlock (switch : Switch) (chain : ChainState H) (block : Block H) :
    Option (Except ChainError (ChainState H × Bool)) :=
  match chain.store.getBlockExt block.parentHash with
  | none => pure (.error .parentExtNotFound)
  | some parentExt =>
    match (chain.store.getBlockExt block.hash).bind (·.verified) with
    | some verified => pure (if verified then .ok (chain, false) else .error .previouslyVerifiedFailed)
    | none =>
      let cannonTotalDifficulty := parentExt.totalDifficulty + block.header.difficulty
      if parentExt.verified = some false then pure (.error .invalidParent) else do
        let totalUnclesCount ← checkedAdd parentExt.totalUnclesCount block.uncles.length
        let ext : BlockExt := ⟨cannonTotalDifficulty, totalUnclesCount, none, []⟩
        if cannonTotalDifficulty > chain.totalDifficulty then do
          let fork ← findFork chain.store {} chain.tipHeader.number block ext
          let store ← rollback ctx.calcDataHash chain.store fork.detachedBlocks
          match reconcileMainChain ctx switch store fork with
          | .error err => pure (.error err)
          | .ok store =>
            let store := store.insertTipHeader block.header
            let proposalTable ← updateProposalTable ctx store fork chain.proposalTable
            let (proposalTable, _, proposals) := proposalTable.finalize chain.proposals block.number
            pure (.ok (⟨store, block.header, cannonTotalDifficulty, proposalTable, proposals⟩, true))
        else pure (.ok ({ chain with store := chain.store.insertBlockExt block.hash ext }, true))

/-- `ChainService::insert_block` and then `verify_block`: the block is stored first, and an error
leaves the store with the block in it. -/
def processBlock (switch : Switch) (chain : ChainState H) (block : Block H) : Option (ChainState H) :=
  let chain := { chain with store := chain.store.insertBlock block }
  (verifyBlock ctx switch chain block).map fun result =>
    match result with
    | .ok (chain, _) => chain
    | .error _ => chain

/-- `init_proposal_table` of `SharedBuilder`: the main chain's proposals from the window before the
tip, finalized against an empty view. -/
def initProposalTable (store : Store H) (tipNumber : Nat) : ProposalTable × ProposalView :=
  let proposalWindow := ctx.consensus.txProposalWindow
  let proposalStart := tipNumber - proposalWindow.farthest
  let proposalIds := (List.range' proposalStart (tipNumber + 1 - proposalStart)).foldl (fun table bn =>
    match store.getBlockHash bn with
    | none => table
    | some hash =>
      let ids := ((store.blockProposalIds.lookup hash).getD []).toFinset
      let uncleIds := (((store.blockUncle.lookup hash).getD []).flatMap (·.proposals)).toFinset
      table.insert bn (ids ∪ uncleIds)) (ProposalTable.new proposalWindow)
  let (proposalIds, _, proposals) := proposalIds.finalize {} tipNumber
  (proposalIds, proposals)

/-- `ChainDB::init` on an empty store, then the snapshot `SharedBuilder` builds over it. -/
def initChain (genesis : Block H) : ChainState H :=
  let ext : BlockExt := ⟨genesis.header.difficulty, 0, some true, []⟩
  let store := attachBlockCell ctx.calcDataHash ({} : Store H) genesis
  let store := ((store.insertBlock genesis).insertBlockExt genesis.hash ext).insertTipHeader genesis.header
  let store := store.attachBlock genesis
  let session : Session (HeaderDigest H) := (⟨0, []⟩ : Session _).push ctx.chainRootMMR store.getHeaderDigest genesis.digest
  let store := commitSession store session
  let (proposalTable, proposals) := initProposalTable ctx store genesis.number
  ⟨store, genesis.header, genesis.header.difficulty, proposalTable, proposals⟩

end Ckb
