import Ckb.Store.Transaction
import Ckb.Types.Extras

/-!
The uncle rule (`UnclesVerifier` of `ckb-verification-contextual`). The comment above the verifier
states it: a block B1 is an uncle of a block B2 when they are in the same epoch, sharing the same
difficulty; B2 is higher; B1's parent is an ancestor of B2 or embedded in B2 or its ancestors as an
uncle; and B2 is the first block of its chain to refer to B1. `verify` checks the number of uncles,
then each uncle in turn against an `UncleProvider` and against `included`, the uncles of B2 already
accepted. `UncleVerifierContext` is the provider contextual block verification uses: it answers
from the chain store's index by hash and its uncle index.
-/

namespace Ckb

inductive UnclesError (H : Type) where
  | overCount (max actual : Nat)
  | invalidTarget
  | invalidDifficultyEpoch
  | invalidNumber
  | descendantLimit
  | duplicate (hash : H)
  | doubleInclusion (hash : H)
  | exceededMaximumProposalsLimit
  | proposalsHash
  | proposalDuplicate
deriving DecidableEq, Repr

inductive PowError where
  | invalidNonce
deriving DecidableEq, Repr

/-- The `ckb_error::Error`s that uncle verification returns. -/
inductive UnclesVerifyError (H : Type) where
  | uncles (e : UnclesError H)
  | pow (e : PowError)
deriving DecidableEq, Repr

/-- `UncleBlockView`: an uncle with the proposals hash its header commits to. -/
structure UncleBlockView (H : Type) extends UncleBlock H where
  proposalsHash : H
deriving DecidableEq, Repr

/-- The part of a `BlockView` uncle verification reads: the header and the uncles. -/
structure BlockView (H : Type) where
  header : Header H
  uncles : List (UncleBlockView H)
deriving DecidableEq, Repr

def BlockView.isGenesis {H : Type} (block : BlockView H) : Bool := block.header.number == 0

/-- What uncle verification reads of `Consensus`; `pow_engine().verify` is a predicate on headers. -/
structure UnclesConsensus (H : Type) where
  maxUnclesNum : Nat
  maxBlockProposalsLimit : Nat
  powEngineVerify : Header H → Bool

structure UncleProvider (H : Type) where
  doubleInclusion : H → Bool
  consensus : UnclesConsensus H
  epoch : Extras.EpochExt H
  descendant : Header H → Bool

namespace UnclesVerifier

variable {H : Type} [DecidableEq H] (provider : UncleProvider H)
  (calcProposalsHash : List ProposalShortId → H) (block : BlockView H)

/-- One turn of the loop over the uncles, from the map of the uncles accepted so far to their
numbers; the checks are made in the order of the source. -/
def verifyUncle (included : FiniteMap H Nat) (uncle : UncleBlockView H) :
    Except (UnclesVerifyError H) (FiniteMap H Nat) := do
  if uncle.header.compactTarget ≠ provider.epoch.compactTarget then throw (.uncles .invalidTarget)
  if provider.epoch.number ≠ uncle.header.epoch.number then throw (.uncles .invalidDifficultyEpoch)
  if uncle.header.number ≥ block.header.number then throw (.uncles .invalidNumber)
  let embeddedDescendant :=
    ((included.lookup uncle.header.parentHash).map fun number => number + 1 == uncle.header.number).getD false
  if !(embeddedDescendant || provider.descendant uncle.header) then throw (.uncles .descendantLimit)
  if uncle.header.hash ∈ included then throw (.uncles (.duplicate uncle.header.hash))
  if provider.doubleInclusion uncle.header.hash then throw (.uncles (.doubleInclusion uncle.header.hash))
  if uncle.proposals.length > provider.consensus.maxBlockProposalsLimit then
    throw (.uncles .exceededMaximumProposalsLimit)
  if uncle.proposalsHash ≠ calcProposalsHash uncle.proposals then throw (.uncles .proposalsHash)
  if !allInsert ∅ uncle.proposals then throw (.uncles .proposalDuplicate)
  if !provider.consensus.powEngineVerify uncle.header then throw (.pow .invalidNonce)
  pure (included.insert uncle.header.hash uncle.header.number)

def verify : Except (UnclesVerifyError H) Unit :=
  let unclesCount := block.uncles.length
  if unclesCount = 0 then pure ()
  -- a genesis block is expected with no uncles
  else if block.isGenesis then throw (.uncles (.overCount 0 unclesCount))
  else
    let maxUnclesNum := provider.consensus.maxUnclesNum
    if unclesCount > maxUnclesNum then throw (.uncles (.overCount maxUnclesNum unclesCount))
    else do
      let _ ← block.uncles.foldlM (verifyUncle provider calcProposalsHash block) ∅
      pure ()

end UnclesVerifier

/-- `UncleVerifierContext`: the chain store, the consensus and the epoch of the block verified. -/
structure UncleVerifierContext (H : Type) where
  store : Store H
  consensus : UnclesConsensus H
  epoch : Extras.EpochExt H

namespace UncleVerifierContext

variable {H : Type} [DecidableEq H] (context : UncleVerifierContext H)

/-- A main-chain block, or an uncle a main-chain block includes. -/
def doubleInclusion (hash : H) : Bool :=
  (context.store.getBlockNumber hash).isSome || context.store.isUncle hash

/-- The uncle's parent is one block below it: a main-chain block, or else an included uncle. -/
def descendant (uncle : Header H) : Bool :=
  let parentHash := uncle.parentHash
  let uncleNumber := uncle.number
  let store := context.store
  if (store.getBlockNumber parentHash).isSome then
    ((store.getBlockHeader parentHash).map fun parent => parent.number + 1 == uncleNumber).getD false
  else
    match store.getUncleHeader parentHash with
    | some uncleParent => uncleParent.number + 1 == uncleNumber
    | none => false

def toProvider : UncleProvider H where
  doubleInclusion := context.doubleInclusion
  consensus := context.consensus
  epoch := context.epoch
  descendant := context.descendant

end UncleVerifierContext

end Ckb
