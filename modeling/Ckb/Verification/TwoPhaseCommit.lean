import Ckb.Store.Transaction
import Ckb.Types.Consensus

/-!
`TwoPhaseCommitVerifier` (`ckb-verification-contextual`): every transaction a block commits, the
cellbase apart, must have been proposed by a block of the main chain, or one of its uncles,
numbered in the block's proposal window, genesis excluded. The verifier finds the window's top
block by number and walks parent hashes down to the window's start.

The short id of a transaction is the first ten bytes of its hash (`ProposalShortId::from_tx_hash`);
with hashes abstract, it is a parameter. `proposal_end -= 1` at zero panics under the workspace's
`overflow-checks`, which is `none` here.
-/

namespace Ckb

inductive CommitError where
  | ancestorNotFound
  | invalid
deriving DecidableEq, Repr

variable {H : Type} [DecidableEq H]

/-- The proposals of the block stored under `blockHash` and of its uncles. -/
def storedProposalIds (store : Store H) (blockHash : H) : Finset ProposalShortId :=
  ((store.blockProposalIds.lookup blockHash).getD []).toFinset ∪
    (((store.blockUncle.lookup blockHash).getD []).flatMap (·.proposals)).toFinset

/-- The `while proposal_end >= proposal_start` loop: the proposals of the block at `proposalEnd`
and of its ancestors down to `proposalStart`, stopping at genesis. -/
def collectProposals (store : Store H) (proposalStart : Nat) :
    Nat → H → Finset ProposalShortId → Option (Except CommitError (Finset ProposalShortId))
  | proposalEnd, blockHash, proposalTxsIds =>
    if proposalEnd < proposalStart then some (.ok proposalTxsIds) else
    match store.getBlockHeader blockHash with
    | none => some (.error .ancestorNotFound)
    | some header =>
      if header.number = 0 then some (.ok proposalTxsIds) else
      let proposalTxsIds := proposalTxsIds ∪ storedProposalIds store blockHash
      match proposalEnd with
      | 0 => none
      | proposalEnd + 1 => collectProposals store proposalStart proposalEnd header.parentHash proposalTxsIds

def twoPhaseCommitVerify (consensus : Consensus) (shortId : H → ProposalShortId) (store : Store H) (block : Block H) :
    Option (Except CommitError Unit) :=
  if block.number = 0 then some (.ok ()) else
  let proposalWindow := consensus.txProposalWindow
  let proposalStart := block.number - proposalWindow.farthest
  let proposalEnd := block.number - proposalWindow.closest
  match store.getBlockHash proposalEnd with
  | none => some (.error .ancestorNotFound)
  | some blockHash =>
    (collectProposals store proposalStart proposalEnd blockHash ∅).map fun collected =>
      collected.bind fun proposalTxsIds =>
        let committedIds := ((block.transactions.drop 1).map (shortId ·.hash)).toFinset
        if (committedIds \ proposalTxsIds).Nonempty then .error .invalid else .ok ()

end Ckb
