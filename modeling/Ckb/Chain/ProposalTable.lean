import Ckb.Types.Block
import Ckb.Types.Consensus
import Ckb.Support.FiniteMap

/-!
`ProposalTable` (`ckb-proposal-table`): the proposal short ids of each main-chain block and its
uncles, by block number, and the view `finalize` computes for the block after a tip: `set`, the ids
proposed far enough back to be committed there, and `gap`, the ids proposed since. The `BTreeMap`
of the source is a finite map over numbers and its `HashSet`s are finite sets.
-/

namespace Ckb

structure ProposalView where
  gap : Finset ProposalShortId := ∅
  set : Finset ProposalShortId := ∅
deriving DecidableEq

structure ProposalTable where
  table : FiniteMap Nat (Finset ProposalShortId)
  proposalWindow : ProposalWindow

namespace ProposalTable

def new (proposalWindow : ProposalWindow) : ProposalTable := ⟨∅, proposalWindow⟩

def insert (proposalTable : ProposalTable) (number : Nat) (ids : Finset ProposalShortId) : ProposalTable :=
  { proposalTable with table := proposalTable.table.insert number ids }

def remove (proposalTable : ProposalTable) (number : Nat) : ProposalTable :=
  { proposalTable with table := proposalTable.table.erase number }

/-- The ids of the numbers a `BTreeMap::range` covers, flattened into one set. -/
def rangeIds (proposalTable : ProposalTable) (inRange : Nat → Prop) [DecidablePred inRange] :
    Finset ProposalShortId :=
  (proposalTable.table.keys.filter inRange).biUnion fun number => (proposalTable.table.lookup number).getD ∅

/-- `finalize`: drop the numbers before the window of the block after `number`, and return the
ids that left the proposal set with the new view. -/
def finalize (proposalTable : ProposalTable) (origin : ProposalView) (number : Nat) :
    ProposalTable × Finset ProposalShortId × ProposalView :=
  let candidateNumber := number + 1
  let proposalStart := candidateNumber - proposalTable.proposalWindow.farthest
  let proposalEnd := candidateNumber - proposalTable.proposalWindow.closest
  let proposalTable := if proposalStart > 1 then
      { proposalTable with table := proposalTable.table.filterKeys (proposalStart ≤ ·) }
    else proposalTable
  let newIdsAndGap := if candidateNumber ≤ proposalTable.proposalWindow.closest then
      (∅, proposalTable.rangeIds (· ≤ number))
    else
      (proposalTable.rangeIds fun n => proposalStart ≤ n ∧ n ≤ proposalEnd,
        proposalTable.rangeIds fun n => proposalEnd < n ∧ n ≤ number)
  let removedIds := origin.set \ newIdsAndGap.1
  (proposalTable, removedIds, ⟨newIdsAndGap.2, newIdsAndGap.1⟩)

end ProposalTable

end Ckb
