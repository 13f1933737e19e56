/-!
The parameters of `Consensus` (`ckb-chain-spec`) and of its hard fork switch that the modelled
code reads.
-/

namespace Ckb

/-- `ProposalWindow(closest, farthest)`: the closest and the farthest on-chain distance between a
transaction's proposal and its commitment. -/
structure ProposalWindow where
  closest : Nat
  farthest : Nat
deriving DecidableEq, Repr

/-- The activation epochs of the 2021 hard fork that the modelled code reads. -/
structure CKB2021 where
  rfc0028 : Nat
deriving DecidableEq, Repr

/-- RFC 0028: a relative timestamp since counts from the timestamp of the input cell's block. -/
def CKB2021.isBlockTsAsRelativeSinceStartEnabled (ckb2021 : CKB2021) (epochNumber : Nat) : Bool :=
  epochNumber ≥ ckb2021.rfc0028

structure HardForks where
  ckb2021 : CKB2021
deriving DecidableEq, Repr

/-- `ProposalWindow::length`: `farthest - closest + 1`, which overflows when `closest > farthest`. -/
def ProposalWindow.length (proposalWindow : ProposalWindow) : Option Nat :=
  if proposalWindow.closest ≤ proposalWindow.farthest then some (proposalWindow.farthest - proposalWindow.closest + 1)
  else none

structure Consensus where
  txProposalWindow : ProposalWindow
  medianTimeBlockCount : Nat
  hardforkSwitch : HardForks
deriving DecidableEq, Repr

namespace Consensus

def finalizationDelayLength (consensus : Consensus) : Nat := consensus.txProposalWindow.farthest + 1

/-- `finalize_target`: the block whose reward a block pays; genesis pays none. -/
def finalizeTarget (consensus : Consensus) (blockNumber : Nat) : Option Nat :=
  if blockNumber ≠ 0 then some (blockNumber - consensus.finalizationDelayLength) else none

end Consensus

end Ckb
