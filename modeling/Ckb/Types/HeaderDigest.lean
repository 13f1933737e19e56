import Ckb.Types.Difficulty
import Ckb.Support.ExceptOption

/-!
`HeaderDigest` (`ckb_types::utilities::merkle_mountain_range`): the node of the chain root MMR, a
range of blocks summarised by the hash of its children, its total difficulty, and the number, epoch,
timestamp and compact target of its first and last block.

`MergeHeaderDigest::merge` joins two adjacent ranges; `HeaderDigest::verify` checks a range on its
own. The children hash of a merge is the blake2b of the two sides' `calc_mmr_hash`, a parameter
here. `U256` arithmetic (`numext`) panics on overflow, which is `none`; block numbers are natural
numbers. Each error message of the source is a constructor carrying the values it formats.
-/

namespace Ckb

structure HeaderDigest (H : Type) where
  childrenHash : H
  totalDifficulty : Nat
  startNumber : Nat
  endNumber : Nat
  startEpoch : EpochNumberWithFraction
  endEpoch : EpochNumberWithFraction
  startTimestamp : Nat
  endTimestamp : Nat
  startCompactTarget : Nat
  endCompactTarget : Nat
deriving DecidableEq, Repr

/-- `HeaderView::digest`: the one-block range of a header. -/
def Header.digest {H : Type} (header : Header H) : HeaderDigest H where
  childrenHash := header.hash
  totalDifficulty := header.difficulty
  startNumber := header.number
  endNumber := header.number
  startEpoch := header.epoch
  endEpoch := header.epoch
  startTimestamp := header.timestamp
  endTimestamp := header.timestamp
  startCompactTarget := header.compactTarget
  endCompactTarget := header.compactTarget

/-- `U256` addition, which panics on overflow. -/
def u256Add (l r : Nat) : Option Nat := if l + r < 2 ^ 256 then some (l + r) else none

/-- `U256` multiplication, which panics on overflow. -/
def u256Mul (l r : Nat) : Option Nat := if l * r < 2 ^ 256 then some (l * r) else none

theorem u256Add_of_lt {l r : Nat} (bound : l + r < 2 ^ 256) : u256Add l r = some (l + r) := if_pos bound

theorem u256Add_of_le {l r : Nat} (overflow : 2 ^ 256 ≤ l + r) : u256Add l r = none := if_neg (by omega)

theorem u256Mul_of_lt {l r : Nat} (bound : l * r < 2 ^ 256) : u256Mul l r = some (l * r) := if_pos bound

inductive VerifyError where
  | startNumberBigger (startNumber endNumber : Nat)
  | startEpochBigger (startEpoch endEpoch : EpochNumberWithFraction)
  | compactTargetsDiffer (startEpoch endEpoch : EpochNumberWithFraction)
  | totalDifficultyMismatch (totalDifficulty totalDifficultyCalculated : Nat)
      (startEpoch endEpoch : EpochNumberWithFraction)
deriving DecidableEq, Repr

inductive MergeError where
  | blocksNotContinuous (lhsEndNumber rhsStartNumber : Nat)
  | epochsNotContinuous (lhsEndEpoch rhsStartEpoch : EpochNumberWithFraction)
deriving DecidableEq, Repr

namespace HeaderDigest

variable {H : Type}

/-- `HeaderDigest::verify`: the numbers and epochs are ordered, and within one epoch the compact
targets agree and the total difficulty is that target's difficulty once per block. -/
def verify (digest : HeaderDigest H) : ExceptT VerifyError Option Unit := do
  if digest.startNumber > digest.endNumber then
    throw (.startNumberBigger digest.startNumber digest.endNumber)
  let startEpoch := digest.startEpoch
  let endEpoch := digest.endEpoch
  if startEpoch ≠ endEpoch ∧ (startEpoch.number > endEpoch.number ∨
      (startEpoch.number = endEpoch.number ∧ startEpoch.index > endEpoch.index)) then
    throw (.startEpochBigger startEpoch endEpoch)
  if startEpoch.number = endEpoch.number then
    if digest.startCompactTarget ≠ digest.endCompactTarget then
      throw (.compactTargetsDiffer startEpoch endEpoch)
    else
      let blocksCount := digest.endNumber - digest.startNumber + 1
      let blockDifficulty := compactToDifficulty digest.startCompactTarget
      let totalDifficultyCalculated ← ExceptT.lift (u256Mul blockDifficulty blocksCount)
      if digest.totalDifficulty ≠ totalDifficultyCalculated then
        throw (.totalDifficultyMismatch digest.totalDifficulty totalDifficultyCalculated startEpoch endEpoch)

end HeaderDigest

namespace MergeHeaderDigest

variable {H : Type} (mergeHash : HeaderDigest H → HeaderDigest H → H)

/-- `MergeHeaderDigest::merge`: the range of `lhs` followed by that of `rhs`, which must start at the
next block number and, unless `lhs` ends at the genesis epoch value, at the next epoch. The total
difficulty is added before the checks. -/
def merge (lhs rhs : HeaderDigest H) : ExceptT MergeError Option (HeaderDigest H) := do
  let childrenHash := mergeHash lhs rhs
  let totalDifficulty ← ExceptT.lift (u256Add lhs.totalDifficulty rhs.totalDifficulty)
  if lhs.endNumber + 1 ≠ rhs.startNumber then
    throw (.blocksNotContinuous lhs.endNumber rhs.startNumber)
  if !rhs.startEpoch.isSuccessorOf lhs.endEpoch && !lhs.endEpoch.isGenesis then
    throw (.epochsNotContinuous lhs.endEpoch rhs.startEpoch)
  pure
    { childrenHash
      totalDifficulty
      startNumber := lhs.startNumber
      startEpoch := lhs.startEpoch
      startTimestamp := lhs.startTimestamp
      startCompactTarget := lhs.startCompactTarget
      endNumber := rhs.endNumber
      endEpoch := rhs.endEpoch
      endTimestamp := rhs.endTimestamp
      endCompactTarget := rhs.endCompactTarget }

/-- `merge_peaks`: the MMR bags its peaks right to left. -/
def mergePeaks (lhs rhs : HeaderDigest H) : ExceptT MergeError Option (HeaderDigest H) := merge mergeHash rhs lhs

end MergeHeaderDigest

end Ckb
