import Ckb.Types.Core
import Ckb.Types.Epoch
import Ckb.Types.Consensus
import Ckb.Support.ExceptOption

/-!
`SinceVerifier` (`ckb-verification`): the time locks of a transaction's inputs. An input's `since`
packs a relative flag (bit 63), a metric (bits 61 and 62: block number, epoch or timestamp), five
bits that must be zero and a 56-bit value. The verifier compares the value with the block number,
the epoch or the median time the transaction is checked at, counted from the chain's start or,
for a relative since, from the input cell's block.

The workspace is built with `overflow-checks = true`, so the `u64` products and sums that the
source writes with `*` and `+` panic on overflow; they are `checkedMul` and `checkedAdd` here, with
`none` the panic, as are the `expect`s and the division by zero of `to_rational`. The block and
epoch numbers of `TxVerifyEnv` add a proposal window distance to a tip number and are taken to fit
in `u64`.
-/

namespace Ckb

open ExceptT (okOr)

def lockTypeFlag : Nat := 2 ^ 63
def metricTypeFlagMask : Nat := 0x6000000000000000
def valueMask : Nat := 0x00ffffffffffffff
def remainFlagsBits : Nat := 0x1f00000000000000

inductive SinceMetric where
  | blockNumber (blockNumber : Nat)
  | epochNumberWithFraction (epoch : EpochNumberWithFraction)
  | timestamp (timestamp : Nat)
deriving DecidableEq, Repr

structure Since where
  val : Nat
deriving DecidableEq, Repr

namespace Since

def isAbsolute (since : Since) : Bool := since.val &&& lockTypeFlag == 0

def isRelative (since : Since) : Bool := !since.isAbsolute

def flagsIsValid (since : Since) : Bool :=
  (since.val &&& remainFlagsBits == 0) && (since.val &&& metricTypeFlagMask != metricTypeFlagMask)

/-- `extract_metric`. The outer `none` is the overflow panic of `value * 1000`; the inner `none` is
the source's `None`, for the metric flag `11`. -/
def extractMetric (since : Since) : Option (Option SinceMetric) :=
  let value := since.val &&& valueMask
  let metric := since.val &&& metricTypeFlagMask
  if metric = 0 then some (some (.blockNumber value))
  else if metric = 0x2000000000000000 then some (some (.epochNumberWithFraction ⟨value⟩))
  else if metric = 0x4000000000000000 then (checkedMul value 1000).map fun timestamp => some (.timestamp timestamp)
  else some none

end Since

/-- The phase of the transaction a `TxVerifyEnv` describes. -/
inductive TxVerifyPhase where
  | submitted
  | proposed (alreadyProposed : Nat)
  | committed
deriving DecidableEq, Repr

/-- `TxVerifyEnv`: the tip a transaction is checked against. The field `parent_hash` is
`tipParentHash`, to leave the name to the method. -/
structure TxVerifyEnv (H : Type) where
  phase : TxVerifyPhase
  number : Nat
  epoch : EpochNumberWithFraction
  hash : H
  tipParentHash : H
deriving DecidableEq, Repr

namespace TxVerifyEnv

variable {H : Type}

/-- The number of the earliest block that can commit the transaction. -/
def blockNumber (env : TxVerifyEnv H) (proposalWindow : ProposalWindow) : Nat :=
  match env.phase with
  | .submitted => env.number + 1 + proposalWindow.closest
  | .proposed alreadyProposed => env.number - alreadyProposed + proposalWindow.closest
  | .committed => env.number

/-- The number of the earliest epoch that can commit the transaction. -/
def epochNumber (env : TxVerifyEnv H) (proposalWindow : ProposalWindow) : Nat :=
  let nBlocks := match env.phase with
    | .submitted => 1 + proposalWindow.closest
    | .proposed alreadyProposed => proposalWindow.closest - alreadyProposed
    | .committed => 0
  env.epoch.minimumEpochNumberAfterNBlocks nBlocks

/-- The parent of the earliest block that can commit the transaction. -/
def parentHash (env : TxVerifyEnv H) : H :=
  match env.phase with
  | .submitted => env.hash
  | .proposed _ => env.hash
  | .committed => env.tipParentHash

end TxVerifyEnv

structure HeaderFields (H : Type) where
  hash : H
  number : Nat
  epoch : EpochNumberWithFraction
  timestamp : Nat
  parentHash : H
deriving DecidableEq, Repr

/-- The trait `HeaderFieldsProvider`, with its default `block_median_time`. -/
structure HeaderFieldsProvider (H : Type) where
  getHeaderFields : H → Option (HeaderFields H)

namespace HeaderFieldsProvider

variable {H : Type} (provider : HeaderFieldsProvider H)

/-- The loop of `block_median_time`: the timestamps of `count` blocks back from `blockHash`, or up
to genesis; `none` is the panic of `expect("parent header exist")`. -/
def pastTimestamps : Nat → H → Option (List Nat)
  | 0, _ => some []
  | count + 1, blockHash => do
    let headerFields ← provider.getHeaderFields blockHash
    if headerFields.number = 0 then pure [headerFields.timestamp]
    else do
      let timestamps ← pastTimestamps count headerFields.parentHash
      pure (headerFields.timestamp :: timestamps)

/-- `block_median_time`: the middle of the sorted timestamps, the greater one of the two middles
for an even count; `none` also for the empty vector of a zero `median_block_count`. -/
def blockMedianTime (blockHash : H) (medianBlockCount : Nat) : Option Nat := do
  let timestamps ← provider.pastTimestamps medianBlockCount blockHash
  let sorted := timestamps.mergeSort
  sorted[sorted.length / 2]?

end HeaderFieldsProvider

/-- The errors of `SinceVerifier`, each naming the input it rejects. -/
inductive TransactionError where
  | immature (index : Nat)
  | invalidSince (index : Nat)
deriving DecidableEq, Repr

structure SinceVerifier (H : Type) where
  rtx : ResolvedTransaction H
  consensus : Consensus
  dataLoader : HeaderFieldsProvider H
  txEnv : TxVerifyEnv H

namespace SinceVerifier

variable {H : Type} (sv : SinceVerifier H)

def blockMedianTime (blockHash : H) : Option Nat :=
  sv.dataLoader.blockMedianTime blockHash sv.consensus.medianTimeBlockCount

/-- The median time before a block; `none` is the panic of `expect("parent block exist")`. -/
def parentMedianTime (blockHash : H) : Option Nat := do
  let headerFields ← sv.dataLoader.getHeaderFields blockHash
  sv.blockMedianTime headerFields.parentHash

def verifyAbsoluteLock (index : Nat) (since : Since) : ExceptT TransactionError Option Unit :=
  if since.isAbsolute then do
    let metric ← ExceptT.lift since.extractMetric
    match metric with
    | some (.blockNumber blockNumber) =>
      if sv.txEnv.blockNumber sv.consensus.txProposalWindow < blockNumber then throw (.immature index)
      else pure ()
    | some (.epochNumberWithFraction epochNumberWithFraction) =>
      if !epochNumberWithFraction.isWellFormedIncrement then throw (.invalidSince index)
      else do
        let a ← ExceptT.lift sv.txEnv.epoch.toRational
        let b ← ExceptT.lift epochNumberWithFraction.normalize.toRational
        if a < b then throw (.immature index) else pure ()
    | some (.timestamp timestamp) => do
      let tipTimestamp ← ExceptT.lift (sv.blockMedianTime sv.txEnv.parentHash)
      if tipTimestamp < timestamp then throw (.immature index) else pure ()
    | none => throw (.invalidSince index)
  else pure ()

def verifyRelativeLock (index : Nat) (since : Since) (cellMeta : CellMeta H) :
    ExceptT TransactionError Option Unit :=
  if since.isRelative then do
    let info ← liftExcept (okOr cellMeta.transactionInfo (TransactionError.immature index))
    let metric ← ExceptT.lift since.extractMetric
    match metric with
    | some (.blockNumber blockNumber) => do
      let required ← ExceptT.lift (checkedAdd info.blockNumber blockNumber)
      if sv.txEnv.blockNumber sv.consensus.txProposalWindow < required then throw (.immature index)
      else pure ()
    | some (.epochNumberWithFraction epochNumberWithFraction) =>
      if !epochNumberWithFraction.isWellFormedIncrement then throw (.invalidSince index)
      else do
        let a ← ExceptT.lift sv.txEnv.epoch.toRational
        let blockEpoch ← ExceptT.lift (EpochNumberWithFraction.mk info.blockEpoch).toRational
        let increment ← ExceptT.lift epochNumberWithFraction.normalize.toRational
        if a < blockEpoch + increment then throw (.immature index) else pure ()
    | some (.timestamp timestamp) => do
      -- the base is the median time before the cell's block, or since RFC 0028 that block's own
      -- timestamp
      let epochNumber := sv.txEnv.epochNumber sv.consensus.txProposalWindow
      let baseTimestamp ← (
        if sv.consensus.hardforkSwitch.ckb2021.isBlockTsAsRelativeSinceStartEnabled epochNumber then do
          let headerFields ← ExceptT.lift (sv.dataLoader.getHeaderFields info.blockHash)
          pure headerFields.timestamp
        else ExceptT.lift (sv.parentMedianTime info.blockHash) : ExceptT TransactionError Option Nat)
      let currentMedianTime ← ExceptT.lift (sv.blockMedianTime sv.txEnv.parentHash)
      let required ← ExceptT.lift (checkedAdd baseTimestamp timestamp)
      if currentMedianTime < required then throw (.immature index) else pure ()
    | none => throw (.invalidSince index)
  else pure ()

/-- One pass of the loop of `verify`: a zero since is skipped. -/
def verifyInput (index : Nat) (cellMeta : CellMeta H) (input : CellInput H) :
    ExceptT TransactionError Option Unit :=
  if input.since = 0 then pure ()
  else if !(Since.mk input.since).flagsIsValid then throw (.invalidSince index)
  else do
    sv.verifyAbsoluteLock index ⟨input.since⟩
    sv.verifyRelativeLock index ⟨input.since⟩ cellMeta

def verify : ExceptT TransactionError Option Unit :=
  (sv.rtx.resolvedInputs.zip sv.rtx.transaction.inputs).zipIdx.forM fun entry =>
    sv.verifyInput entry.2 entry.1.1 entry.1.2

end SinceVerifier

end Ckb
