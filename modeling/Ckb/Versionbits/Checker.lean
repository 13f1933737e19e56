import Ckb.Types.Block
import Ckb.Support.FiniteMap

/-!
Versionbits (`ckb-chain-spec::versionbits`, RFC 0043): the state machine of a soft-fork deployment.
Its state changes once per signalling period of `period` epochs; `get_state` finds the first epoch
of a header's period, walks back one period at a time to a cached state or to the start, and
replays the transitions forward, caching each state under the hash of the last block before the
period's first epoch, the index of that epoch.

The chain is read through a `VersionbitsIndexer`; whether a block signals, the deployment's bit in
the version its cellbase witness carries, is the checker's `condition`. The persistent cache is a
map from hashes to states, threaded through `get_state`: what it inserts stays even when the call
returns `None`. The `while` loop of `ancestor_epoch` runs on fuel of one turn per epoch number
above the target, all that an indexer whose epochs count down by one needs; a zero period, whose
remainder panics, is `none`.
-/

namespace Ckb

inductive ThresholdState where
  | defined
  | started
  | lockedIn
  | active
  | failed
deriving DecidableEq, Repr

inductive ActiveMode where
  | normal
  | always
  | never
deriving DecidableEq, Repr

/-- The fields of `EpochExt` the state machine reads. -/
structure EpochExt (H : Type) where
  number : Nat
  lastBlockHashInPreviousEpoch : H
  length : Nat
deriving DecidableEq, Repr

def EpochExt.isGenesis {H : Type} (epochExt : EpochExt H) : Bool := epochExt.number == 0

structure VersionbitsIndexer (H : Type) where
  blockEpochIndex : H → Option H
  epochExt : H → Option (EpochExt H)
  blockHeader : H → Option (Header H)

namespace VersionbitsIndexer

variable {H : Type} (indexer : VersionbitsIndexer H)

/-- The epoch before `epochExt`, through the last block before it: the step that both loops over
epochs take. -/
def previousEpoch (epochExt : EpochExt H) : Option (EpochExt H) := do
  let lastBlockHeaderInPreviousEpoch ← indexer.blockHeader epochExt.lastBlockHashInPreviousEpoch
  let previousEpochIndex ← indexer.blockEpochIndex lastBlockHeaderInPreviousEpoch.hash
  indexer.epochExt previousEpochIndex

/-- The `while` loop of `ancestor_epoch`: previous epochs until the target number. -/
def ancestorEpochLoop (target : Nat) : Nat → EpochExt H → Option (EpochExt H)
  | fuel, epochExt =>
    if epochExt.number > target then
      match fuel with
      | 0 => none
      | fuel + 1 => do
        let epochExt ← indexer.previousEpoch epochExt
        ancestorEpochLoop target fuel epochExt
    else some epochExt

def ancestorEpoch (index : H) (target : Nat) : Option (EpochExt H) := do
  let epochExt ← indexer.epochExt index
  if epochExt.number < target then none
  else indexer.ancestorEpochLoop target (epochExt.number - target) epochExt

end VersionbitsIndexer

structure VersionbitsConditionChecker (H : Type) where
  start : Nat
  timeout : Nat
  activeMode : ActiveMode
  condition : Header H → Bool
  minActivationEpoch : Nat
  period : Nat
  threshold : Ratio

/-- `threshold_number`: the signalling blocks that lock in, `length * numer / denom`, `None` when the
product overflows a `u64` or the denominator is zero. -/
def thresholdNumber (length : Nat) (threshold : Ratio) : Option Nat :=
  (checkedMul length threshold.numer).bind fun ret =>
    if threshold.denom = 0 then none else some (ret / threshold.denom)

namespace VersionbitsConditionChecker

variable {H : Type} (checker : VersionbitsConditionChecker H) (indexer : VersionbitsIndexer H)

/-- The inner `for` loop of the count: `n` blocks from `header` down, counting those that signal. -/
def countBlocks : Nat → Header H → Nat → Option (Header H × Nat)
  | 0, header, count => some (header, count)
  | n + 1, header, count => do
    let count := if checker.condition header then count + 1 else count
    let header ← indexer.blockHeader header.parentHash
    countBlocks n header count

/-- The outer `for` loop: as many blocks as the epoch `currentEpochExt` is long, then the epoch
before it, `k` times. The signalling blocks and the total length. -/
def countEpochs : Nat → EpochExt H → Header H → Nat → Nat → Option (Nat × Nat)
  | 0, _, _, count, total => some (count, total)
  | k + 1, currentEpochExt, header, count, total => do
    let total := total + currentEpochExt.length
    let (header, count) ← checker.countBlocks indexer currentEpochExt.length header count
    let currentEpochExt ← indexer.previousEpoch currentEpochExt
    countEpochs k currentEpochExt header count total

/-- The count of the `Started` state at the period that starts at `epochExt`. -/
def countSignals (epochExt : EpochExt H) : Option (Nat × Nat) := do
  let header ← indexer.blockHeader epochExt.lastBlockHashInPreviousEpoch
  checker.countEpochs indexer checker.period epochExt header 0 0

/-- One turn of the replay: the state of the period that starts at `epochExt`, from the state of
the period before. -/
def nextState (state : ThresholdState) (epochExt : EpochExt H) : Option ThresholdState :=
  match state with
  | .defined => some (if epochExt.number ≥ checker.start then .started else .defined)
  | .started => do
    let (count, total) ← checker.countSignals indexer epochExt
    let thresholdNumber ← thresholdNumber total checker.threshold
    if count ≥ thresholdNumber then some .lockedIn
    else if epochExt.number ≥ checker.timeout then some .failed
    else some .started
  | .lockedIn => some (if epochExt.number ≥ checker.minActivationEpoch then .active else .lockedIn)
  | .failed => some .failed
  | .active => some .active

variable [DecidableEq H]

/-- The `while let Some(epoch_ext) = to_compute.pop()` loop: the periods pushed last are replayed
first, and each state is cached. -/
def replay : ThresholdState → List (EpochExt H) → FiniteMap H ThresholdState →
    Option ThresholdState × FiniteMap H ThresholdState
  | state, [], cache => (some state, cache)
  | state, epochExt :: toCompute, cache =>
    match checker.nextState indexer state epochExt with
    | none => (none, cache)
    | some state => replay state toCompute (cache.insert epochExt.lastBlockHashInPreviousEpoch state)

/-- The `loop` of `get_state`, one period back per turn until a cached state or the start, then
the replay. Each turn moves to a lower epoch number, so `number + 1` turns always suffice. -/
def walk : Nat → EpochExt H → List (EpochExt H) → FiniteMap H ThresholdState →
    Option ThresholdState × FiniteMap H ThresholdState
  | 0, _, _, cache => (none, cache)
  | fuel + 1, epochExt, toCompute, cache =>
    let epochIndex := epochExt.lastBlockHashInPreviousEpoch
    match cache.lookup epochIndex with
    | some value => checker.replay indexer value toCompute cache
    | none =>
      if epochExt.isGenesis || decide (epochExt.number < checker.start) then
        checker.replay indexer .defined toCompute (cache.insert epochIndex .defined)
      else
        match indexer.ancestorEpoch epochIndex (epochExt.number - checker.period) with
        | none => (none, cache)
        | some next => walk fuel next (epochExt :: toCompute) cache

def getState (header : Header H) (cache : FiniteMap H ThresholdState) :
    Option ThresholdState × FiniteMap H ThresholdState :=
  if checker.activeMode = .always then (some .active, cache)
  else if checker.activeMode = .never then (some .failed, cache)
  else
    match indexer.blockEpochIndex header.hash with
    | none => (none, cache)
    | some startIndex =>
      if checker.period = 0 then (none, cache) else
      let epochNumber := header.epoch.number
      let target := epochNumber - (epochNumber + 1) % checker.period
      match indexer.ancestorEpoch startIndex target with
      | none => (none, cache)
      | some epochExt => checker.walk indexer (epochExt.number + 1) epochExt [] cache

end VersionbitsConditionChecker

end Ckb
