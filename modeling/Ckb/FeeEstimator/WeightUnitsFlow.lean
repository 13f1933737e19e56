import Ckb.Types.Core
import Ckb.Support.FiniteMap

/-!
The weight-units flow fee estimator (`ckb-fee-estimator`, `estimator/weight_units_flow.rs`). Fee
rates fall into buckets; a bucket holds the weight of the transactions whose fee rate is at
least the bucket's lowest one. `do_estimate` builds two bucket vectors in one pass each over a
sorted list, the weight of the current transactions and the flow of the transactions accepted
over the last blocks, and returns the lowest fee rate of the first bucket from index one that the
next `target_blocks` blocks would empty.

The node is built with `overflow-checks`, so every `u64` sum or product that overflows panics;
`none` is that panic, as is an index out of bounds. A `FeeRate` is its `u64` value.
-/

namespace Ckb.FeeEstimator

def feeRateUnit : Nat := 1000

/-- `MAX_BLOCK_BYTES`: `TWO_IN_TWO_OUT_BYTES * TWO_IN_TWO_OUT_COUNT`. -/
def maxBlockBytes : Nat := 597 * 1000

/-- `constants::MIN_TARGET`: `(TX_PROPOSAL_WINDOW.closest() + 1) + 2`. -/
def minTarget : Nat := (2 + 1) + 2

/-- `constants::MAX_TARGET`: an hour of blocks at `AVG_BLOCK_INTERVAL = (48 + 8) / 2` seconds. -/
def maxTarget : Nat := (60 * 60) / ((48 + 8) / 2)

def lowestFeeRate : Nat := 1000

inductive Error where
  | dummy
  | notReady
  | lackData
  | noProperFeeRate
deriving DecidableEq, Repr

structure TxStatus where
  weight : Nat
  feeRate : Nat
deriving DecidableEq, Repr

/-- `Ord for TxStatus`: by fee rate, then the lighter first. -/
def TxStatus.cmp (a b : TxStatus) : Ordering :=
  (compare a.feeRate b.feeRate).then (compare b.weight a.weight)

/-- The value of `lowest_fee_rate_by_bucket_index` as a number: seven linear pieces. -/
def lowestFeeRateValue (index : Nat) : Nat :=
  let t := feeRateUnit
  let x := index
  if x = 0 then 0
  else if x ≤ 10 then t * x
  else if x ≤ 30 then t * (10 + (x - 10) * 2)
  else if x ≤ 60 then t * (10 + 20 * 2 + (x - 30) * 5)
  else if x ≤ 90 then t * (10 + 20 * 2 + 30 * 5 + (x - 60) * 10)
  else if x ≤ 115 then t * (10 + 20 * 2 + 30 * 5 + 30 * 10 + (x - 90) * 20)
  else if x ≤ 135 then t * (10 + 20 * 2 + 30 * 5 + 30 * 10 + 25 * 20 + (x - 115) * 50)
  else t * (10 + 20 * 2 + 30 * 5 + 30 * 10 + 25 * 20 + 20 * 50 + (x - 135) * 100)

/-- `lowest_fee_rate_by_bucket_index`. Every step of the `u64` arithmetic is at most the result,
so it panics exactly when the result does not fit. -/
def lowestFeeRateByBucketIndex (index : Nat) : Option Nat :=
  if lowestFeeRateValue index ≤ u64Max then some (lowestFeeRateValue index) else none

/-- The value of `max_bucket_index_by_fee_rate` as a number: the inverse of the seven pieces. -/
def bucketIndexValue (feeRate : Nat) : Nat :=
  let t := feeRateUnit
  let x := feeRate
  if x ≤ 10000 then x / t
  else if x ≤ 50000 then (x + t * 10) / (2 * t)
  else if x ≤ 200000 then (x + t * 100) / (5 * t)
  else if x ≤ 500000 then (x + t * 400) / (10 * t)
  else if x ≤ 1000000 then (x + t * 1300) / (20 * t)
  else if x ≤ 2000000 then (x + t * 4750) / (50 * t)
  else (x + t * 11500) / (100 * t)

/-- `max_bucket_index_by_fee_rate`: only the last piece, `x + t * 11_500`, can overflow. -/
def maxBucketIndexByFeeRate (feeRate : Nat) : Option Nat :=
  if feeRate ≤ 2000000 ∨ feeRate + feeRateUnit * 11500 ≤ u64Max then some (bucketIndexValue feeRate) else none

def fillBelow (buckets : List Nat) (indexCurr : Nat) : Option (List Nat) :=
  buckets[indexCurr]?.map fun weightCurr => List.replicate indexCurr weightCurr ++ buckets.drop indexCurr

/-- One turn of a bucket loop: when the index drops, the lower buckets take the weight of the
last index; then `buckets[index] += tx.weight`. -/
def bucketStep (state : List Nat × Nat) (tx : TxStatus) : Option (List Nat × Nat) := do
  let (buckets, indexCurr) := state
  let index ← maxBucketIndexByFeeRate tx.feeRate
  let buckets ← if index < indexCurr then fillBelow buckets indexCurr else pure buckets
  let weight ← buckets[index]?
  let weight ← checkedAdd weight tx.weight
  pure (buckets.set index weight, index)

/-- The current weight buckets of `do_estimate`. -/
def currentWeightBuckets (maxBucketIndex : Nat) (sortedCurrentTxs : List TxStatus) : Option (List Nat) := do
  let (buckets, indexCurr) ← sortedCurrentTxs.foldlM bucketStep (List.replicate (maxBucketIndex + 1) 0, maxBucketIndex)
  fillBelow buckets indexCurr

/-- The loop of the flow buckets, which skips the transactions above the highest bucket. -/
def flowedStep (maxBucketIndex : Nat) (state : List Nat × Nat) (tx : TxStatus) : Option (List Nat × Nat) := do
  let index ← maxBucketIndexByFeeRate tx.feeRate
  if index > maxBucketIndex then pure state else bucketStep state tx

/-- The flow speed buckets of `do_estimate`: the flowed weight of each bucket per block. -/
def flowSpeedBuckets (maxBucketIndex historicalBlocks : Nat) (sortedFlowed : List TxStatus) : Option (List Nat) := do
  let (buckets, indexCurr) ←
    sortedFlowed.foldlM (flowedStep maxBucketIndex) (List.replicate (maxBucketIndex + 1) 0, maxBucketIndex)
  let buckets ← fillBelow buckets indexCurr
  pure (buckets.map fun value => value / historicalBlocks)

structure Algorithm where
  bootTip : Nat
  currentTip : Nat
  txs : FiniteMap Nat (List TxStatus)
  isReady : Bool

namespace Algorithm

/-- `historical_blocks`: twice the target, and at least twice `MIN_TARGET`. -/
def historicalBlocks (targetBlocks : Nat) : Option Nat :=
  if targetBlocks < minTarget then some (minTarget * 2) else checkedMul targetBlocks 2

/-- The transactions accepted from `historical_tip` on, block by block. -/
def flowedStatuses (algorithm : Algorithm) (historicalTip : Nat) : List TxStatus :=
  ((sortedElems algorithm.txs.keys).filter (· ≥ historicalTip)).flatMap fun num => (algorithm.txs.lookup num).getD []

/-- `sorted_flowed`: the transactions accepted from `historical_tip` on, in decreasing order. The
order of the map's entries does not matter: `Ord for TxStatus` compares every field, so the sort
has one result. -/
def sortedFlowed (algorithm : Algorithm) (historicalTip : Nat) : List TxStatus :=
  (algorithm.flowedStatuses historicalTip).mergeSort fun a b => a.cmp b != .lt

/-- The loop that returns the lowest fee rate of the first bucket the target blocks would empty. -/
def findBucket (currentWeightBuckets flowSpeedBuckets : List Nat) (targetBlocks : Nat) :
    List Nat → ExceptT Error Option Nat
  | [] => throw .noProperFeeRate
  | bucketIndex :: rest => do
    let currentWeight ← ExceptT.lift currentWeightBuckets[bucketIndex]?
    let flowSpeed ← ExceptT.lift flowSpeedBuckets[bucketIndex]?
    let addedWeight ← ExceptT.lift (checkedMul flowSpeed targetBlocks)
    let removedWeight ← ExceptT.lift (checkedMul (maxBlockBytes * 85 / 100) targetBlocks)
    let total ← ExceptT.lift (checkedAdd currentWeight addedWeight)
    if total ≤ removedWeight then ExceptT.lift (lowestFeeRateByBucketIndex bucketIndex)
    else findBucket currentWeightBuckets flowSpeedBuckets targetBlocks rest

def doEstimate (algorithm : Algorithm) (targetBlocks : Nat) (sortedCurrentTxs : List TxStatus) :
    ExceptT Error Option Nat := do
  let historicalBlocks ← ExceptT.lift (historicalBlocks targetBlocks)
  if historicalBlocks > algorithm.currentTip - algorithm.bootTip then throw .lackData
  match sortedCurrentTxs.head? with
  | none => pure lowestFeeRate
  | some first =>
    let maxBucketIndex ← ExceptT.lift (maxBucketIndexByFeeRate first.feeRate)
    let current ← ExceptT.lift (currentWeightBuckets maxBucketIndex sortedCurrentTxs)
    let historicalTip := algorithm.currentTip - historicalBlocks
    let flow ← ExceptT.lift (flowSpeedBuckets maxBucketIndex historicalBlocks (algorithm.sortedFlowed historicalTip))
    findBucket current flow targetBlocks (List.range' 1 maxBucketIndex)

end Algorithm

end Ckb.FeeEstimator
