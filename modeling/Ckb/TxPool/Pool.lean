import Ckb.TxPool.PoolMap

/-!
`TxPool` (`tx-pool/src/pool.rs`): the pool map with the limits of its configuration. Of the pool
only what the modelled methods read is kept. The callbacks a method calls with each entry it drops
are the list of entries and rejects it returns, and the clock is an argument.

`limit_size` loops while the pool is over its size and evicts nothing when the pool map offers no
entry, so it may not end. Its loop is given a number of rounds, and its outcome tells a result
apart from a panic and from rounds that ran out with the pool still over its size.
-/

set_option linter.dupNamespace false

namespace Ckb.TxPool

structure TxPool (H I : Type) where
  poolMap : PoolMap H I
  /-- `config.max_tx_pool_size`. -/
  maxTxPoolSize : Nat
  /-- `config.min_fee_rate`. -/
  minFeeRate : Nat
  /-- `config.min_rbf_rate`. -/
  minRbfRate : Nat
  /-- `expiry`: `config.expiry_hours` in milliseconds. -/
  expiry : Nat

/-- How a loop given a number of rounds ends: it left the loop with a result, a round panicked, or
the rounds ran out with the loop's condition still true. -/
inductive Rounds (α : Type) where
  | finished (result : α)
  | panicked
  | unfinished
deriving DecidableEq

def Rounds.map {α β : Type} (f : α → β) : Rounds α → Rounds β
  | .finished result => .finished (f result)
  | .panicked => .panicked
  | .unfinished => .unfinished

@[simp] theorem Rounds.map_eq_unfinished {α β : Type} {f : α → β} {r : Rounds α} :
    r.map f = .unfinished ↔ r = .unfinished := by
  cases r <;> simp [Rounds.map]

theorem Rounds.map_eq_finished {α β : Type} {f : α → β} {r : Rounds α} {b : β} :
    r.map f = .finished b ↔ ∃ a, r = .finished a ∧ f a = b := by
  cases r <;> simp [Rounds.map]

variable {H I : Type} [DecidableEq H] [LinearOrder I] (env : PoolEnv H I)

def maxReplacementCandidates : Nat := 100

/-- `FeeRate::fee`: the fee at a rate of shannons per thousand weight units. -/
def feeRateFee (rate weight : Nat) : Nat := saturatingMul rate weight / 1000

def TxEntry.feeRate (cyclesWeight : Nat → Nat) (e : TxEntry H) : Nat :=
  feeRateCalculate e.fee (getTransactionWeight cyclesWeight e.size e.cycles)

namespace PoolMap

/-- `iter`: the entries, in the order of their ids. -/
def iter (s : PoolMap H I) : List (PoolEntry H I) :=
  (sortedElems s.entries.keys).filterMap s.entries.lookup

/-- `find_conflict_tx`: the entries spending an input of the transaction. -/
def findConflictTx (s : PoolMap H I) (tx : TransactionView H) : Finset I :=
  (tx.inputPts.filterMap s.edges.inputs.lookup).toFinset

/-- `next_evict_entry`: the entry of the given status with the lowest evict key. -/
def nextEvictEntry (s : PoolMap H I) (status : Status) : Option I :=
  ((iterByEvictKey s).find? (·.status = status)).map (·.id)

end PoolMap

namespace TxPool

/-- The `next_evict_entry` closure of `limit_size`: a pending entry first, then a gap entry, then
a proposed one. -/
def nextEvictEntry (s : PoolMap H I) : Option I :=
  ((s.nextEvictEntry .pending).or (s.nextEvictEntry .gap)).or (s.nextEvictEntry .proposed)

/-- What the loop of `limit_size` carries: the pool map, the reject of the entry being submitted,
and the entries reported to the callbacks. -/
structure LimitSizeState (H I : Type) where
  poolMap : PoolMap H I
  ret : Option (Reject H I)
  reported : List (TxEntry H × Reject H I)

/-- One removed entry: reported as `Full`, and kept as the result when it is the entry being
submitted. -/
def reportFull (currentEntryId : Option I) (state : LimitSizeState H I) (entry : TxEntry H) :
    LimitSizeState H I :=
  let reject := Reject.full (entry.feeRate env.cyclesWeight)
  { state with
    ret := if currentEntryId = some (entry.proposalShortId env) then some reject else state.ret
    reported := state.reported ++ [(entry, reject)] }

/-- One round of the `while` loop of `limit_size`: the next entry to evict leaves with its
descendants; with no entry to evict the round changes nothing. -/
def limitSizeRound (currentEntryId : Option I) (state : LimitSizeState H I) : Option (LimitSizeState H I) :=
  match nextEvictEntry state.poolMap with
  | none => some state
  | some id => do
    let removed ← state.poolMap.removeEntryAndDescendants env id
    pure (removed.2.foldl (reportFull env currentEntryId) { state with poolMap := removed.1 })

/-- The `while` loop of `limit_size`, for at most `rounds` rounds. -/
def limitSizeLoop (maxTxPoolSize : Nat) (currentEntryId : Option I) :
    Nat → LimitSizeState H I → Rounds (LimitSizeState H I)
  | 0, state => if state.poolMap.totalTxSize > maxTxPoolSize then .unfinished else .finished state
  | rounds + 1, state =>
    if state.poolMap.totalTxSize > maxTxPoolSize then
      match limitSizeRound env currentEntryId state with
      | none => .panicked
      | some next => limitSizeLoop maxTxPoolSize currentEntryId rounds next
    else .finished state

/-- `limit_size`, given `rounds` rounds of its loop: the pool, the reject of the entry being
submitted if it was evicted, and the entries reported to the callbacks. -/
def limitSize (pool : TxPool H I) (currentEntryId : Option I) (rounds : Nat) :
    Rounds (TxPool H I × Option (Reject H I) × List (TxEntry H × Reject H I)) :=
  (limitSizeLoop env pool.maxTxPoolSize currentEntryId rounds ⟨pool.poolMap, none, []⟩).map
    fun state => ({ pool with poolMap := state.poolMap }, state.ret, state.reported)

/-- `remove_expired`: every entry older than the expiry leaves, alone, reported as `Expiry`. -/
def removeExpired (pool : TxPool H I) (nowMs : Nat) : Option (TxPool H I × List (TxEntry H × Reject H I)) := do
  let removed := (pool.poolMap.iter.filter fun entry => pool.expiry + entry.inner.timestamp < nowMs).map (·.inner)
  let poolMap ← removed.foldlM (fun s entry => (s.removeEntry env (entry.proposalShortId env)).map (·.1))
    pool.poolMap
  pure ({ pool with poolMap := poolMap }, removed.map fun entry => (entry, .expiry entry.timestamp))

def enableRbf (pool : TxPool H I) : Bool := pool.minRbfRate > pool.minFeeRate

/-- `calculate_min_replace_fee`: the fees of the distinct replaced entries and the fee of the new
transaction's size at `min_rbf_rate`, `none` on an overflowing `safe_add`. -/
def calculateMinReplaceFee (pool : TxPool H I) (conflicts : List (PoolEntry H I)) (size : Nat) : Option Nat :=
  let extraRbfFee := feeRateFee pool.minRbfRate size
  let replacedFees : FiniteMap I Nat := conflicts.foldl (fun fees c => fees.insert c.id c.inner.fee) ∅
  let replacedSumFee := (sortedElems replacedFees.keys).foldlM
    (fun acc id => checkedAdd acc ((replacedFees.lookup id).getD 0)) 0
  replacedSumFee.bind fun sum => checkedAdd sum extraRbfFee

/-- The loop of rule #5 of `check_rbf` over the conflicts: the replaced entries are at most
`MAX_REPLACEMENT_CANDIDATES`, none of their descendants is an ancestor of the new transaction or
creates one of its inputs, and the descendants join the replaced entries. -/
def checkRbfConflicts (s : PoolMap H I) (txInputs : List (OutPoint H)) (ancestors : Finset I) :
    List (PoolEntry H I) → Nat → List (PoolEntry H I) → Except (Reject H I) (List (PoolEntry H I))
  | [], _, allConflicted => .ok allConflicted
  | conflict :: rest, replaceCount, allConflicted =>
    let descendants := s.calcDescendants conflict.id
    let replaceCount := replaceCount + descendants.card + 1
    if replaceCount > maxReplacementCandidates then
      .error (.rbfReplacement (.tooManyConflicts replaceCount maxReplacementCandidates))
    else if ¬ Disjoint descendants ancestors then .error (.rbfReplacement .ancestorsInConflictDescendants)
    else
      let entries := (sortedElems descendants).filterMap s.getById
      if entries.any (fun e => txInputs.any (·.txHash = e.inner.transaction.hash)) then
        .error (.rbfReplacement .inputsInConflictDescendants)
      else checkRbfConflicts s txInputs ancestors rest replaceCount (allConflicted ++ entries)

/-- `check_rbf`: the ids of the entries the new one replaces. Both `assert!`s are panics, and
`transactionExists` is the snapshot's `transaction_exists`. -/
def checkRbf (pool : TxPool H I) (transactionExists : H → Bool) (entry : TxEntry H) :
    Option (Except (Reject H I) (Finset I)) :=
  if !pool.enableRbf then none else
  let txInputs := entry.transaction.inputPts
  let conflictIds := pool.poolMap.findConflictTx entry.transaction
  if conflictIds = ∅ then some (.ok ∅) else
  let shortId := entry.proposalShortId env
  let conflicts := (sortedElems conflictIds).filterMap pool.poolMap.getById
  if conflicts.length ≠ conflictIds.card then none else
  -- rule #2: every input is spent by a conflict or created by a committed transaction
  let inputs := conflicts.flatMap (·.inner.transaction.inputPts)
  if txInputs.any (fun pt => decide (pt ∉ inputs) && !transactionExists pt.txHash) then
    some (.error (.rbfReplacement .unconfirmedInputs))
  else
    match checkRbfConflicts pool.poolMap txInputs (pool.poolMap.calcAncestors shortId) conflicts 0 conflicts with
    | .error reject => some (.error reject)
    | .ok allConflicted =>
      let txCellsDeps := entry.transaction.cellDepPts
      if allConflicted.any (fun e => txCellsDeps.any (·.txHash = e.inner.transaction.hash)) then
        some (.error (.rbfReplacement .cellDepsFromConflicts))
      else
        -- rules #3 and #4: the fee pays for every replaced entry and for the replacement
        match pool.calculateMinReplaceFee allConflicted entry.size with
        | some minReplaceFee =>
          if entry.fee < minReplaceFee then some (.error (.rbfReplacement (.feeTooLow entry.fee minReplaceFee)))
          else some (.ok conflictIds)
        | none => some (.error (.rbfReplacement .minReplaceFeeFailed))

/-- `process_rbf`: every conflict leaves with its descendants, which are returned. The conflicts
cache the source records them in, and the transactions it queues to verify again, are left out. -/
def processRbf (pool : TxPool H I) (conflicts : Finset I) : Option (TxPool H I × List (TxEntry H)) :=
  if conflicts = ∅ then some (pool, []) else do
  let removed ← (sortedElems conflicts).foldlM (fun (acc : PoolMap H I × List (TxEntry H)) id => do
      let next ← acc.1.removeEntryAndDescendants env id
      pure (next.1, acc.2 ++ next.2)) (pool.poolMap, [])
  pure ({ pool with poolMap := removed.1 }, removed.2)

end TxPool

end Ckb.TxPool
