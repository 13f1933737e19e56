import Ckb.Types.SerializedSize
import Ckb.Support.FiniteMap

/-!
The queue of transactions waiting for verification (`tx-pool/src/component/verify_queue.rs`): a
multi-index map by proposal short id and by the time a transaction was added, with the total of
their sizes in a block bounded by `DEFAULT_MAX_VERIFY_QUEUE_TX_SIZE`.

`usize` arithmetic is 64-bit and checked: the subtraction in `is_full` panics on underflow, which is
`none`; `checked_sub` and `checked_add` fall back as the source does after logging. The clock
`unix_time_as_millis()` is an argument of `add_tx`. The ordered index breaks ties between equal
times by id.
-/

namespace Ckb.TxPool

def defaultMaxVerifyQueueTxSize : Nat := 256000000

namespace VerifyQueue

/-- `Entry`: the transaction and, from a remote peer, its declared cycles and the peer. -/
structure Entry (H : Type) where
  tx : TransactionView H
  remote : Option (Nat × Nat)
deriving DecidableEq, Repr

structure VerifyEntry (H I : Type) where
  id : I
  addedTime : Nat
  isLargeCycle : Bool
  inner : Entry H
deriving DecidableEq, Repr

/-- `Reject::Full` with `"verify_queue total_tx_size exceeded, failed to add tx: {:#x}"`, kept as the
hash it is formatted from. -/
inductive Reject (H : Type) where
  | full (txHash : H)
deriving DecidableEq, Repr

end VerifyQueue

open VerifyQueue in
structure VerifyQueue (H I : Type) where
  inner : FiniteMap I (VerifyEntry H I)
  totalTxSize : Nat
  largeCycleThreshold : Nat

namespace VerifyQueue

variable {H I : Type} [LinearOrder I] (fromTxHash : H → I)

def new (largeCycleThreshold : Nat) : VerifyQueue H I := ⟨∅, 0, largeCycleThreshold⟩

def len (queue : VerifyQueue H I) : Nat := queue.inner.keys.card

def isEmpty (queue : VerifyQueue H I) : Bool := queue.len = 0

def isFull (queue : VerifyQueue H I) (addTxSize : Nat) : Option Bool := do
  let room ← checkedSub defaultMaxVerifyQueueTxSize queue.totalTxSize
  some (decide (addTxSize ≥ room))

def containsKey (queue : VerifyQueue H I) (id : I) : Bool := id ∈ queue.inner

def removeTx (queue : VerifyQueue H I) (id : I) : VerifyQueue H I × Option (Entry H) :=
  match queue.inner.lookup id with
  | none => (queue, none)
  | some entry =>
    let txSize := entry.inner.tx.serializedSizeInBlock
    -- on underflow the source logs the error and resets the total
    ({ queue with inner := queue.inner.erase id, totalTxSize := (checkedSub queue.totalTxSize txSize).getD 0 },
      some entry.inner)

def removeTxs (queue : VerifyQueue H I) (ids : List I) : VerifyQueue H I :=
  ids.foldl (fun queue id => (queue.removeTx id).1) queue

/-- `iter_by_added_time`: the entries from the earliest added. -/
def iterByAddedTime (queue : VerifyQueue H I) : List (VerifyEntry H I) :=
  ((sortedElems queue.inner.keys).filterMap queue.inner.lookup).insertionSort fun a b => a.addedTime ≤ b.addedTime

def peek (queue : VerifyQueue H I) (onlySmallCycle : Bool) : Option I :=
  (if onlySmallCycle then queue.iterByAddedTime.find? (fun entry => !entry.isLargeCycle)
    else queue.iterByAddedTime.head?).map fun entry => fromTxHash entry.inner.tx.hash

def popFront (queue : VerifyQueue H I) (onlySmallCycle : Bool) : VerifyQueue H I × Option (Entry H) :=
  match queue.peek fromTxHash onlySmallCycle with
  | some shortId => queue.removeTx shortId
  | none => (queue, none)

/-- `add_tx`, with the clock at `now`: `ok false` for a transaction already queued. -/
def addTx (queue : VerifyQueue H I) (tx : TransactionView H) (remote : Option (Nat × Nat)) (now : Nat) :
    Option (VerifyQueue H I × Except (Reject H) Bool) :=
  let id := fromTxHash tx.hash
  if queue.containsKey id then some (queue, .ok false)
  else
    let txSize := tx.serializedSizeInBlock
    let isLargeCycle := (remote.map fun (cycles, _) => decide (cycles > queue.largeCycleThreshold)).getD false
    match queue.isFull txSize with
    | none => none
    | some true => some (queue, .error (.full tx.hash))
    | some false =>
      let inner := queue.inner.insert id ⟨id, now, isLargeCycle, ⟨tx, remote⟩⟩
      -- on overflow the source logs the error and keeps the total
      some ({ queue with inner, totalTxSize := (checkedAdd queue.totalTxSize txSize).getD queue.totalTxSize },
        .ok true)

def clear (queue : VerifyQueue H I) : VerifyQueue H I := { queue with inner := ∅, totalTxSize := 0 }

/-- The calls that change the queue; `add_tx` is taken where it does not panic. -/
inductive Step : VerifyQueue H I → VerifyQueue H I → Prop
  | addTx (queue : VerifyQueue H I) (tx : TransactionView H) (remote : Option (Nat × Nat)) (now : Nat)
      (result : VerifyQueue H I × Except (Reject H) Bool) (added : queue.addTx fromTxHash tx remote now = some result) :
      Step queue result.1
  | removeTx (queue : VerifyQueue H I) (id : I) : Step queue (queue.removeTx id).1
  | removeTxs (queue : VerifyQueue H I) (ids : List I) : Step queue (queue.removeTxs ids)
  | popFront (queue : VerifyQueue H I) (onlySmallCycle : Bool) : Step queue (queue.popFront fromTxHash onlySmallCycle).1
  | clear (queue : VerifyQueue H I) : Step queue queue.clear

def Reachable (largeCycleThreshold : Nat) (queue : VerifyQueue H I) : Prop :=
  Relation.ReflTransGen (Step fromTxHash) (new largeCycleThreshold) queue

end VerifyQueue

end Ckb.TxPool
