import Ckb.Types.Core
import Ckb.Spec.NextEpoch

/-!
The orphan transaction pool (`tx-pool/src/component/orphan.rs`): transactions whose inputs are not
known yet, by proposal short id, with `by_out_point` indexing the ids by the out points they spend.
`add_orphan_tx` bounds the pool: it drops the expired entries and then evicts the first entry until
at most `DEFAULT_MAX_ORPHAN_TRANSACTIONS` are left.

The clock `unix_time()` is read by `Entry::new` and again by `limit_size`; both readings are
arguments. The hash maps and sets iterate in increasing order, so "a random orphan" is the one with
the least id. The `expect("bound checked")` of the eviction loop is `none`, and the loop runs on
fuel of one turn per entry.
-/

namespace Ckb.TxPool

def orphanTxExpireTime : Nat := 100 * maxBlockInterval

def defaultMaxOrphanTransactions : Nat := 100

structure OrphanEntry (H : Type) where
  tx : TransactionView H
  peer : Nat
  cycle : Nat
  expiresAt : Nat
deriving DecidableEq, Repr

def OrphanEntry.new {H : Type} (tx : TransactionView H) (peer cycle now : Nat) : OrphanEntry H :=
  ⟨tx, peer, cycle, now + orphanTxExpireTime⟩

structure OrphanPool (H I : Type) where
  entries : FiniteMap I (OrphanEntry H)
  byOutPoint : FiniteMap (OutPoint H) (Finset I)

namespace OrphanPool

variable {H I : Type} [DecidableEq H] [LinearOrder I] (fromTxHash : H → I)

def new : OrphanPool H I := ⟨∅, ∅⟩

def len (pool : OrphanPool H I) : Nat := pool.entries.keys.card

def containsKey (pool : OrphanPool H I) (id : I) : Bool := id ∈ pool.entries

def get (pool : OrphanPool H I) (id : I) : Option (OrphanEntry H) := pool.entries.lookup id

/-- Take `id` out of the set of one out point, dropping the set once it is empty. -/
def unindex (id : I) (byOutPoint : FiniteMap (OutPoint H) (Finset I)) (outPoint : OutPoint H) :
    FiniteMap (OutPoint H) (Finset I) :=
  match byOutPoint.lookup outPoint with
  | some idsSet =>
    let idsSet := idsSet.erase id
    if idsSet = ∅ then byOutPoint.erase outPoint else byOutPoint.insert outPoint idsSet
  | none => byOutPoint

def removeOrphanTx (pool : OrphanPool H I) (id : I) : OrphanPool H I × Option (OrphanEntry H) :=
  match pool.entries.lookup id with
  | none => (pool, none)
  | some entry =>
    (⟨pool.entries.erase id, entry.tx.inputPts.foldl (unindex id) pool.byOutPoint⟩, some entry)

def removeOrphanTxs (pool : OrphanPool H I) (ids : List I) : OrphanPool H I :=
  ids.foldl (fun pool id => (pool.removeOrphanTx id).1) pool

/-- `remove_orphan_tx` of an id, its transaction's hash pushed onto the evicted ones. -/
def evict (state : OrphanPool H I × List H) (id : I) : OrphanPool H I × List H :=
  match state.1.removeOrphanTx id with
  | (pool, some entry) => (pool, state.2 ++ [entry.tx.hash])
  | (pool, none) => (pool, state.2)

/-- The `while` loop of `limit_size`. -/
def evictLoop : Nat → OrphanPool H I × List H → Option (OrphanPool H I × List H)
  | 0, state => some state
  | fuel + 1, state =>
    if state.1.len > defaultMaxOrphanTransactions then
      -- evict a random orphan
      match (sortedElems state.1.entries.keys).head? with
      | some id => evictLoop fuel (evict state id)
      | none => none
    else some state

def limitSize (pool : OrphanPool H I) (now : Nat) : Option (OrphanPool H I × List H) :=
  let expires := (sortedElems pool.entries.keys).filterMap fun id =>
    (pool.entries.lookup id).bind fun entry => if entry.expiresAt ≤ now then some id else none
  let state := expires.foldl evict (pool, [])
  evictLoop state.1.len state

def index (id : I) (byOutPoint : FiniteMap (OutPoint H) (Finset I)) (outPoint : OutPoint H) :
    FiniteMap (OutPoint H) (Finset I) :=
  byOutPoint.insert outPoint (insert id ((byOutPoint.lookup outPoint).getD ∅))

/-- The insertion of `add_orphan_tx`, before `limit_size`. -/
def insertEntry (pool : OrphanPool H I) (id : I) (entry : OrphanEntry H) : OrphanPool H I :=
  ⟨pool.entries.insert id entry, entry.tx.inputPts.foldl (index id) pool.byOutPoint⟩

/-- `add_orphan_tx`, with the clock at `createdAt` for the entry and at `now` for `limit_size`. -/
def addOrphanTx (pool : OrphanPool H I) (tx : TransactionView H) (peer declaredCycle createdAt now : Nat) :
    Option (OrphanPool H I × List H) :=
  let id := fromTxHash tx.hash
  if id ∈ pool.entries then some (pool, [])
  -- DoS prevention: do not allow OrphanPool to grow unbounded
  else limitSize (pool.insertEntry id (OrphanEntry.new tx peer declaredCycle createdAt)) now

def findByPrevious (pool : OrphanPool H I) (tx : TransactionView H) : List I :=
  (tx.outputPts.filterMap pool.byOutPoint.lookup).flatMap sortedElems

/-- The calls that change the pool; `add_orphan_tx` is taken where it does not panic. -/
inductive Step : OrphanPool H I → OrphanPool H I → Prop
  | addOrphanTx (pool : OrphanPool H I) (tx : TransactionView H) (peer declaredCycle createdAt now : Nat)
      (result : OrphanPool H I × List H)
      (added : pool.addOrphanTx fromTxHash tx peer declaredCycle createdAt now = some result) : Step pool result.1
  | removeOrphanTx (pool : OrphanPool H I) (id : I) : Step pool (pool.removeOrphanTx id).1
  | removeOrphanTxs (pool : OrphanPool H I) (ids : List I) : Step pool (pool.removeOrphanTxs ids)

def Reachable (pool : OrphanPool H I) : Prop := Relation.ReflTransGen (Step fromTxHash) new pool

end OrphanPool

end Ckb.TxPool
