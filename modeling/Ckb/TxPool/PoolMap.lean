import Ckb.TxPool.Entry
import Ckb.TxPool.Edges
import Ckb.TxPool.Links

/-!
`PoolMap` (`tx-pool/src/component/pool_map.rs`). Every method mutates the map in place and some
panic (`expect`, `assert!`, a `usize` underflow); here each returns the new map, and `none` where
the source panics. A method that fails with a `Reject` after writing returns the written map with
the error. Sets are iterated in increasing order and the multi-index map's evict-key order breaks
ties by id.
-/

namespace Ckb.TxPool

/-- What the pool map calls outside this crate's readable code: `ProposalShortId::from_tx_hash`
(the first ten bytes of the hash) and the float product `cycles * DEFAULT_BYTES_PER_CYCLES`. -/
structure PoolEnv (H I : Type) where
  fromTxHash : H → I
  cyclesWeight : Nat → Nat

inductive Status where
  | pending
  | gap
  | proposed
deriving DecidableEq, Repr

structure PoolEntry (H I : Type) where
  id : I
  score : AncestorsScoreSortKey
  status : Status
  evictKey : EvictKey
  inner : TxEntry H

inductive EntryOp where
  | add
  | remove

structure PoolMap (H I : Type) where
  entries : FiniteMap I (PoolEntry H I)
  edges : Edges H I
  links : TxLinksMap I
  maxAncestorsCount : Nat
  totalTxSize : Nat
  totalTxCycles : Nat
  pendingCount : Nat
  gapCount : Nat
  proposedCount : Nat

variable {H I : Type} [DecidableEq H] [LinearOrder I] (env : PoolEnv H I)

def TxEntry.proposalShortId (e : TxEntry H) : I := env.fromTxHash e.transaction.hash

namespace PoolMap

def new (maxAncestorsCount : Nat) : PoolMap H I where
  entries := ∅
  edges := .empty
  links := .new
  maxAncestorsCount := maxAncestorsCount
  totalTxSize := 0
  totalTxCycles := 0
  pendingCount := 0
  gapCount := 0
  proposedCount := 0

def getById (s : PoolMap H I) (id : I) : Option (PoolEntry H I) := s.entries.lookup id

def calcAncestors (s : PoolMap H I) (id : I) : Finset I := s.links.calcAncestors id

def calcDescendants (s : PoolMap H I) (id : I) : Finset I := s.links.calcDescendants id

/-- `iter_by_evict_key`: entries from the lowest evict key up. -/
def iterByEvictKey (s : PoolMap H I) : List (PoolEntry H I) :=
  ((sortedElems s.entries.keys).filterMap s.entries.lookup).insertionSort
    fun a b => a.evictKey.cmp b.evictKey ≠ .gt

def removeEntryLinks (s : PoolMap H I) (id : I) : PoolMap H I :=
  let links := match s.links.getParents id with
    | some parents => (sortedElems parents).foldl (fun (links : TxLinksMap I) parent => links.removeChild parent id) s.links
    | none => s.links
  let links := match links.getChildren id with
    | some children => (sortedElems children).foldl (fun (links : TxLinksMap I) child => links.removeParent child id) links
    | none => links
  { s with links := links.remove id }

def updateAncestorsIndexKey (s : PoolMap H I) (child : TxEntry H) (op : EntryOp) : PoolMap H I :=
  let ancestors := s.links.calcAncestors (child.proposalShortId env)
  { s with
    entries := (sortedElems ancestors).foldl (fun entries ancId =>
      entries.modify ancId fun e =>
        let inner := match op with
          | .remove => e.inner.subDescendantWeight child
          | .add => e.inner.addDescendantWeight child
        { e with inner := inner, evictKey := inner.asEvictKey env.cyclesWeight }) s.entries }

def updateDescendantsIndexKey (s : PoolMap H I) (parent : TxEntry H) (op : EntryOp) : PoolMap H I :=
  let descendants := s.links.calcDescendants (parent.proposalShortId env)
  { s with
    entries := (sortedElems descendants).foldl (fun entries descId =>
      entries.modify descId fun e =>
        let inner := match op with
          | .remove => e.inner.subAncestorWeight parent
          | .add => e.inner.addAncestorWeight parent
        { e with inner := inner, score := inner.asScoreKey env.cyclesWeight }) s.entries }

/-- The input loop of `record_entry_edges`: stops at the first double spend, keeping the inputs
recorded before it. -/
def recordInputs (txid : I) : List (OutPoint H) → Edges H I → Edges H I × Option (Reject H I)
  | [], edges => (edges, none)
  | input :: rest, edges =>
    match edges.insertInput input txid with
    | .error reject => (edges, some reject)
    | .ok edges => recordInputs txid rest edges

def recordEntryEdges (s : PoolMap H I) (entry : TxEntry H) : PoolMap H I × Option (Reject H I) :=
  let txShortId := entry.proposalShortId env
  match recordInputs txShortId entry.transaction.inputPts s.edges with
  | (edges, some reject) => ({ s with edges := edges }, some reject)
  | (edges, none) =>
    let edges := entry.relatedDepOutPoints.foldl (fun edges d => edges.insertDeps d txShortId) edges
    let headerDeps := entry.transaction.headerDeps
    let edges := if headerDeps = [] then edges
      else { edges with headerDeps := edges.headerDeps.insert txShortId headerDeps }
    ({ s with edges := edges }, none)

def insertEntry (s : PoolMap H I) (entry : TxEntry H) (status : Status) : PoolMap H I :=
  let txShortId := entry.proposalShortId env
  { s with
    entries := s.entries.insert txShortId
      { id := txShortId
        score := entry.asScoreKey env.cyclesWeight
        status := status
        inner := entry
        evictKey := entry.asEvictKey env.cyclesWeight } }

/-- One output's contribution to the children of a new entry: the in-pool transactions that use it
as a cell dep or spend it. -/
def collectChild (edges : Edges H I) (children : Finset I) (o : OutPoint H) : Finset I :=
  let children := match edges.deps.lookup o with
    | some ids => children ∪ ids
    | none => children
  match edges.inputs.lookup o with
  | some id => insert id children
  | none => children

def collectChildren (edges : Edges H I) (outputs : List (OutPoint H)) : Finset I :=
  outputs.foldl (collectChild edges) ∅

def recordEntryDescendants (s : PoolMap H I) (entry : TxEntry H) : PoolMap H I :=
  let txShortId := entry.proposalShortId env
  let children := collectChildren s.edges entry.transaction.outputPts
  let s := if children = ∅ then s else
    let links := (sortedElems children).foldl (fun links child => links.addParent child txShortId) s.links
    let links : TxLinksMap I :=
      ⟨links.inner.modify txShortId fun l => { l with children := l.children ∪ children }⟩
    updateDescendantsIndexKey env { s with links := links } entry .add
  updateAncestorsIndexKey env s entry .add

/-- `get_tx_ancenstors`: the ancestors, the parents, and the parents that hold a cell dep the
transaction spends. -/
def getTxAncenstors (s : PoolMap H I) (tx : TransactionView H) : Finset I × Finset I × Finset I :=
  let (parents, cellRefParents) := tx.inputPts.foldl (fun (acc : Finset I × Finset I) inputPt =>
      let acc := match s.edges.deps.lookup inputPt with
        | some deps => (acc.1 ∪ deps, acc.2 ∪ deps)
        | none => acc
      let id := env.fromTxHash inputPt.txHash
      if id ∈ s.links.inner then (insert id acc.1, acc.2) else acc) (∅, ∅)
  let parents := tx.cellDepPts.foldl (fun parents depPt =>
      let id := env.fromTxHash depPt.txHash
      if id ∈ s.links.inner then insert id parents else parents) parents
  (s.links.calcRelationIds parents .parents, parents, cellRefParents)

/-- `_record_ancestors`; `get_by_id_checked` panics on an ancestor that is not in the pool. -/
def recordAncestors (s : PoolMap H I) (entry : TxEntry H) (ancestors parents : Finset I) :
    Option (PoolMap H I × TxEntry H) := do
  let entry ← (sortedElems ancestors).foldlM (fun entry ancestorId =>
    (s.entries.lookup ancestorId).map fun ancestor => entry.addAncestorWeight ancestor.inner) entry
  let shortId := entry.proposalShortId env
  let links := (sortedElems parents).foldl (fun links parent => links.addChild parent shortId) s.links
  pure ({ s with links := links.addLink shortId ⟨parents, ∅⟩ }, entry)

/-- `track_entry_statics`, with its `usize` arithmetic and its `assert_eq!`. -/
def trackEntryStatics (s : PoolMap H I) (remove add : Option Status) : Option (PoolMap H I) := do
  let s ← match remove with
    | some .pending => if s.pendingCount = 0 then none else some { s with pendingCount := s.pendingCount - 1 }
    | some .gap => if s.gapCount = 0 then none else some { s with gapCount := s.gapCount - 1 }
    | some .proposed =>
      if s.proposedCount = 0 then none else some { s with proposedCount := s.proposedCount - 1 }
    | none => some s
  let s ← match add with
    | some .pending => if s.pendingCount = u64Max then none else some { s with pendingCount := s.pendingCount + 1 }
    | some .gap => if s.gapCount = u64Max then none else some { s with gapCount := s.gapCount + 1 }
    | some .proposed =>
      if s.proposedCount = u64Max then none else some { s with proposedCount := s.proposedCount + 1 }
    | none => some s
  if s.pendingCount + s.gapCount + s.proposedCount = s.entries.keys.card then some s else none

/-- `update_stat_for_add_tx`: an overflowing `checked_add` keeps the old total. -/
def updateStatForAddTx (s : PoolMap H I) (txSize cycles : Nat) : PoolMap H I :=
  { s with
    totalTxSize := (checkedAdd s.totalTxSize txSize).getD s.totalTxSize
    totalTxCycles := (checkedAdd s.totalTxCycles cycles).getD s.totalTxCycles }

/-- `update_stat_for_remove_tx`: an underflowing `checked_sub` gives zero. -/
def updateStatForRemoveTx (s : PoolMap H I) (txSize cycles : Nat) : PoolMap H I :=
  { s with
    totalTxSize := (checkedSub s.totalTxSize txSize).getD 0
    totalTxCycles := (checkedSub s.totalTxCycles cycles).getD 0 }

def removeEntryEdges (s : PoolMap H I) (entry : TxEntry H) : PoolMap H I :=
  let edges := entry.transaction.inputPts.foldl (fun edges i => (edges.removeInput i).2) s.edges
  let id := entry.proposalShortId env
  let edges := entry.relatedDepOutPoints.foldl (fun edges d => edges.deleteTxidByDep d id) edges
  { s with edges := { edges with headerDeps := edges.headerDeps.erase id } }

def removeEntry (s : PoolMap H I) (id : I) : Option (PoolMap H I × Option (TxEntry H)) :=
  match s.entries.lookup id with
  | none => some (s, none)
  | some entry => do
    let s := { s with entries := s.entries.erase id }
    let s := updateAncestorsIndexKey env s entry.inner .remove
    let s := updateDescendantsIndexKey env s entry.inner .remove
    let s := removeEntryEdges env s entry.inner
    let s := removeEntryLinks s id
    let s ← trackEntryStatics s (some entry.status) none
    pure (updateStatForRemoveTx s entry.inner.size entry.inner.cycles, some entry.inner)

/-- `remove_entry_and_descendants`: the links of every removed id go first, so that removing one
entry does not touch the aggregates of the others. -/
def removeEntryAndDescendants (s : PoolMap H I) (id : I) : Option (PoolMap H I × List (TxEntry H)) :=
  let removedIds := id :: sortedElems (s.calcDescendants id)
  let s := removedIds.foldl removeEntryLinks s
  removedIds.foldlM (fun (acc : PoolMap H I × List (TxEntry H)) removedId => do
    let (s, removed) ← removeEntry env acc.1 removedId
    pure (s, acc.2 ++ removed.toList)) (s, [])

/-- The eviction loop of `check_and_record_ancestors`. -/
def evictLoop (maxAncestorsCount : Nat) :
    List I → PoolMap H I → Nat → Finset I → List (TxEntry H) →
      Option (PoolMap H I × Nat × Finset I × List (TxEntry H))
  | [], s, count, parents, evicted => some (s, count, parents, evicted)
  | nextId :: rest, s, count, parents, evicted =>
    if maxAncestorsCount < count then do
      let (s, removed) ← removeEntryAndDescendants env s nextId
      evictLoop maxAncestorsCount rest s (count - 1) (parents.erase nextId) (evicted ++ removed)
    else some (s, count, parents, evicted)

def checkAndRecordAncestors (s : PoolMap H I) (entry : TxEntry H) :
    Option (PoolMap H I × TxEntry H × Except (Reject H I) (List (TxEntry H))) := do
  let (ancestors, parents, cellRefParents) := getTxAncenstors env s entry.transaction
  let ancestorsCount := ancestors.card + 1
  if ancestorsCount ≤ s.maxAncestorsCount then
    let (s, entry) ← recordAncestors env s entry ancestors parents
    pure (s, entry, .ok [])
  else if ancestorsCount - cellRefParents.card ≤ s.maxAncestorsCount then
    let candidates := ((iterByEvictKey s).filter (·.id ∈ cellRefParents)).map (·.id)
    let (s, _, parents, evicted) ←
      evictLoop env s.maxAncestorsCount candidates s ancestorsCount parents []
    let ancestors := s.links.calcRelationIds parents .parents
    if ancestors.card < s.maxAncestorsCount then
      let (s, entry) ← recordAncestors env s entry ancestors parents
      pure (s, entry, .ok evicted)
    else none
  else pure (s, entry, .error .exceededMaximumAncestorsCount)

/-- `add_entry`: `Ok (false, _)` when the id is already in the pool. -/
def addEntry (s : PoolMap H I) (entry : TxEntry H) (status : Status) :
    Option (PoolMap H I × Except (Reject H I) (Bool × List (TxEntry H))) :=
  if entry.proposalShortId env ∈ s.entries then some (s, .ok (false, [])) else do
    let (s, entry, recorded) ← checkAndRecordAncestors env s entry
    match recorded with
    | .error reject => pure (s, .error reject)
    | .ok evicts =>
      match recordEntryEdges env s entry with
      | (s, some reject) => pure (s, .error reject)
      | (s, none) =>
        let s := insertEntry env s entry status
        let s := recordEntryDescendants env s entry
        let s ← trackEntryStatics s none (some status)
        pure (updateStatForAddTx s entry.size entry.cycles, .ok (true, evicts))

/-- `set_entry`; the `expect` panics when the id is not in the pool. -/
def setEntry (s : PoolMap H I) (id : I) (status : Status) : Option (PoolMap H I) :=
  match s.entries.lookup id with
  | none => none
  | some e => trackEntryStatics { s with entries := s.entries.insert id { e with status := status } }
      (some e.status) (some status)

def resolveConflictHeaderDep (s : PoolMap H I) (headers : Finset H) :
    Option (PoolMap H I × List (TxEntry H × Reject H I)) :=
  let ids := (sortedElems s.edges.headerDeps.keys).filterMap fun txId =>
    match s.edges.headerDeps.lookup txId with
    | some deps => (deps.find? (· ∈ headers)).map fun hash => (hash, txId)
    | none => none
  ids.foldlM (fun (acc : PoolMap H I × List (TxEntry H × Reject H I)) (blkHash, id) => do
    let (s, entries) ← removeEntryAndDescendants env acc.1 id
    pure (s, acc.2 ++ entries.map fun entry => (entry, .resolve (.invalidHeader blkHash)))) (s, [])

/-- Remove each listed id with its descendants, recording `reject` for every removed entry. -/
def removeAllWithDescendants (reject : Reject H I) :
    List I → PoolMap H I × List (TxEntry H × Reject H I) →
      Option (PoolMap H I × List (TxEntry H × Reject H I))
  | [], acc => some acc
  | id :: rest, acc => do
    let (s, entries) ← removeEntryAndDescendants env acc.1 id
    removeAllWithDescendants reject rest (s, acc.2 ++ entries.map fun entry => (entry, reject))

/-- The first half of the loop body of `resolve_conflict`: the spender of `i` leaves with its
descendants. -/
def resolveInputSpender (acc : PoolMap H I × List (TxEntry H × Reject H I)) (i : OutPoint H) :
    Option (PoolMap H I × List (TxEntry H × Reject H I)) :=
  let (spender, edges) := acc.1.edges.removeInput i
  match spender with
  | some id => removeAllWithDescendants env (.resolve (.dead i)) [id] ({ acc.1 with edges := edges }, acc.2)
  | none => pure ({ acc.1 with edges := edges }, acc.2)

/-- The second half: the transactions using `i` as a cell dep leave with their descendants. -/
def resolveInputDeps (acc : PoolMap H I × List (TxEntry H × Reject H I)) (i : OutPoint H) :
    Option (PoolMap H I × List (TxEntry H × Reject H I)) :=
  let (deps, edges) := acc.1.edges.removeDeps i
  match deps with
  | some x => removeAllWithDescendants env (.resolve (.dead i)) (sortedElems x) ({ acc.1 with edges := edges }, acc.2)
  | none => pure ({ acc.1 with edges := edges }, acc.2)

def resolveConflict (s : PoolMap H I) (tx : TransactionView H) :
    Option (PoolMap H I × List (TxEntry H × Reject H I)) :=
  tx.inputPts.foldlM (fun acc i => do
    let acc ← resolveInputSpender env acc i
    resolveInputDeps env acc i) (s, [])

end PoolMap

end Ckb.TxPool
