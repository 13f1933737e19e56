import Ckb.TxPool.Pool
import Ckb.TxPool.SortKey

/-!
`CommitTxsScanner` (`tx-pool/src/component/commit_txs_scanner.rs`): the proposed entries
`package_txs` puts into a block. The scanner walks the proposed entries from the best score down
and keeps the entries whose ancestors it has already packaged, with their ancestors' weights
taken off, in `modified_entries`; each round evaluates the better of the two sources and packages
the entry with its proposed ancestors that are not yet in the block, when the entry's ancestors'
size and cycles fit.

The loop is given a number of rounds. The score index breaks ties by id where the source's
multi-index maps break them by slab position, `sort_unstable_by_key` is a stable sort, and the
`debug_assert!`s, which release builds skip, are left out.
-/

namespace Ckb.TxPool

variable {H I : Type} [DecidableEq H] [LinearOrder I] (env : PoolEnv H I)

def maxConsecutiveFailures : Nat := 500

namespace PoolMap

def get (s : PoolMap H I) (id : I) : Option (TxEntry H) := (s.entries.lookup id).map (·.inner)

def getProposed (s : PoolMap H I) (id : I) : Option (TxEntry H) :=
  match s.entries.lookup id with
  | some entry => if entry.status = .proposed then some entry.inner else none
  | none => none

def hasProposed (s : PoolMap H I) (id : I) : Bool := (s.getProposed id).isSome

/-- `score_sorted_iter_by_status`: the entries of the status, from the highest score down. -/
def scoreSortedIterByStatus (s : PoolMap H I) (status : Status) : List (TxEntry H) :=
  (((sortedElems s.entries.keys).filterMap s.entries.lookup).insertionSort
      fun a b => a.score.cmp b.score ≠ some .lt).filterMap
    fun entry => if entry.status = status then some entry.inner else none

def sortedProposedIter (s : PoolMap H I) : List (TxEntry H) := s.scoreSortedIterByStatus .proposed

end PoolMap

/-- `Ord for TxEntry`, which compares the score keys. `cmp` is `none` only on a `u128` overflow,
which the `u64` fields of an entry rule out. -/
def TxEntry.scoreGt (a b : TxEntry H) : Bool :=
  (a.asScoreKey env.cyclesWeight).cmp (b.asScoreKey env.cyclesWeight) = some .gt

/-- `next_best_entry` of `MultiIndexModifiedTxMap`: the entry of the highest score, the later of
equal ones. -/
def nextBestEntry (modifiedEntries : FiniteMap I (TxEntry H)) : Option (TxEntry H) :=
  ((sortedElems modifiedEntries.keys).filterMap modifiedEntries.lookup).foldl
    (fun best entry => match best with
      | some best => if best.scoreGt env entry then some best else some entry
      | none => some entry)
    none

/-- `insert_entry`, under the entry's short id. -/
def insertModified (modifiedEntries : FiniteMap I (TxEntry H)) (entry : TxEntry H) :
    FiniteMap I (TxEntry H) :=
  modifiedEntries.insert (entry.proposalShortId env) entry

/-- `LinkedHashMap::from_iter` over the package, by short id: an id met again takes the new entry
and moves to the end. -/
def linkedHashMapOf (package : List (TxEntry H)) : List (I × TxEntry H) :=
  package.foldl (fun map entry =>
    map.filter (·.1 ≠ entry.proposalShortId env) ++ [(entry.proposalShortId env, entry)]) []

/-- The scanner and the locals of the loop of `txs_to_commit`: the proposed entries the peekable
iterator has not passed yet, and the size and cycles packaged so far. -/
structure ScanState (H I : Type) where
  iter : List (TxEntry H)
  entries : List (TxEntry H)
  modifiedEntries : FiniteMap I (TxEntry H)
  fetchedTxs : Finset I
  failedTxs : Finset I
  size : Nat
  cycles : Nat
  consecutiveFailed : Nat

namespace ScanState

/-- `CommitTxsScanner::new` and the start of `txs_to_commit`. -/
def new (pool : PoolMap H I) : ScanState H I :=
  ⟨pool.sortedProposedIter, [], ∅, ∅, ∅, 0, 0, 0⟩

def skipProposedEntry (state : ScanState H I) (shortId : I) : Bool :=
  decide (shortId ∈ state.fetchedTxs) || decide (shortId ∈ state.modifiedEntries) ||
    decide (shortId ∈ state.failedTxs)

/-- The entry a round evaluates, whether it comes from `modified_entries`, and the iterator after
it; `none` when both sources are exhausted. -/
def candidate (state : ScanState H I) : Option (TxEntry H × Bool × List (TxEntry H)) :=
  match state.iter, nextBestEntry env state.modifiedEntries with
  | entry :: rest, some bestModified =>
    if bestModified.scoreGt env entry then some (bestModified, true, entry :: rest)
    else some (entry, false, rest)
  | entry :: rest, none => some (entry, false, rest)
  | [], some bestModified => some (bestModified, true, [])
  | [], none => none

def retrieveEntry (pool : PoolMap H I) (state : ScanState H I) (shortId : I) : Option (TxEntry H) :=
  (state.modifiedEntries.lookup shortId).or (pool.getProposed shortId)

/-- The closure `only_unconfirmed`. -/
def onlyUnconfirmed (pool : PoolMap H I) (state : ScanState H I) (shortId : I) : Option (TxEntry H) :=
  if shortId ∈ state.fetchedTxs then none else state.retrieveEntry pool shortId

/-- The proposed ancestors of `tx_entry` not yet fetched, as `only_unconfirmed` retrieves them,
sorted by `ancestors_count`. -/
def ancestors (pool : PoolMap H I) (state : ScanState H I) (txEntry : TxEntry H) : List (TxEntry H) :=
  let ancestorsIds := pool.calcAncestors (txEntry.proposalShortId env)
  (((sortedElems ancestorsIds).filter (pool.hasProposed ·)).filterMap (state.onlyUnconfirmed pool)).insertionSort
    fun a b => a.ancestorsCount ≤ b.ancestorsCount

/-- The package of `tx_entry`: its ancestors, then the entry itself, by short id. -/
def package (pool : PoolMap H I) (state : ScanState H I) (txEntry : TxEntry H) : List (I × TxEntry H) :=
  linkedHashMapOf env (state.ancestors env pool txEntry ++ [txEntry])

/-- One packaged entry: fetched, counted, pushed, and taken out of `modified_entries`. -/
def fetch (state : ScanState H I) (packaged : I × TxEntry H) : ScanState H I :=
  { state with
    fetchedTxs := insert packaged.1 state.fetchedTxs
    cycles := saturatingAdd state.cycles packaged.2.cycles
    size := saturatingAdd state.size packaged.2.size
    entries := state.entries ++ [packaged.2]
    modifiedEntries := state.modifiedEntries.erase packaged.1 }

end ScanState

/-- One descendant in `update_modified_entries`: taken from `modified_entries`, or else from the
pool, with the packaged entry's weight taken off its ancestors' weight. -/
def updateModifiedDescendant (pool : PoolMap H I) (entry : TxEntry H)
    (modifiedEntries : FiniteMap I (TxEntry H)) (descId : I) : FiniteMap I (TxEntry H) :=
  match (modifiedEntries.lookup descId).or (pool.get descId) with
  | some desc => insertModified env (modifiedEntries.erase descId) (desc.subAncestorWeight entry)
  | none => modifiedEntries

/-- The proposed descendants of `added` outside the package `alreadyAdded`. -/
def modifiedDescendants (pool : PoolMap H I) (alreadyAdded : List (I × TxEntry H)) (added : I) : List I :=
  (sortedElems (pool.calcDescendants added)).filter
    fun descId => descId ∉ alreadyAdded.map (·.1) ∧ pool.hasProposed descId = true

/-- One packaged entry in `update_modified_entries`. -/
def updateModifiedAdded (pool : PoolMap H I) (alreadyAdded : List (I × TxEntry H))
    (modifiedEntries : FiniteMap I (TxEntry H)) (added : I × TxEntry H) : FiniteMap I (TxEntry H) :=
  (modifiedDescendants pool alreadyAdded added.1).foldl (updateModifiedDescendant env pool added.2) modifiedEntries

/-- `update_modified_entries`: the proposed descendants of each packaged entry outside the package
get the entry's weight taken off. -/
def updateModifiedEntries (pool : PoolMap H I) (alreadyAdded : List (I × TxEntry H))
    (modifiedEntries : FiniteMap I (TxEntry H)) : FiniteMap I (TxEntry H) :=
  alreadyAdded.foldl (updateModifiedAdded env pool alreadyAdded) modifiedEntries

/-- The round of `txs_to_commit` that packages `tx_entry` with its ancestors. -/
def ScanState.packageRound (pool : PoolMap H I) (state : ScanState H I) (iter : List (TxEntry H))
    (txEntry : TxEntry H) : ScanState H I :=
  let ancestors := state.package env pool txEntry
  let fetched := ancestors.foldl ScanState.fetch { state with iter }
  { fetched with modifiedEntries := updateModifiedEntries env pool ancestors fetched.modifiedEntries }

/-- A round of `txs_to_commit` after the skip check: the candidate fails, with a `break` after
too many failures, or is packaged; with no candidate left the loop breaks. The source records a
failed candidate before it checks the count, which a `break` makes invisible. -/
def ScanState.evaluate (pool : PoolMap H I) (sizeLimit cyclesLimit : Nat) (state : ScanState H I) :
    Option (ScanState H I) :=
  match state.candidate env with
  | none => none
  | some (txEntry, usingModified, iter) =>
    let shortId := txEntry.proposalShortId env
    let nextSize := saturatingAdd state.size txEntry.ancestorsSize
    let nextCycles := saturatingAdd state.cycles txEntry.ancestorsCycles
    if nextCycles > cyclesLimit ∨ nextSize > sizeLimit then
      let consecutiveFailed := state.consecutiveFailed + 1
      if consecutiveFailed > maxConsecutiveFailures then none
      else if usingModified then
        some { state with
          iter, consecutiveFailed
          modifiedEntries := state.modifiedEntries.erase shortId
          failedTxs := insert shortId state.failedTxs }
      else some { state with iter, consecutiveFailed }
    else some (state.packageRound env pool iter txEntry)

/-- One round of the loop of `txs_to_commit`; `none` is a `break`. -/
def ScanState.round (pool : PoolMap H I) (sizeLimit cyclesLimit : Nat) (state : ScanState H I) :
    Option (ScanState H I) :=
  match state.iter with
  | entry :: rest =>
    if state.skipProposedEntry (entry.proposalShortId env) then some { state with iter := rest }
    else state.evaluate env pool sizeLimit cyclesLimit
  | [] => state.evaluate env pool sizeLimit cyclesLimit

/-- The loop of `txs_to_commit`, for at most `rounds` rounds. -/
def ScanState.loop (pool : PoolMap H I) (sizeLimit cyclesLimit : Nat) :
    Nat → ScanState H I → Rounds (ScanState H I)
  | 0, _ => .unfinished
  | rounds + 1, state =>
    match state.round env pool sizeLimit cyclesLimit with
    | none => .finished state
    | some next => ScanState.loop pool sizeLimit cyclesLimit rounds next

/-- `CommitTxsScanner::new(pool).txs_to_commit(size_limit, cycles_limit)`, given `rounds` rounds
of its loop: the packaged entries, their size and their cycles. -/
def txsToCommit (pool : PoolMap H I) (sizeLimit cyclesLimit rounds : Nat) :
    Rounds (List (TxEntry H) × Nat × Nat) :=
  (ScanState.loop env pool sizeLimit cyclesLimit rounds (ScanState.new pool)).map
    fun state => (state.entries, state.size, state.cycles)

end Ckb.TxPool
