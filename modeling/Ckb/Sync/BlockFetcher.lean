import Ckb.Sync.Locator
import Ckb.Support.Chunks

/-!
Block download selection (`sync/src/synchronizer/block_fetcher.rs`). `BlockFetcher::fetch` picks
the blocks to request from one peer. After its guards it scans windows of the peer's best chain
from `start` up: each window reads the ancestor at its highest number and walks down through the
parents, inserting every block neither stored nor received into `InflightBlocks` for the peer and
keeping those whose insert is new. A stored block ends the window and moves `end` to a download
window above it. The chosen headers are sorted by number and sent in chunks of
`INIT_BLOCKS_IN_TRANSIT_PER_PEER`.

`FetchContext` is what the fetcher reads besides the inflight blocks: the tips, the peer's best
known header after its unknown header list is taken, whether that header is better than the tip,
the result of `update_last_common_header`, the header views with the fast scanners of both
ancestor reads, the block statuses and the pending compact blocks, at one clock reading. The
`InflightBlocks` are threaded through the calls: a `?` inside the loops returns `None` with the
inserts made so far kept.
-/

namespace Ckb.HeaderIndexView

def numberAndHash {H : Type} (header : HeaderIndexView H) : Sync.BlockNumberAndHash H := ⟨header.number, header.hash⟩

end Ckb.HeaderIndexView

namespace Ckb.Sync

def blockDownloadWindow : Nat := 1024 * 8

def checkPointWindow : Nat := maxBlocksInTransitPerPeer * 4

/-- `BlockStatus`, a set of bits. -/
structure BlockStatus where
  bits : Nat
deriving DecidableEq, Repr

namespace BlockStatus

def headerValid : BlockStatus := ⟨1⟩

def blockReceived : BlockStatus := ⟨1 ||| headerValid.bits <<< 1⟩

def blockStored : BlockStatus := ⟨1 ||| blockReceived.bits <<< 1⟩

def blockValid : BlockStatus := ⟨1 ||| blockStored.bits <<< 1⟩

/-- `contains`: every bit of `other` is set. -/
def contains (status other : BlockStatus) : Bool := status.bits &&& other.bits == other.bits

end BlockStatus

inductive IBDState where
  | In
  | Out
deriving DecidableEq, Repr

structure FetchContext (P H : Type) where
  peer : P
  ibd : IBDState
  tipNumber : Nat
  unverifiedTipNumber : Nat
  bestKnown : Option (BlockNumberAndHash H)
  /-- `best_known.is_better_than(active_chain.total_difficulty())`. -/
  betterThanTip : Bool
  /-- `update_last_common_header(best_known)`. -/
  lastCommon : Option (BlockNumberAndHash H)
  active : ActiveChain H
  /-- The fast scanner of `get_ancestor_with_unverified`, over the unverified chain. -/
  unverifiedScanner : Nat → Nat × H → Option (HeaderIndexView H)
  getBlockStatus : H → BlockStatus
  /-- `compare_with_pending_compact(hash, now)`. -/
  comparePendingCompact : H → Bool
  now : Nat

namespace BlockFetcher

variable {P H : Type} [DecidableEq P] [LinearOrder P] [LinearOrder H] (ctx : FetchContext P H)

/-- The ancestor read of a window: `get_ancestor_with_unverified` during IBD, which walks the same
header views up to the unverified tip. -/
def getAncestor (base : H) (number : Nat) : Option (HeaderIndexView H) :=
  match ctx.ibd with
  | .In => { ctx.active with tipNumber := ctx.unverifiedTipNumber, fastScanner := ctx.unverifiedScanner }.getAncestor
      base number
  | .Out => ctx.active.getAncestor base number

/-- The first number to fetch: above the unverified tip during IBD, else above the last common
header. -/
def start (lastCommon : BlockNumberAndHash H) : Nat :=
  match ctx.ibd with
  | .In => ctx.unverifiedTipNumber + 1
  | .Out => lastCommon.number + 1

/-- A block of a window that is not stored: one neither received nor in flight is inserted for the
peer, during IBD or when no compact block for it is pending, and is fetched when the insert is new. -/
def consider (inflight : InflightBlocks P H) (fetch : List (HeaderIndexView H)) (header : HeaderIndexView H)
    (status : BlockStatus) : InflightBlocks P H × List (HeaderIndexView H) :=
  if status.contains .blockReceived then (inflight, fetch)
  else if ctx.ibd = .In ∨ ctx.comparePendingCompact header.hash = true then
    let (inflight, inserted) := inflight.insert ctx.peer header.numberAndHash ctx.now
    (inflight, if inserted then fetch ++ [header] else fetch)
  else (inflight, fetch)

/-- The `span` turns of a window from `header` down through the parents. A stored block breaks the
loop with `end` moved to a download window above it; `none` is the `?` of a missing parent view. -/
def scanWindow (bestKnownNumber : Nat) :
    Nat → HeaderIndexView H → BlockStatus → InflightBlocks P H → List (HeaderIndexView H) → Nat →
      InflightBlocks P H × Option (List (HeaderIndexView H) × Nat)
  | 0, _, _, inflight, fetch, endNumber => (inflight, some (fetch, endNumber))
  | span + 1, header, status, inflight, fetch, endNumber =>
    if status.contains .blockStored then
      (inflight, some (fetch, min bestKnownNumber (header.number + blockDownloadWindow)))
    else
      let (inflight, fetch) := consider ctx inflight fetch header status
      match ctx.active.getHeaderIndexView header.parentHash false with
      | none => (inflight, none)
      | some parent =>
        scanWindow bestKnownNumber span parent (ctx.getBlockStatus header.parentHash) inflight fetch endNumber

/-- The window loop: while fewer than `n_fetch` headers are chosen and `start ≤ end`, scan the next
`span` numbers from `start` up. `none` is a missing ancestor or parent, or no fuel left. -/
def fetchWindows (bestKnown : BlockNumberAndHash H) (nFetch : Nat) :
    Nat → Nat → InflightBlocks P H → List (HeaderIndexView H) → Nat →
      InflightBlocks P H × Option (List (HeaderIndexView H))
  | 0, _, inflight, _, _ => (inflight, none)
  | fuel + 1, start, inflight, fetch, endNumber =>
    if fetch.length < nFetch ∧ start ≤ endNumber then
      let span := min (endNumber - start + 1) (nFetch - fetch.length)
      match getAncestor ctx bestKnown.hash (start + span - 1) with
      | none => (inflight, none)
      | some header =>
        match scanWindow ctx bestKnown.number span header (ctx.getBlockStatus header.hash) inflight fetch endNumber with
        | (inflight, none) => (inflight, none)
        | (inflight, some (fetch, endNumber)) => fetchWindows bestKnown nFetch fuel (start + span) inflight fetch endNumber
    else (inflight, some fetch)

/-- `fetch`, on fuel of one window for each number up to the best known one. -/
def fetch (inflight : InflightBlocks P H) (fetchEnd : Nat) : InflightBlocks P H × Option (List (List H)) :=
  if ctx.unverifiedTipNumber ≥ ctx.tipNumber + blockDownloadWindow * 9 then (inflight, none)
  -- `reached_inflight_limit`
  else if inflight.peerCanFetchCount ctx.peer = 0 then (inflight, none)
  else
    match ctx.bestKnown with
    | none => (inflight, none)
    | some bestKnown =>
      if !ctx.betterThanTip then (inflight, none)
      else
        match ctx.lastCommon with
        | none => (inflight, none)
        | some lastCommon =>
          if lastCommon = bestKnown then (inflight, none)
          else if ctx.ibd = .In ∧ bestKnown.number ≤ ctx.unverifiedTipNumber then (inflight, none)
          else
            let start := start ctx lastCommon
            let endNumber := min fetchEnd (min bestKnown.number (start + blockDownloadWindow))
            let nFetch := min (endNumber - start + 1) (inflight.peerCanFetchCount ctx.peer)
            match fetchWindows ctx bestKnown nFetch (bestKnown.number + 1) start inflight [] endNumber with
            | (inflight, none) => (inflight, none)
            | (inflight, some fetch) =>
              let fetch := fetch.mergeSort fun a b => a.number ≤ b.number
              let shouldMark := (fetch.getLast?.map fun header =>
                decide (header.number - checkPointWindow > ctx.unverifiedTipNumber)).getD false
              let inflight := if shouldMark then inflight.markSlowBlock ctx.unverifiedTipNumber ctx.now else inflight
              (inflight, some ((fetch.chunks initBlocksInTransitPerPeer).map fun headers => headers.map (·.hash)))

end BlockFetcher

end Ckb.Sync
