import Ckb.Types.Core
import Ckb.Support.FiniteMap

/-!
`InflightBlocks` (`sync/src/types/mod.rs`): the blocks requested from peers and not yet received.
Each peer has a `DownloadScheduler` with the blocks requested from it and a task count; each
requested block has an `InflightState` naming the peer and the time of the request;
`trace_number` marks requests that may be stuck. The clock (`unix_time_as_millis`) is an argument
of the operations that read it.

The `BTreeMap` of states is a finite map walked in key order, a `break` at the first key above a
bound being a `takeWhile`. `HashMap`s are finite maps; where the source walks one (`retain`, the
loop over a scheduler's hashes) the walk is in key order, and its result does not depend on the
order. The `!trace.is_empty()` guards before `trace.remove` only skip a removal from an empty map.
-/

namespace Ckb.Sync

def initBlocksInTransitPerPeer : Nat := 32

def maxBlocksInTransitPerPeer : Nat := 128

/-- `BLOCK_DOWNLOAD_TIMEOUT`, in milliseconds. -/
def blockDownloadTimeout : Nat := 30 * 1000

def maxOutboundPeersToProtectFromDisconnect : Nat := 4

def timeTraceSize : Nat := maxBlocksInTransitPerPeer * 4

def fastIndex : Nat := timeTraceSize / 3

def normalIndex : Nat := timeTraceSize * 4 / 5

def lowIndex : Nat := timeTraceSize * 9 / 10

structure BlockNumberAndHash (H : Type) where
  number : Nat
  hash : H
deriving DecidableEq, Repr

namespace BlockNumberAndHash

variable {H : Type}

/-- The derived `Ord`: by number, then by hash. -/
def lexKey (key : BlockNumberAndHash H) : ℕ ×ₗ H := toLex (key.number, key.hash)

theorem lexKey_injective : Function.Injective (lexKey : BlockNumberAndHash H → ℕ ×ₗ H) := by
  intro a b same
  cases a
  cases b
  simp only [lexKey, toLex_inj, Prod.mk.injEq] at same
  rw [same.1, same.2]

instance [LinearOrder H] : LinearOrder (BlockNumberAndHash H) := LinearOrder.lift' lexKey lexKey_injective

end BlockNumberAndHash

structure DownloadScheduler (H : Type) where
  taskCount : Nat
  timeoutCount : Nat
  hashes : Finset (BlockNumberAndHash H)
deriving DecidableEq

namespace DownloadScheduler

variable {H : Type}

instance : Inhabited (DownloadScheduler H) := ⟨⟨initBlocksInTransitPerPeer, 0, ∅⟩⟩

def increase (set : DownloadScheduler H) (num : Nat) : DownloadScheduler H :=
  if set.taskCount < maxBlocksInTransitPerPeer then
    { set with taskCount := min (saturatingAdd set.taskCount num) maxBlocksInTransitPerPeer }
  else set

def decrease (set : DownloadScheduler H) (num : Nat) : DownloadScheduler H :=
  let timeoutCount := saturatingAdd set.taskCount num
  if timeoutCount > 2 then { set with taskCount := set.taskCount - 1, timeoutCount := 0 }
  else { set with timeoutCount := timeoutCount }

def punish (set : DownloadScheduler H) (exp : Nat) : DownloadScheduler H :=
  { set with taskCount := set.taskCount >>> exp }

/-- `can_fetch`: the tasks left after the blocks in flight. -/
def canFetch (set : DownloadScheduler H) : Nat := set.taskCount - set.hashes.card

end DownloadScheduler

structure InflightState (P : Type) where
  peer : P
  timestamp : Nat
deriving DecidableEq

inductive TimeQuantile where
  | minToFast
  | fastToNormal
  | normalToUpper
  | upperToMax
deriving DecidableEq

/-- The task count update of `remove_by_block` for a response time quantile. -/
def DownloadScheduler.adjust {H : Type} (set : DownloadScheduler H) (shouldPunish : Bool) :
    TimeQuantile → DownloadScheduler H
  | .minToFast => set.increase 2
  | .fastToNormal => set.increase 1
  | .normalToUpper => if shouldPunish then set.decrease 1 else set
  | .upperToMax => if shouldPunish then set.decrease 2 else set

structure TimeAnalyzer where
  trace : List Nat
  index : Nat
  fastTime : Nat
  normalTime : Nat
  lowTime : Nat
deriving DecidableEq

namespace TimeAnalyzer

instance : Inhabited TimeAnalyzer := ⟨⟨List.replicate timeTraceSize 0, 0, 1000, 1250, 1500⟩⟩

/-- `push_time`: record a response time; when the trace is full, sort it and move each quantile
halfway to the trace's. -/
def pushTime (analyzer : TimeAnalyzer) (time : Nat) : TimeAnalyzer × TimeQuantile :=
  let analyzer :=
    if analyzer.index < timeTraceSize then
      { analyzer with trace := analyzer.trace.set analyzer.index time, index := analyzer.index + 1 }
    else
      let sorted := analyzer.trace.mergeSort
      { trace := sorted.set 0 time
        index := 1
        fastTime := saturatingAdd analyzer.fastTime (sorted.getD fastIndex 0) >>> 1
        normalTime := saturatingAdd analyzer.normalTime (sorted.getD normalIndex 0) >>> 1
        lowTime := saturatingAdd analyzer.lowTime (sorted.getD lowIndex 0) >>> 1 }
  let quantile :=
    if time ≤ analyzer.fastTime then .minToFast
    else if time ≤ analyzer.normalTime then .fastToNormal
    else if time > analyzer.lowTime then .upperToMax
    else .normalToUpper
  (analyzer, quantile)

end TimeAnalyzer

structure InflightBlocks (P H : Type) where
  downloadSchedulers : FiniteMap P (DownloadScheduler H)
  inflightStates : FiniteMap (BlockNumberAndHash H) (InflightState P)
  traceNumber : FiniteMap (BlockNumberAndHash H) Nat
  restartNumber : Nat
  timeAnalyzer : TimeAnalyzer
  adjustment : Bool
  protectNum : Nat

namespace InflightBlocks

variable {P H : Type} [DecidableEq P] [LinearOrder P] [LinearOrder H]

instance : Inhabited (InflightBlocks P H) :=
  ⟨⟨∅, ∅, ∅, 0, default, true, maxOutboundPeersToProtectFromDisconnect⟩⟩

/-- `peer_can_fetch_count`: a peer with no scheduler may fetch `INIT_BLOCKS_IN_TRANSIT_PER_PEER`. -/
def peerCanFetchCount (s : InflightBlocks P H) (peer : P) : Nat :=
  (s.downloadSchedulers.lookup peer).elim initBlocksInTransitPerPeer DownloadScheduler.canFetch

def markSlowBlock (s : InflightBlocks P H) (tip now : Nat) : InflightBlocks P H :=
  { s with
    traceNumber := ((sortedElems s.inflightStates.keys).takeWhile (·.number ≤ tip + 1)).foldl
      (fun trace key => if key ∈ trace then trace else trace.insert key now) s.traceNumber }

/-- `insert`: `false` when the block is already in flight. -/
def insert (s : InflightBlocks P H) (peer : P) (block : BlockNumberAndHash H) (now : Nat) :
    InflightBlocks P H × Bool :=
  if block ∈ s.inflightStates then (s, false) else
  let scheduler := (s.downloadSchedulers.lookup peer).getD default
  ({ s with
      inflightStates := s.inflightStates.insert block ⟨peer, now⟩
      traceNumber := if block.number ≤ s.restartNumber then s.traceNumber.insert block now else s.traceNumber
      downloadSchedulers := s.downloadSchedulers.insert peer { scheduler with hashes := Insert.insert block scheduler.hashes } },
    block ∉ scheduler.hashes)

/-- `remove_by_peer`: drop the peer's scheduler and the states and traces of its blocks. -/
def removeByPeer (s : InflightBlocks P H) (peer : P) : InflightBlocks P H × Nat :=
  match s.downloadSchedulers.lookup peer with
  | none => (s, 0)
  | some blocks =>
    ({ s with
        downloadSchedulers := s.downloadSchedulers.erase peer
        inflightStates := (sortedElems blocks.hashes).foldl (fun states block => states.erase block) s.inflightStates
        traceNumber := (sortedElems blocks.hashes).foldl (fun trace block => trace.erase block) s.traceNumber },
      blocks.hashes.card)

/-- `remove_by_block`: the block arrived. Its peer's scheduler drops it and, with `adjustment`,
has its task count adjusted by the response time. -/
def removeByBlock (s : InflightBlocks P H) (block : BlockNumberAndHash H) (now : Nat) : InflightBlocks P H × Bool :=
  let shouldPunish := decide (s.downloadSchedulers.keys.card > s.protectNum)
  match s.inflightStates.lookup block with
  | none => (s, false)
  | some state =>
    let s := { s with inflightStates := s.inflightStates.erase block }
    match s.downloadSchedulers.lookup state.peer with
    | none => (s, true)
    | some set =>
      let set := { set with hashes := set.hashes.erase block }
      let pushed := s.timeAnalyzer.pushTime (now - state.timestamp)
      let set := if s.adjustment then set.adjust shouldPunish pushed.2 else set
      ({ s with
          downloadSchedulers := s.downloadSchedulers.insert state.peer set
          timeAnalyzer := if s.adjustment then pushed.1 else s.timeAnalyzer
          traceNumber := s.traceNumber.erase block }, true)

/-- What the first loop of `prune` carries: the schedulers, the trace and the timed-out keys. -/
structure PruneScan (P H : Type) where
  schedulers : FiniteMap P (DownloadScheduler H)
  trace : FiniteMap (BlockNumberAndHash H) Nat
  removeKey : List (BlockNumberAndHash H)

/-- One key of the first loop of `prune`: a request older than the timeout leaves its peer's
scheduler, which is punished when punishing is on. -/
def pruneTimedOut (states : FiniteMap (BlockNumberAndHash H) (InflightState P)) (now : Nat) (punishing : Bool)
    (scan : PruneScan P H) (key : BlockNumberAndHash H) : PruneScan P H :=
  match states.lookup key with
  | none => scan
  | some value =>
    if value.timestamp + blockDownloadTimeout < now then
      { schedulers := scan.schedulers.modify value.peer fun set =>
          let set := { set with hashes := set.hashes.erase key }
          if punishing then set.punish 2 else set
        trace := scan.trace.erase key
        removeKey := scan.removeKey ++ [key] }
    else scan

/-- What `trace.retain` carries: the states, the schedulers and `restart_number`. -/
structure TraceScan (P H : Type) where
  states : FiniteMap (BlockNumberAndHash H) (InflightState P)
  schedulers : FiniteMap P (DownloadScheduler H)
  trace : FiniteMap (BlockNumberAndHash H) Nat
  restartNumber : Nat

/-- One trace entry of `prune`: a trace older than `timeout_limit` removes the request and is
dropped. -/
def pruneTrace (now timeoutLimit : Nat) (punishing : Bool) (scan : TraceScan P H) (key : BlockNumberAndHash H) :
    TraceScan P H :=
  match scan.trace.lookup key with
  | none => scan
  | some time =>
    if now > timeoutLimit + time then
      let removed := match scan.states.lookup key with
        | none => (scan.states, scan.schedulers)
        | some state =>
          (scan.states.erase key, scan.schedulers.modify state.peer fun d =>
            let d := if punishing then d.punish 1 else d
            { d with hashes := d.hashes.erase key })
      { states := removed.1
        schedulers := removed.2
        trace := scan.trace.erase key
        restartNumber := if key.number > scan.restartNumber then key.number else scan.restartNumber }
    else scan

/-- `prune`: drop timed-out requests near the tip, then the schedulers whose task count reached
zero (the peers to disconnect), then the stuck traces with their requests. -/
def prune (s : InflightBlocks P H) (tip now : Nat) : InflightBlocks P H × Finset P :=
  let shouldPunish := decide (s.downloadSchedulers.keys.card > s.protectNum)
  let punishing := shouldPunish && s.adjustment
  let scan := ((sortedElems s.inflightStates.keys).takeWhile (·.number ≤ tip + 20)).foldl
    (pruneTimedOut s.inflightStates now punishing) ⟨s.downloadSchedulers, s.traceNumber, []⟩
  let states := scan.removeKey.foldl (fun states key => states.erase key) s.inflightStates
  let disconnect := (sortedElems scan.schedulers.keys).filter fun peer =>
    (scan.schedulers.lookup peer).any (·.taskCount = 0)
  let schedulers := disconnect.foldl (fun schedulers peer => schedulers.erase peer) scan.schedulers
  let restartNumber := if s.restartNumber ≠ 0 ∧ tip + 1 > s.restartNumber then 0 else s.restartNumber
  let traced := (sortedElems scan.trace.keys).foldl (pruneTrace now s.timeAnalyzer.lowTime punishing)
    ⟨states, schedulers, scan.trace, restartNumber⟩
  ({ s with
      inflightStates := traced.states
      downloadSchedulers := traced.schedulers
      traceNumber := traced.trace
      restartNumber := traced.restartNumber }, disconnect.toFinset)

end InflightBlocks

/-- The calls the synchronizer makes on the inflight blocks. -/
inductive InflightOp (P H : Type) where
  | insert (peer : P) (block : BlockNumberAndHash H) (now : Nat)
  | removeByPeer (peer : P)
  | removeByBlock (block : BlockNumberAndHash H) (now : Nat)
  | prune (tip now : Nat)
  | markSlowBlock (tip now : Nat)

namespace InflightOp

variable {P H : Type} [DecidableEq P] [LinearOrder P] [LinearOrder H]

def run (s : InflightBlocks P H) : InflightOp P H → InflightBlocks P H
  | .insert peer block now => (s.insert peer block now).1
  | .removeByPeer peer => (s.removeByPeer peer).1
  | .removeByBlock block now => (s.removeByBlock block now).1
  | .prune tip now => (s.prune tip now).1
  | .markSlowBlock tip now => s.markSlowBlock tip now

/-- The calls one after another, from a given state. -/
def runAll (s : InflightBlocks P H) (ops : List (InflightOp P H)) : InflightBlocks P H :=
  ops.foldl run s

end InflightOp

end Ckb.Sync
