import Ckb.Sync.Inflight

/-!
The sync peer states and their two counters (`sync/src/types/mod.rs`, `Synchronizer`).
`n_sync_started` counts the peers whose headers sync is started and `n_protected_outbound_peers`
the outbound peers protected from eviction; each counter is an atomic updated in its own step,
apart from the `DashMap` entry whose state it mirrors.

A call is a `Task`, one constructor for each point between two atomic steps: `Task.step` runs
the next atomic step of a task, with `none` for a failed `assert_ne!`. A system is the peers with
the tasks of the calls in progress; `Step` runs one step of any task or starts a new call, so the
runs of `Step` are the interleavings of the calls. The fields of `PeerState` other than the
flags and the headers sync state are not read by these calls.
-/

namespace Ckb.Sync

/-- `SUSPEND_SYNC_TIME`, in milliseconds. -/
def suspendSyncTime : Nat := 5 * 60 * 1000

/-- `(MAX_BLOCK_INTERVAL + MIN_BLOCK_INTERVAL) / 2`, in seconds. -/
def avgBlockInterval : Nat := (48 + 8) / 2

inductive HeadersSyncState where
  | initialized
  | syncProtocolConnected
  | started
  | suspend (time : Nat)
  | tipSynced (time : Nat)
deriving DecidableEq, Repr

structure PeerFlags where
  isOutbound : Bool
  isWhitelist : Bool
  is2023edition : Bool
  isProtect : Bool
deriving DecidableEq, Repr

instance : Inhabited PeerFlags := ⟨⟨false, false, false, false⟩⟩

structure PeerState where
  peerFlags : PeerFlags
  headersSyncState : HeadersSyncState
deriving DecidableEq, Repr

namespace PeerState

def new (peerFlags : PeerFlags) : PeerState := ⟨peerFlags, .initialized⟩

def chainCanStartSync (state : PeerState) (now : Nat) : Bool :=
  match state.headersSyncState with
  | .initialized => false
  | .syncProtocolConnected => true
  | .started => false
  | .suspend time | .tipSynced time => decide (time < now)

/-- `can_start_sync`: only protected or whitelisted peers during IBD. -/
def canStartSync (state : PeerState) (now : Nat) (ibd : Bool) : Bool :=
  ((state.peerFlags.isProtect || state.peerFlags.isWhitelist) || !ibd) && state.chainCanStartSync now

def syncStarted (state : PeerState) : Bool :=
  match state.headersSyncState with
  | .started => true
  | _ => false

end PeerState

structure Peers (P : Type) where
  state : FiniteMap P PeerState
  nSyncStarted : Nat
  nProtectedOutboundPeers : Nat

namespace Peers

variable {P : Type} [DecidableEq P]

/-- `suspend_sync` and `tip_synced` of `SyncState` on the entry of `peer`, under its guard: a
started state gives its slot back, checked by an `assert_ne!` on the value `fetch_sub` read, and
the headers sync pauses. -/
def pauseSync (peers : Peers P) (peer : P) (paused : HeadersSyncState) : Option (Peers P) :=
  match peers.state.lookup peer with
  | none => some peers
  | some state =>
    if state.syncStarted ∧ peers.nSyncStarted = 0 then none
    else
      some { state := peers.state.insert peer { state with headersSyncState := paused }
             nSyncStarted := if state.syncStarted then peers.nSyncStarted - 1 else peers.nSyncStarted
             nProtectedOutboundPeers := peers.nProtectedOutboundPeers }

def suspendSync (peers : Peers P) (peer : P) (now : Nat) : Option (Peers P) :=
  peers.pauseSync peer (.suspend (now + suspendSyncTime))

def tipSynced (peers : Peers P) (peer : P) (now : Nat) : Option (Peers P) :=
  peers.pauseSync peer (.tipSynced (now + avgBlockInterval * 1000))

end Peers

/-- The calls, each at its first step. -/
inductive Call (P : Type) where
  | syncConnected (peer : P) (isOutbound isWhitelist is2023edition : Bool)
  | relayConnected (peer : P)
  | startSyncHeaders (ibd : Bool) (now : Nat)
  | suspendSync (peer : P) (now : Nat)
  | tipSynced (peer : P) (now : Nat)
  | disconnected (peer : P)
deriving DecidableEq, Repr

/-- A call in progress, before its next atomic step. -/
inductive Task (P : Type) where
  | call (call : Call P)
  /-- `sync_connected` with its protection slot settled, before the entry update. -/
  | syncConnectedEntry (peer : P) (peerFlags : PeerFlags)
  /-- `start_sync_headers` over the peers it listed, before the slot of the first. -/
  | startSyncReserve (ibd : Bool) (peers : List P)
  /-- `start_sync_headers` with a slot reserved for `peer`, before `get_mut`. -/
  | startSyncStart (ibd : Bool) (peer : P) (rest : List P)
  /-- `disconnected` with the state removed, before its `n_sync_started` release. -/
  | releaseSyncStarted (state : PeerState)
  /-- `disconnected` before its `n_protected_outbound_peers` release. -/
  | releaseProtected
deriving DecidableEq, Repr

namespace Task

variable {P : Type} [LinearOrder P]

/-- The rest of `disconnected` for a removed state: release what it counted. -/
def releaseOf (state : PeerState) : Option (Task P) :=
  if state.syncStarted then some (.releaseSyncStarted state)
  else if state.peerFlags.isProtect then some .releaseProtected
  else none

/-- The next atomic step of a task: the peers after it and the task's rest, `none` when an
`assert_ne!` fails. -/
def step (peers : Peers P) : Task P → Option (Peers P × Option (Task P))
  | .call (.syncConnected peer isOutbound isWhitelist is2023edition) =>
    -- `fetch_update` of the protection slot, only for an outbound peer
    let protect := isOutbound && decide (peers.nProtectedOutboundPeers < maxOutboundPeersToProtectFromDisconnect)
    let peers := if protect then { peers with nProtectedOutboundPeers := peers.nProtectedOutboundPeers + 1 } else peers
    some (peers, some (.syncConnectedEntry peer ⟨isOutbound, isWhitelist, is2023edition, protect⟩))
  | .syncConnectedEntry peer peerFlags =>
    -- `and_modify` overwrites the flags and the sync state of an existing entry
    let state := match peers.state.lookup peer with
      | some state => { state with peerFlags, headersSyncState := .syncProtocolConnected }
      | none => { PeerState.new peerFlags with headersSyncState := .syncProtocolConnected }
    some ({ peers with state := peers.state.insert peer state }, none)
  | .call (.relayConnected peer) =>
    if peer ∈ peers.state then some (peers, none)
    else some ({ peers with state := peers.state.insert peer (PeerState.new default) }, none)
  | .call (.startSyncHeaders ibd now) =>
    let listed := (sortedElems peers.state.keys).filter fun peer =>
      (peers.state.lookup peer).any fun state => state.canStartSync now ibd
    if listed = [] then some (peers, none) else some (peers, some (.startSyncReserve ibd listed))
  | .startSyncReserve _ [] => some (peers, none)
  | .startSyncReserve ibd (peer :: rest) =>
    -- only one peer syncs headers during IBD
    if ibd ∧ peers.nSyncStarted ≠ 0 then some (peers, none)
    else some ({ peers with nSyncStarted := peers.nSyncStarted + 1 }, some (.startSyncStart ibd peer rest))
  | .startSyncStart ibd peer rest =>
    let peers := { peers with state := peers.state.modify peer fun state => { state with headersSyncState := .started } }
    some (peers, if rest = [] then none else some (.startSyncReserve ibd rest))
  | .call (.suspendSync peer now) => (peers.suspendSync peer now).map (·, none)
  | .call (.tipSynced peer now) => (peers.tipSynced peer now).map (·, none)
  | .call (.disconnected peer) =>
    match peers.state.lookup peer with
    | none => some (peers, none)
    | some state => some ({ peers with state := peers.state.erase peer }, releaseOf state)
  | .releaseSyncStarted state =>
    if peers.nSyncStarted = 0 then none
    else
      some ({ peers with nSyncStarted := peers.nSyncStarted - 1 },
        if state.peerFlags.isProtect then some .releaseProtected else none)
  | .releaseProtected =>
    if peers.nProtectedOutboundPeers = 0 then none
    else some ({ peers with nProtectedOutboundPeers := peers.nProtectedOutboundPeers - 1 }, none)

end Task

/-- The peers with the calls in progress. -/
structure System (P : Type) where
  peers : Peers P
  tasks : List (Task P)

namespace System

variable {P : Type} [LinearOrder P]

def initial : System P := ⟨⟨∅, 0, 0⟩, []⟩

/-- One step of the interleaving: a new call starts, or any call in progress takes its next
atomic step. -/
inductive Step : System P → System P → Prop
  | call (sys : System P) (call : Call P) : Step sys ⟨sys.peers, sys.tasks ++ [.call call]⟩
  | run (sys : System P) (before after : List (Task P)) (task : Task P) (split : sys.tasks = before ++ task :: after)
      (peers : Peers P) (next : Option (Task P)) (ran : task.step sys.peers = some (peers, next)) :
      Step sys ⟨peers, before ++ next.toList ++ after⟩

def Reachable (sys : System P) : Prop := Relation.ReflTransGen Step initial sys

/-- A schedule entry: start a call, or run the task at an index. -/
inductive Action (P : Type) where
  | call (call : Call P)
  | run (index : Nat)

/-- The step an action names, when it is enabled and no assertion fails. -/
def perform (sys : System P) : Action P → Option (System P)
  | .call call => some ⟨sys.peers, sys.tasks ++ [.call call]⟩
  | .run index =>
    match sys.tasks[index]? with
    | none => none
    | some task =>
      (task.step sys.peers).map fun (peers, next) =>
        ⟨peers, sys.tasks.take index ++ next.toList ++ sys.tasks.drop (index + 1)⟩

/-- A schedule run from a system. -/
def performAll (sys : System P) (actions : List (Action P)) : Option (System P) := actions.foldlM perform sys

end System

end Ckb.Sync
