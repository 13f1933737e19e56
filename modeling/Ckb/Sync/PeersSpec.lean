import Ckb.Sync.Peers

namespace Ckb.Sync

variable {P : Type} [LinearOrder P]

namespace PeerState

@[simp] theorem syncStarted_mk (peerFlags : PeerFlags) (headersSyncState : HeadersSyncState) :
    (PeerState.mk peerFlags headersSyncState).syncStarted = decide (headersSyncState = .started) := by
  cases headersSyncState <;> rfl

end PeerState

@[simp] theorem PeerFlags.default_isProtect : (default : PeerFlags).isProtect = false := rfl

/-- The entries whose headers sync is started. -/
def startedCount (state : FiniteMap P PeerState) : Nat := state.sumBy fun entry => if entry.syncStarted then 1 else 0

/-- The entries protected from eviction. -/
def protectCount (state : FiniteMap P PeerState) : Nat :=
  state.sumBy fun entry => if entry.peerFlags.isProtect then 1 else 0

namespace Task

/-- The `n_sync_started` slot a call in progress holds. -/
def heldStart : Task P → Nat
  | .startSyncStart _ _ _ => 1
  | .releaseSyncStarted _ => 1
  | _ => 0

/-- The protection slot a call in progress holds. -/
def heldProtect : Task P → Nat
  | .syncConnectedEntry _ peerFlags => if peerFlags.isProtect then 1 else 0
  | .releaseSyncStarted state => if state.peerFlags.isProtect then 1 else 0
  | .releaseProtected => 1
  | _ => 0

end Task

/-- The counters cover the entries that hold a slot and `heldStart`, `heldProtect` slots more, and
at most `MAX_OUTBOUND_PEERS_TO_PROTECT_FROM_DISCONNECT` protection slots are taken. -/
structure Covers (peers : Peers P) (heldStart heldProtect : Nat) : Prop where
  started : startedCount peers.state + heldStart ≤ peers.nSyncStarted
  protect : protectCount peers.state + heldProtect ≤ peers.nProtectedOutboundPeers
  bound : peers.nProtectedOutboundPeers ≤ maxOutboundPeersToProtectFromDisconnect

theorem counts_erase (state : FiniteMap P PeerState) (peer : P) :
    startedCount (state.erase peer) + ((state.lookup peer).map fun old => if old.syncStarted then 1 else 0).getD 0 =
        startedCount state ∧
      protectCount (state.erase peer) + ((state.lookup peer).map fun old => if old.peerFlags.isProtect then 1 else 0).getD 0 =
        protectCount state :=
  ⟨FiniteMap.sumBy_erase_add state peer _, FiniteMap.sumBy_erase_add state peer _⟩

theorem counts_insert (state : FiniteMap P PeerState) (peer : P) (entry : PeerState) :
    startedCount (state.insert peer entry) + ((state.lookup peer).map fun old => if old.syncStarted then 1 else 0).getD 0 =
        startedCount state + (if entry.syncStarted then 1 else 0) ∧
      protectCount (state.insert peer entry) +
          ((state.lookup peer).map fun old => if old.peerFlags.isProtect then 1 else 0).getD 0 =
        protectCount state + (if entry.peerFlags.isProtect then 1 else 0) := by
  have erased := counts_erase state peer
  have started := FiniteMap.sumBy_insert_eq state peer entry fun entry => if entry.syncStarted then 1 else 0
  have protect := FiniteMap.sumBy_insert_eq state peer entry fun entry => if entry.peerFlags.isProtect then 1 else 0
  unfold startedCount protectCount at *
  omega

namespace Covers

variable {peers : Peers P} {heldStart heldProtect : Nat}

theorem mono (covers : Covers peers heldStart heldProtect) {start protect : Nat} (fewer : start ≤ heldStart)
    (fewerProtect : protect ≤ heldProtect) : Covers peers start protect :=
  ⟨by have := covers.started; omega, by have := covers.protect; omega, covers.bound⟩

theorem nSyncStarted_pos (covers : Covers peers heldStart heldProtect) {peer : P} {entry : PeerState}
    (found : peers.state.lookup peer = some entry) (started : entry.syncStarted = true) : 0 < peers.nSyncStarted := by
  have erased := (counts_erase peers.state peer).1
  rw [found, Option.map_some, Option.getD_some, if_pos started] at erased
  have := covers.started
  omega

end Covers

namespace Peers

variable {peers peers' : Peers P} {peer : P} {paused : HeadersSyncState} {extraStart extraProtect : Nat}

theorem pauseSync_covers (covers : Covers peers extraStart extraProtect) (notStarted : paused ≠ .started)
    (ran : peers.pauseSync peer paused = some peers') : Covers peers' extraStart extraProtect := by
  obtain ⟨started, protect, bound⟩ := covers
  unfold pauseSync at ran
  cases found : peers.state.lookup peer with
  | none =>
    rw [found] at ran
    cases ran
    exact ⟨started, protect, bound⟩
  | some old =>
    rw [found] at ran
    dsimp only at ran
    by_cases stuck : old.syncStarted = true ∧ peers.nSyncStarted = 0
    · rw [if_pos stuck] at ran
      cases ran
    rw [if_neg stuck] at ran
    cases ran
    obtain ⟨startedAfter, protectAfter⟩ := counts_insert peers.state peer { old with headersSyncState := paused }
    simp only [found, Option.map_some, Option.getD_some, PeerState.syncStarted_mk, decide_eq_true_eq, notStarted,
      if_false] at startedAfter protectAfter
    refine ⟨?_, ?_, bound⟩ <;> dsimp only
    · split_ifs at startedAfter ⊢ <;> omega
    · omega

theorem pauseSync_isSome (covers : Covers peers extraStart extraProtect) : (peers.pauseSync peer paused).isSome := by
  unfold pauseSync
  cases found : peers.state.lookup peer with
  | none => rfl
  | some old =>
    dsimp only
    rw [if_neg]
    · rfl
    · rintro ⟨started, empty⟩
      have := covers.nSyncStarted_pos found started
      omega

end Peers

namespace Task

/-- A step of `task` keeps the counters covering what the entries and the calls hold, the other
calls in progress holding `extraStart` and `extraProtect` slots. -/
def StepCovers (task : Task P) : Prop :=
  ∀ (peers peers' : Peers P) next extraStart extraProtect,
    Covers peers (task.heldStart + extraStart) (task.heldProtect + extraProtect) →
    task.step peers = some (peers', next) →
    Covers peers' ((next.toList.map heldStart).sum + extraStart) ((next.toList.map heldProtect).sum + extraProtect)

theorem stepCovers_syncConnected (peer : P) (isOutbound isWhitelist is2023edition : Bool) :
    StepCovers (.call (.syncConnected peer isOutbound isWhitelist is2023edition)) := by
  intro peers peers' next extraStart extraProtect covers ran
  simp only [step, Option.some.injEq, Prod.mk.injEq] at ran
  obtain ⟨rfl, rfl⟩ := ran
  obtain ⟨started, protect, bound⟩ := covers
  simp only [heldStart, heldProtect, Option.toList_some, List.map_cons, List.map_nil, List.sum_cons, List.sum_nil,
    Nat.add_zero, Nat.zero_add] at started protect ⊢
  -- the slot is taken exactly when the entry will be protected
  split_ifs with slot
  · simp only [Bool.and_eq_true, decide_eq_true_eq] at slot
    exact ⟨started, by dsimp only; omega, by dsimp only; omega⟩
  · exact ⟨started, by omega, bound⟩

theorem stepCovers_syncConnectedEntry (peer : P) (peerFlags : PeerFlags) :
    StepCovers (.syncConnectedEntry peer peerFlags) := by
  intro peers peers' next extraStart extraProtect covers ran
  simp only [step, Option.some.injEq, Prod.mk.injEq] at ran
  obtain ⟨rfl, rfl⟩ := ran
  obtain ⟨started, protect, bound⟩ := covers
  simp only [heldStart, heldProtect, Option.toList_none, List.map_nil, List.sum_nil, Nat.zero_add] at started protect ⊢
  -- the entry written is connected with the new flags, whether it existed or not
  cases found : peers.state.lookup peer with
  | none =>
    obtain ⟨startedAfter, protectAfter⟩ := counts_insert peers.state peer ⟨peerFlags, .syncProtocolConnected⟩
    simp only [found, Option.map_none, Option.getD_none, PeerState.syncStarted_mk, reduceCtorEq, decide_false,
      Bool.false_eq_true, if_false] at startedAfter protectAfter
    refine ⟨?_, ?_, bound⟩ <;> simp only [PeerState.new] <;> omega
  | some old =>
    obtain ⟨startedAfter, protectAfter⟩ := counts_insert peers.state peer ⟨peerFlags, .syncProtocolConnected⟩
    simp only [found, Option.map_some, Option.getD_some, PeerState.syncStarted_mk, reduceCtorEq, decide_false,
      Bool.false_eq_true, if_false] at startedAfter protectAfter
    refine ⟨?_, ?_, bound⟩ <;> dsimp only <;> omega

theorem stepCovers_relayConnected (peer : P) : StepCovers (.call (.relayConnected peer)) := by
  intro peers peers' next extraStart extraProtect covers ran
  obtain ⟨started, protect, bound⟩ := covers
  simp only [heldStart, heldProtect, Nat.zero_add] at started protect
  simp only [step] at ran
  split_ifs at ran with present
  · simp only [Option.some.injEq, Prod.mk.injEq] at ran
    obtain ⟨rfl, rfl⟩ := ran
    exact ⟨by simpa using started, by simpa using protect, bound⟩
  · simp only [Option.some.injEq, Prod.mk.injEq] at ran
    obtain ⟨rfl, rfl⟩ := ran
    -- a fresh entry is neither started nor protected
    obtain ⟨startedAfter, protectAfter⟩ := counts_insert peers.state peer (PeerState.new default)
    simp only [Finmap.lookup_eq_none.mpr present, Option.map_none, Option.getD_none, PeerState.new,
      PeerState.syncStarted_mk, reduceCtorEq, decide_false, Bool.false_eq_true, if_false,
      PeerFlags.default_isProtect] at startedAfter protectAfter
    refine ⟨?_, ?_, bound⟩ <;> simp only [PeerState.new, Option.toList_none, List.map_nil, List.sum_nil, Nat.zero_add] <;>
      omega

theorem stepCovers_startSyncHeaders (ibd : Bool) (now : Nat) :
    StepCovers (.call (.startSyncHeaders ibd now) : Task P) := by
  intro peers peers' next extraStart extraProtect covers ran
  simp only [step] at ran
  -- the listing reads the entries and changes nothing
  split_ifs at ran <;> simp only [Option.some.injEq, Prod.mk.injEq] at ran <;> obtain ⟨rfl, rfl⟩ := ran <;>
    simpa [heldStart, heldProtect] using covers

theorem stepCovers_startSyncReserve (ibd : Bool) (listed : List P) : StepCovers (.startSyncReserve ibd listed) := by
  intro peers peers' next extraStart extraProtect covers ran
  obtain ⟨started, protect, bound⟩ := covers
  simp only [heldStart, heldProtect, Nat.zero_add] at started protect
  cases listed with
  | nil =>
    simp only [step, Option.some.injEq, Prod.mk.injEq] at ran
    obtain ⟨rfl, rfl⟩ := ran
    exact ⟨by simpa using started, by simpa using protect, bound⟩
  | cons peer rest =>
    simp only [step] at ran
    split_ifs at ran with busy
    · simp only [Option.some.injEq, Prod.mk.injEq] at ran
      obtain ⟨rfl, rfl⟩ := ran
      exact ⟨by simpa using started, by simpa using protect, bound⟩
    · -- the slot is reserved before the entry is looked up
      simp only [Option.some.injEq, Prod.mk.injEq] at ran
      obtain ⟨rfl, rfl⟩ := ran
      refine ⟨?_, ?_, bound⟩ <;> simp only [heldStart, heldProtect, Option.toList_some, List.map_cons, List.map_nil,
        List.sum_cons, List.sum_nil] <;> omega

omit [LinearOrder P] in
theorem held_startSyncReserve_next (ibd : Bool) (rest : List P) :
    ((if rest = [] then none else some (Task.startSyncReserve ibd rest)).toList.map heldStart).sum = 0 ∧
      ((if rest = [] then none else some (Task.startSyncReserve ibd rest)).toList.map heldProtect).sum = 0 := by
  split_ifs <;> simp [heldStart, heldProtect]

theorem stepCovers_startSyncStart (ibd : Bool) (peer : P) (rest : List P) : StepCovers (.startSyncStart ibd peer rest) := by
  intro peers peers' next extraStart extraProtect covers ran
  obtain ⟨started, protect, bound⟩ := covers
  simp only [heldStart, heldProtect, Nat.zero_add] at started protect
  simp only [step, Option.some.injEq, Prod.mk.injEq] at ran
  obtain ⟨rfl, rfl⟩ := ran
  obtain ⟨noStart, noProtect⟩ := held_startSyncReserve_next ibd rest
  refine ⟨?_, ?_, bound⟩ <;> dsimp only
  all_goals
    cases found : peers.state.lookup peer with
    | none => rw [FiniteMap.modify_of_lookup_eq_none found]; omega
    | some old =>
      -- `get_mut` found the entry: it is started, with its flags kept
      rw [FiniteMap.modify_of_lookup found]
      obtain ⟨startedAfter, protectAfter⟩ := counts_insert peers.state peer { old with headersSyncState := .started }
      simp only [found, Option.map_some, Option.getD_some, PeerState.syncStarted_mk, decide_true, if_true]
        at startedAfter protectAfter
      omega

theorem stepCovers_suspendSync (peer : P) (now : Nat) : StepCovers (.call (.suspendSync peer now)) := by
  intro peers peers' next extraStart extraProtect covers ran
  simp only [step, Option.map_eq_some_iff, Prod.mk.injEq] at ran
  obtain ⟨paused, ran, rfl, rfl⟩ := ran
  simp only [heldStart, heldProtect, Nat.zero_add] at covers
  simpa using Peers.pauseSync_covers covers (by simp) ran

theorem stepCovers_tipSynced (peer : P) (now : Nat) : StepCovers (.call (.tipSynced peer now)) := by
  intro peers peers' next extraStart extraProtect covers ran
  simp only [step, Option.map_eq_some_iff, Prod.mk.injEq] at ran
  obtain ⟨paused, ran, rfl, rfl⟩ := ran
  simp only [heldStart, heldProtect, Nat.zero_add] at covers
  simpa using Peers.pauseSync_covers covers (by simp) ran

omit [LinearOrder P] in
theorem held_releaseOf (state : PeerState) :
    ((releaseOf state).toList.map (heldStart : Task P → Nat)).sum = (if state.syncStarted then 1 else 0) ∧
      ((releaseOf state).toList.map (heldProtect : Task P → Nat)).sum = (if state.peerFlags.isProtect then 1 else 0) := by
  unfold releaseOf
  cases started : state.syncStarted <;> cases protect : state.peerFlags.isProtect <;>
    simp [protect, heldStart, heldProtect]

theorem stepCovers_disconnected (peer : P) : StepCovers (.call (.disconnected peer)) := by
  intro peers peers' next extraStart extraProtect covers ran
  obtain ⟨started, protect, bound⟩ := covers
  simp only [heldStart, heldProtect, Nat.zero_add] at started protect
  simp only [step] at ran
  cases found : peers.state.lookup peer with
  | none =>
    simp only [found, Option.some.injEq, Prod.mk.injEq] at ran
    obtain ⟨rfl, rfl⟩ := ran
    exact ⟨by simpa using started, by simpa using protect, bound⟩
  | some old =>
    -- the entry leaves first, its slots move to the rest of the call
    simp only [found, Option.some.injEq, Prod.mk.injEq] at ran
    obtain ⟨rfl, rfl⟩ := ran
    obtain ⟨startedAfter, protectAfter⟩ := counts_erase peers.state peer
    obtain ⟨heldStarted, heldProtected⟩ := held_releaseOf (P := P) old
    simp only [found, Option.map_some, Option.getD_some] at startedAfter protectAfter
    refine ⟨?_, ?_, bound⟩ <;> dsimp only <;> omega

theorem stepCovers_releaseSyncStarted (state : PeerState) : StepCovers (.releaseSyncStarted state : Task P) := by
  intro peers peers' next extraStart extraProtect covers ran
  obtain ⟨started, protect, bound⟩ := covers
  simp only [heldStart, heldProtect] at started protect
  simp only [step] at ran
  by_cases empty : peers.nSyncStarted = 0
  · rw [if_pos empty] at ran
    cases ran
  rw [if_neg empty] at ran
  simp only [Option.some.injEq, Prod.mk.injEq] at ran
  obtain ⟨rfl, rfl⟩ := ran
  -- the protection slot moves to the last release
  cases flag : state.peerFlags.isProtect <;> simp only [flag, Bool.false_eq_true, ↓reduceIte] at protect <;>
    refine ⟨?_, ?_, bound⟩ <;> simp [heldStart, heldProtect] <;> omega

theorem stepCovers_releaseProtected : StepCovers (.releaseProtected : Task P) := by
  intro peers peers' next extraStart extraProtect covers ran
  obtain ⟨started, protect, bound⟩ := covers
  simp only [step] at ran
  split_ifs at ran with empty
  simp only [Option.some.injEq, Prod.mk.injEq] at ran
  obtain ⟨rfl, rfl⟩ := ran
  simp only [heldStart, heldProtect] at started protect
  refine ⟨?_, ?_, ?_⟩ <;> dsimp only
  · simpa using started
  · simp only [Option.toList_none, List.map_nil, List.sum_nil, Nat.zero_add]
    omega
  · omega

theorem stepCovers : ∀ task : Task P, StepCovers task
  | .call (.syncConnected peer isOutbound isWhitelist is2023edition) =>
    stepCovers_syncConnected peer isOutbound isWhitelist is2023edition
  | .call (.relayConnected peer) => stepCovers_relayConnected peer
  | .call (.startSyncHeaders ibd now) => stepCovers_startSyncHeaders ibd now
  | .call (.suspendSync peer now) => stepCovers_suspendSync peer now
  | .call (.tipSynced peer now) => stepCovers_tipSynced peer now
  | .call (.disconnected peer) => stepCovers_disconnected peer
  | .syncConnectedEntry peer peerFlags => stepCovers_syncConnectedEntry peer peerFlags
  | .startSyncReserve ibd listed => stepCovers_startSyncReserve ibd listed
  | .startSyncStart ibd peer rest => stepCovers_startSyncStart ibd peer rest
  | .releaseSyncStarted state => stepCovers_releaseSyncStarted state
  | .releaseProtected => stepCovers_releaseProtected

theorem step_isSome {peers : Peers P} {task : Task P} {extraStart extraProtect : Nat}
    (covers : Covers peers (task.heldStart + extraStart) (task.heldProtect + extraProtect)) : (task.step peers).isSome := by
  cases task with
  | call call =>
    cases call with
    | suspendSync peer now =>
      simp only [step, Option.isSome_map]
      exact Peers.pauseSync_isSome covers
    | tipSynced peer now =>
      simp only [step, Option.isSome_map]
      exact Peers.pauseSync_isSome covers
    | disconnected peer =>
      simp only [step]
      split <;> rfl
    | startSyncHeaders ibd now =>
      simp only [step]
      split_ifs <;> rfl
    | relayConnected peer =>
      simp only [step]
      split_ifs <;> rfl
    | syncConnected => rfl
  | releaseSyncStarted state =>
    have := covers.started
    simp only [heldStart] at this
    simp only [step]
    rw [if_neg (by omega)]
    rfl
  | releaseProtected =>
    have := covers.protect
    simp only [heldProtect] at this
    simp only [step]
    rw [if_neg (by omega)]
    rfl
  | startSyncReserve ibd listed =>
    cases listed with
    | nil => rfl
    | cons peer rest =>
      simp only [step]
      split_ifs <;> rfl
  | syncConnectedEntry => rfl
  | startSyncStart => rfl

end Task

namespace System

/-- The counters cover every entry and every call in progress that holds a slot. -/
def Counted (sys : System P) : Prop :=
  Covers sys.peers (sys.tasks.map Task.heldStart).sum (sys.tasks.map Task.heldProtect).sum

theorem counted_initial : (initial : System P).Counted :=
  ⟨by simp [initial, startedCount], by simp [initial, protectCount], by simp [initial]⟩

theorem Counted.step {sys sys' : System P} (counted : sys.Counted) (step : Step sys sys') : sys'.Counted := by
  cases step with
  | call call =>
    -- a new call holds nothing yet
    simpa [Counted, Task.heldStart, Task.heldProtect] using counted
  | run before after task split peers next ran =>
    unfold Counted at counted ⊢
    rw [split] at counted
    simp only [List.map_append, List.map_cons, List.sum_append, List.sum_cons] at counted ⊢
    have moved := Task.stepCovers task sys.peers peers next ((before.map Task.heldStart).sum + (after.map Task.heldStart).sum)
      ((before.map Task.heldProtect).sum + (after.map Task.heldProtect).sum) (counted.mono (by omega) (by omega)) ran
    exact moved.mono (by omega) (by omega)

theorem Reachable.counted {sys : System P} (reach : sys.Reachable) : sys.Counted := by
  induction reach with
  | refl => exact counted_initial
  | tail _ step counted => exact counted.step step

/-- During IBD `start_sync_headers` takes its slot only when the counter is zero, so only when no
entry is started. -/
theorem Reachable.ibd_slot_only_when_none_started {sys : System P} (reach : sys.Reachable) {peer : P}
    {rest : List P} {peers : Peers P} {next : Task P}
    (reserved : (Task.startSyncReserve true (peer :: rest)).step sys.peers = some (peers, some next)) :
    startedCount sys.peers.state = 0 := by
  have started := reach.counted.started
  simp only [Task.step] at reserved
  split_ifs at reserved with busy
  · cases reserved
  · simp only [true_and, not_not] at busy
    omega

/-- Over every interleaving: no `assert_ne!` of a call in progress fails, the counters are at least
the started and the protected entries, at most `MAX_OUTBOUND_PEERS_TO_PROTECT_FROM_DISCONNECT`
entries are protected, and during IBD `start_sync_headers` takes its slot only when no entry is
started. -/
theorem Reachable.counters_safe {sys : System P} (reach : sys.Reachable) :
    (∀ task ∈ sys.tasks, (task.step sys.peers).isSome) ∧ startedCount sys.peers.state ≤ sys.peers.nSyncStarted ∧
      protectCount sys.peers.state ≤ sys.peers.nProtectedOutboundPeers ∧
      protectCount sys.peers.state ≤ maxOutboundPeersToProtectFromDisconnect ∧
      ∀ peer rest peers next, (Task.startSyncReserve true (peer :: rest)).step sys.peers = some (peers, some next) →
        startedCount sys.peers.state = 0 := by
  have counted := reach.counted
  refine ⟨fun task member => ?_, by have := counted.started; omega, by have := counted.protect; omega,
    by have := counted.protect; have := counted.bound; omega,
    fun _ _ _ _ reserved => reach.ibd_slot_only_when_none_started reserved⟩
  obtain ⟨before, after, split⟩ := List.append_of_mem member
  unfold Counted at counted
  rw [split] at counted
  simp only [List.map_append, List.map_cons, List.sum_append, List.sum_cons] at counted
  have covers : Covers sys.peers (task.heldStart + ((before.map Task.heldStart).sum + (after.map Task.heldStart).sum))
      (task.heldProtect + ((before.map Task.heldProtect).sum + (after.map Task.heldProtect).sum)) :=
    counted.mono (by omega) (by omega)
  exact Task.step_isSome covers

theorem perform_step {sys sys' : System P} {action : Action P} (performed : perform sys action = some sys') :
    Step sys sys' := by
  cases action with
  | call call =>
    cases performed
    exact Step.call sys call
  | run index =>
    simp only [perform] at performed
    cases found : sys.tasks[index]? with
    | none => simp [found] at performed
    | some task =>
      simp only [found, Option.map_eq_some_iff] at performed
      obtain ⟨⟨peers, next⟩, ran, rfl⟩ := performed
      obtain ⟨within, same⟩ := List.getElem?_eq_some_iff.mp found
      -- the task at the index splits the list around it
      have split : sys.tasks = sys.tasks.take index ++ task :: sys.tasks.drop (index + 1) := by
        rw [← same, ← List.drop_eq_getElem_cons within, List.take_append_drop]
      exact Step.run sys _ _ task split peers next ran

theorem reachable_of_performAll : ∀ (actions : List (Action P)) {sys sys' : System P},
    performAll sys actions = some sys' → Relation.ReflTransGen Step sys sys'
  | [], _, _, performed => by
    cases performed
    exact Relation.ReflTransGen.refl
  | action :: actions, sys, sys', performed => by
    simp only [performAll, List.foldlM_cons, Option.bind_eq_bind, Option.bind_eq_some_iff] at performed
    obtain ⟨middle, first, rest⟩ := performed
    exact Relation.ReflTransGen.head (perform_step first) (reachable_of_performAll actions rest)

section Samples

/-- Peer 1 connects outbound and is protected; `start_sync_headers` during IBD lists it and takes
the slot; the peer disconnects, and the `get_mut` after that finds no entry. -/
def leakSchedule : List (Action Nat) :=
  [.call (.syncConnected 1 true false false), .run 0, .run 0, .call (.startSyncHeaders true 1), .run 0, .run 0,
    .call (.disconnected 1), .run 1, .run 1, .run 0]

/- Under interleavings that the code's serialized handlers never produce, the slot leaks. -/
example :
    ∃ sys : System Nat, sys.Reachable ∧ sys.tasks = [] ∧ sys.peers.nSyncStarted = 1 ∧
      startedCount sys.peers.state = 0 ∧
      ∀ peer rest, (Task.startSyncReserve true (peer :: rest)).step sys.peers = some (sys.peers, none) := by
  have ran : (performAll initial leakSchedule).map
      (fun sys => (sys.tasks, sys.peers.nSyncStarted, startedCount sys.peers.state)) = some ([], 1, 0) := by
    decide +kernel
  obtain ⟨sys, performed, summary⟩ := Option.map_eq_some_iff.mp ran
  simp only [Prod.mk.injEq] at summary
  obtain ⟨idle, count, noneStarted⟩ := summary
  refine ⟨sys, reachable_of_performAll leakSchedule performed, idle, count, noneStarted, fun peer rest => ?_⟩
  simp [Task.step, count]

theorem startInProgress_counters_safe :
    ∃ sys : System Nat, performAll initial (leakSchedule.take 6) = some sys ∧
      (∀ task ∈ sys.tasks, (task.step sys.peers).isSome) ∧ startedCount sys.peers.state ≤ sys.peers.nSyncStarted ∧
      protectCount sys.peers.state ≤ sys.peers.nProtectedOutboundPeers ∧
      protectCount sys.peers.state ≤ maxOutboundPeersToProtectFromDisconnect ∧
      ∀ peer rest peers next, (Task.startSyncReserve true (peer :: rest)).step sys.peers = some (peers, some next) →
        startedCount sys.peers.state = 0 := by
  obtain ⟨sys, performed⟩ := Option.isSome_iff_exists.mp
    (by decide +kernel : (performAll initial (leakSchedule.take 6)).isSome)
  exact ⟨sys, performed, Reachable.counters_safe (reachable_of_performAll _ performed)⟩

end Samples

end System

end Ckb.Sync
