import Ckb.Sync.Inflight

namespace Ckb.Sync

namespace DownloadScheduler

variable {H : Type} (set : DownloadScheduler H)

@[simp] theorem increase_hashes (num : Nat) : (set.increase num).hashes = set.hashes := by
  unfold increase
  split <;> rfl

@[simp] theorem decrease_hashes (num : Nat) : (set.decrease num).hashes = set.hashes := by
  simp only [decrease]
  split <;> rfl

@[simp] theorem punish_hashes (exp : Nat) : (set.punish exp).hashes = set.hashes := by
  rfl

@[simp] theorem adjust_hashes (shouldPunish : Bool) (quantile : TimeQuantile) :
    (set.adjust shouldPunish quantile).hashes = set.hashes := by
  cases quantile <;> cases shouldPunish <;> simp [adjust]

end DownloadScheduler

namespace InflightBlocks

variable {P H : Type} [DecidableEq P] [LinearOrder H]

/-- Every block a scheduler holds is in flight from that scheduler's peer. -/
def Owned (schedulers : FiniteMap P (DownloadScheduler H))
    (states : FiniteMap (BlockNumberAndHash H) (InflightState P)) : Prop :=
  ∀ peer set block, schedulers.lookup peer = some set → block ∈ set.hashes →
    ∃ state, states.lookup block = some state ∧ state.peer = peer

section Owned

variable {schedulers schedulers' : FiniteMap P (DownloadScheduler H)}
  {states states' : FiniteMap (BlockNumberAndHash H) (InflightState P)}

theorem owned_empty : Owned (∅ : FiniteMap P (DownloadScheduler H)) states := by
  intro peer set block found
  simp at found

theorem Owned.mono (owned : Owned schedulers states)
    (shrinks : ∀ peer set', schedulers'.lookup peer = some set' →
      ∃ set, schedulers.lookup peer = some set ∧ set'.hashes ⊆ set.hashes)
    (kept : ∀ peer set' block, schedulers'.lookup peer = some set' → block ∈ set'.hashes →
      states'.lookup block = states.lookup block) :
    Owned schedulers' states' := by
  intro peer set' block found member
  obtain ⟨set, old, sub⟩ := shrinks peer set' found
  rw [kept peer set' block found member]
  exact owned peer set block old (sub member)

theorem Owned.ne_of_other {peer other : P} {block block' : BlockNumberAndHash H} {set : DownloadScheduler H}
    (owned : Owned schedulers states) (owner : ∀ state, states.lookup block = some state → state.peer = peer)
    (found : schedulers.lookup other = some set) (differ : other ≠ peer) (member : block' ∈ set.hashes) :
    block' ≠ block := by
  rintro rfl
  obtain ⟨state, look, named⟩ := owned other set block' found member
  exact differ (named.symm.trans (owner state look))

theorem Owned.erase_insert {peer : P} {block : BlockNumberAndHash H} {set set' : DownloadScheduler H}
    (owned : Owned schedulers states) (found : schedulers.lookup peer = some set)
    (erases : set'.hashes = set.hashes.erase block)
    (owner : ∀ state, states.lookup block = some state → state.peer = peer) :
    Owned (schedulers.insert peer set') (states.erase block) := by
  apply owned.mono
  · intro other set'' look
    by_cases same : other = peer
    · subst same
      rw [Finmap.lookup_insert] at look
      cases look
      exact ⟨set, found, erases ▸ Finset.erase_subset block set.hashes⟩
    · rw [Finmap.lookup_insert_of_ne _ same] at look
      exact ⟨set'', look, subset_rfl⟩
  · intro other set'' block' look member
    have differ : block' ≠ block := by
      by_cases same : other = peer
      · subst same
        rw [Finmap.lookup_insert] at look
        cases look
        rw [erases] at member
        exact Finset.ne_of_mem_erase member
      · rw [Finmap.lookup_insert_of_ne _ same] at look
        exact owned.ne_of_other owner look same member
    exact Finmap.lookup_erase_ne differ

theorem Owned.erase_absent {peer : P} {block : BlockNumberAndHash H} (owned : Owned schedulers states)
    (absent : schedulers.lookup peer = none)
    (owner : ∀ state, states.lookup block = some state → state.peer = peer) :
    Owned schedulers (states.erase block) := by
  apply owned.mono
  · intro other set look
    exact ⟨set, look, subset_rfl⟩
  · intro other set block' look member
    have differ : other ≠ peer := by
      rintro rfl
      rw [absent] at look
      cases look
    exact Finmap.lookup_erase_ne (owned.ne_of_other owner look differ member)

theorem Owned.erase_modify {peer : P} {block : BlockNumberAndHash H} (owned : Owned schedulers states)
    (f : DownloadScheduler H → DownloadScheduler H) (erases : ∀ set, (f set).hashes = set.hashes.erase block)
    (owner : ∀ state, states.lookup block = some state → state.peer = peer) :
    Owned (schedulers.modify peer f) (states.erase block) := by
  cases found : schedulers.lookup peer with
  | none =>
    rw [FiniteMap.modify_of_lookup_eq_none found]
    exact owned.erase_absent found owner
  | some set =>
    rw [FiniteMap.modify_of_lookup found]
    exact owned.erase_insert found (erases set) owner

theorem Owned.foldl_erase (owned : Owned schedulers states) (peers : List P) :
    Owned (peers.foldl (fun schedulers peer => schedulers.erase peer) schedulers) states := by
  apply owned.mono
  · intro peer set look
    rw [FiniteMap.lookup_foldl_erase] at look
    split at look
    · cases look
    · exact ⟨set, look, subset_rfl⟩
  · intro _ _ _ _ _
    rfl

end Owned

section Operations

variable {s : InflightBlocks P H}

theorem owned_insert (owned : Owned s.downloadSchedulers s.inflightStates) (peer : P)
    (block : BlockNumberAndHash H) (now : Nat) :
    Owned (s.insert peer block now).1.downloadSchedulers (s.insert peer block now).1.inflightStates := by
  by_cases present : block ∈ s.inflightStates
  · rw [insert, if_pos present]
    exact owned
  rw [insert, if_neg present]
  dsimp only
  -- a block held before has a state, so it is not the new block
  have older : ∀ peer' set block', s.downloadSchedulers.lookup peer' = some set → block' ∈ set.hashes →
      ∃ state, (s.inflightStates.insert block ⟨peer, now⟩).lookup block' = some state ∧ state.peer = peer' := by
    intro peer' set block' look member
    obtain ⟨state, found, named⟩ := owned peer' set block' look member
    have differ : block' ≠ block := by
      rintro rfl
      exact present (Finmap.mem_of_lookup_eq_some found)
    exact ⟨state, by rw [Finmap.lookup_insert_of_ne _ differ, found], named⟩
  intro peer' set block' look member
  by_cases same : peer' = peer
  · subst same
    rw [Finmap.lookup_insert] at look
    cases look
    rw [Finset.mem_insert] at member
    rcases member with rfl | member
    · exact ⟨_, Finmap.lookup_insert _, rfl⟩
    · cases held : s.downloadSchedulers.lookup peer' with
      | none => simp [held, default] at member
      | some set =>
        rw [held, Option.getD_some] at member
        exact older peer' set block' held member
  · rw [Finmap.lookup_insert_of_ne _ same] at look
    exact older peer' set block' look member

theorem owned_removeByPeer (owned : Owned s.downloadSchedulers s.inflightStates) (peer : P) :
    Owned (s.removeByPeer peer).1.downloadSchedulers (s.removeByPeer peer).1.inflightStates := by
  unfold removeByPeer
  cases found : s.downloadSchedulers.lookup peer with
  | none => exact owned
  | some blocks =>
    dsimp only
    apply owned.mono
    · intro other set look
      by_cases same : other = peer
      · subst same
        rw [Finmap.lookup_erase] at look
        cases look
      · rw [Finmap.lookup_erase_ne same] at look
        exact ⟨set, look, subset_rfl⟩
    · intro other set block look member
      have differ : other ≠ peer := by
        rintro rfl
        rw [Finmap.lookup_erase] at look
        cases look
      rw [Finmap.lookup_erase_ne differ] at look
      -- the block is in flight from `other`, so the removed peer does not hold it
      have notRemoved : block ∉ blocks.hashes := by
        intro removed
        obtain ⟨state, look', named⟩ := owned peer blocks block found removed
        obtain ⟨state', look'', named'⟩ := owned other set block look member
        rw [look'] at look''
        cases look''
        exact differ (named'.symm.trans named)
      rw [FiniteMap.lookup_foldl_erase, if_neg (by rwa [mem_sortedElems])]

theorem owned_removeByBlock (owned : Owned s.downloadSchedulers s.inflightStates)
    (block : BlockNumberAndHash H) (now : Nat) :
    Owned (s.removeByBlock block now).1.downloadSchedulers (s.removeByBlock block now).1.inflightStates := by
  unfold removeByBlock
  cases found : s.inflightStates.lookup block with
  | none => exact owned
  | some state =>
    have owner : ∀ state', s.inflightStates.lookup block = some state' → state'.peer = state.peer := by
      intro state' look
      rw [found] at look
      cases look
      rfl
    dsimp only
    cases held : s.downloadSchedulers.lookup state.peer with
    | none => exact owned.erase_absent held owner
    | some set =>
      dsimp only
      apply owned.erase_insert held _ owner
      split <;> simp

/-- The first loop of `prune` keeps the invariant between its schedulers and the states without
the keys it has collected so far. -/
theorem owned_pruneTimedOut {states : FiniteMap (BlockNumberAndHash H) (InflightState P)} {now : Nat}
    {punishing : Bool} {scan : PruneScan P H} (key : BlockNumberAndHash H)
    (owned : Owned scan.schedulers (scan.removeKey.foldl (fun states key => states.erase key) states)) :
    Owned (pruneTimedOut states now punishing scan key).schedulers
      ((pruneTimedOut states now punishing scan key).removeKey.foldl (fun states key => states.erase key) states) := by
  unfold pruneTimedOut
  cases found : states.lookup key with
  | none => exact owned
  | some value =>
    dsimp only
    by_cases timedOut : value.timestamp + blockDownloadTimeout < now
    · rw [if_pos timedOut]
      dsimp only
      rw [List.foldl_append, List.foldl_cons, List.foldl_nil]
      apply owned.erase_modify
      · intro set
        cases punishing <;> rfl
      · intro state look
        rw [FiniteMap.lookup_foldl_erase, found] at look
        split at look
        · cases look
        · cases look
          rfl
    · rw [if_neg timedOut]
      exact owned

theorem owned_pruneTrace {now timeoutLimit : Nat} {punishing : Bool} {scan : TraceScan P H}
    (key : BlockNumberAndHash H) (owned : Owned scan.schedulers scan.states) :
    Owned (pruneTrace now timeoutLimit punishing scan key).schedulers
      (pruneTrace now timeoutLimit punishing scan key).states := by
  unfold pruneTrace
  cases scan.trace.lookup key with
  | none => exact owned
  | some time =>
    dsimp only
    by_cases stuck : now > timeoutLimit + time
    · rw [if_pos stuck]
      cases found : scan.states.lookup key with
      | none => exact owned
      | some state =>
        dsimp only
        apply owned.erase_modify
        · intro set
          cases punishing <;> rfl
        · intro state' look
          rw [found] at look
          cases look
          rfl
    · rw [if_neg stuck]
      exact owned

theorem owned_markSlowBlock (owned : Owned s.downloadSchedulers s.inflightStates)
    (tip now : Nat) : Owned (s.markSlowBlock tip now).downloadSchedulers (s.markSlowBlock tip now).inflightStates :=
  owned

end Operations

section Runs

variable [LinearOrder P] {s : InflightBlocks P H}

theorem owned_prune (owned : Owned s.downloadSchedulers s.inflightStates) (tip now : Nat) :
    Owned (s.prune tip now).1.downloadSchedulers (s.prune tip now).1.inflightStates := by
  unfold prune
  dsimp only
  -- the retained traces keep the invariant between the states and the schedulers
  apply foldl_invariant (fun scan : TraceScan P H => Owned scan.schedulers scan.states) _
    (fun scan key _ => owned_pruneTrace key)
  apply Owned.foldl_erase
  -- the first loop: its schedulers against the states without the keys it collected
  apply foldl_invariant (fun scan : PruneScan P H => Owned scan.schedulers
      (scan.removeKey.foldl (fun states key => states.erase key) s.inflightStates)) _
    (fun scan key _ => owned_pruneTimedOut key)
  exact owned

theorem owned_run (owned : Owned s.downloadSchedulers s.inflightStates)
    (op : InflightOp P H) : Owned (op.run s).downloadSchedulers (op.run s).inflightStates := by
  cases op with
  | insert peer block now => exact owned_insert owned peer block now
  | removeByPeer peer => exact owned_removeByPeer owned peer
  | removeByBlock block now => exact owned_removeByBlock owned block now
  | prune tip now => exact owned_prune owned tip now
  | markSlowBlock tip now => exact owned_markSlowBlock owned tip now

/-- Along every run of the calls from the empty state, each block a peer's scheduler holds is in
flight from that peer. -/
theorem owned_runAll (ops : List (InflightOp P H)) :
    Owned (InflightOp.runAll default ops).downloadSchedulers (InflightOp.runAll default ops).inflightStates :=
  foldl_invariant (fun s : InflightBlocks P H => Owned s.downloadSchedulers s.inflightStates) ops
    (fun _ op _ owned => owned_run owned op) owned_empty

end Runs

section Samples

/-- Four peers each given a fresh request, then peer 1 given three requests at time 0 and a
fourth at time 40000, all marked slow, and a prune at time 40000 with five schedulers. -/
def strandedRun : List (InflightOp ℕ ℕ) :=
  [.insert 2 ⟨5, 5⟩ 40000, .insert 3 ⟨6, 6⟩ 40000, .insert 4 ⟨7, 7⟩ 40000, .insert 5 ⟨8, 8⟩ 40000,
    .insert 1 ⟨1, 1⟩ 0, .insert 1 ⟨2, 2⟩ 0, .insert 1 ⟨3, 3⟩ 0, .insert 1 ⟨4, 4⟩ 40000,
    .markSlowBlock 20 40000, .prune 0 40000]

/-- The three timeouts punish peer 1 down to no task, so `prune` drops its scheduler, but its
fourth request has not timed out and stays in flight from it; `remove_by_peer` then removes
nothing, and `remove_by_block` for that request keeps its trace. -/
theorem prune_strands_request_of_dropped_peer :
    (InflightOp.runAll default strandedRun).inflightStates.lookup ⟨4, 4⟩ = some ⟨1, 40000⟩ ∧
      (InflightOp.runAll default strandedRun).downloadSchedulers.lookup 1 = none ∧
      ((InflightOp.runAll default strandedRun).removeByPeer 1).2 = 0 ∧
      ((InflightOp.runAll default strandedRun).removeByPeer 1).1.inflightStates.lookup ⟨4, 4⟩ = some ⟨1, 40000⟩ ∧
      ⟨4, 4⟩ ∈ ((InflightOp.runAll default strandedRun).removeByBlock ⟨4, 4⟩ 40001).1.traceNumber ∧
      ⟨4, 4⟩ ∉ ((InflightOp.runAll default strandedRun).removeByBlock ⟨4, 4⟩ 40001).1.inflightStates := by
  decide

end Samples

end InflightBlocks

end Ckb.Sync
