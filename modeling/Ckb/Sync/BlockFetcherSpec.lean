import Ckb.Sync.BlockFetcher
import Ckb.Sync.InflightSpec
import Ckb.Sync.LocatorSpec

namespace Ckb.Sync

namespace InflightBlocks

variable {P H : Type} [DecidableEq P] [LinearOrder H] {s : InflightBlocks P H} {block : BlockNumberAndHash H}

theorem insert_present (peer : P) (now : Nat) (present : block ∈ s.inflightStates) :
    s.insert peer block now = (s, false) := by
  unfold insert
  rw [if_pos present]

/-- With the schedulers owning their blocks, a block not in flight is new to the peer's scheduler
too, so `insert` reports it new. -/
theorem insert_fresh (owned : Owned s.downloadSchedulers s.inflightStates) (peer : P) (now : Nat)
    (absent : block ∉ s.inflightStates) :
    (s.insert peer block now).2 = true ∧
      (s.insert peer block now).1.inflightStates = s.inflightStates.insert block ⟨peer, now⟩ := by
  unfold insert
  rw [if_neg absent]
  refine ⟨?_, rfl⟩
  cases held : s.downloadSchedulers.lookup peer with
  | none => simp [default]
  | some set =>
    simp only [Option.getD_some, decide_eq_true_eq]
    intro member
    obtain ⟨state, found, -⟩ := owned peer set block held member
    exact absent (Finmap.mem_of_lookup_eq_some found)

/-- `after` holds the blocks in flight in `before` as they were and the fresh blocks `added`, each
in flight from `peer` since `now`, and its schedulers still own their blocks. -/
structure Grows (peer : P) (now : Nat) (before after : InflightBlocks P H) (added : List (BlockNumberAndHash H)) :
    Prop where
  owned : Owned after.downloadSchedulers after.inflightStates
  nodup : added.Nodup
  fresh : ∀ block ∈ added, block ∉ before.inflightStates
  lookup_added : ∀ block ∈ added, after.inflightStates.lookup block = some ⟨peer, now⟩
  lookup_kept : ∀ block ∉ added, after.inflightStates.lookup block = before.inflightStates.lookup block

namespace Grows

variable {peer : P} {now : Nat} {before middle after : InflightBlocks P H} {added more : List (BlockNumberAndHash H)}

theorem refl (owned : Owned s.downloadSchedulers s.inflightStates) : Grows peer now s s [] :=
  ⟨owned, List.nodup_nil, by simp, by simp, fun _ _ => rfl⟩

theorem mem_after (grows : Grows peer now before after added) (member : block ∈ added) :
    block ∈ after.inflightStates :=
  Finmap.mem_of_lookup_eq_some (grows.lookup_added block member)

theorem trans (first : Grows peer now before middle added) (second : Grows peer now middle after more) :
    Grows peer now before after (added ++ more) := by
  -- a block added first is in flight in the middle, so it is not among the later fresh ones
  have apart : ∀ block ∈ added, block ∉ more := fun block member later =>
    second.fresh block later (first.mem_after member)
  refine ⟨second.owned, List.nodup_append.mpr ⟨first.nodup, second.nodup, ?_⟩, ?_, ?_, ?_⟩
  · rintro block member other later rfl
    exact apart block member later
  · intro block member present
    rcases List.mem_append.mp member with earlier | later
    · exact first.fresh block earlier present
    · by_cases old : block ∈ added
      · exact first.fresh block old present
      · apply second.fresh block later
        rw [← Finmap.lookup_isSome, first.lookup_kept block old, Finmap.lookup_isSome]
        exact present
  · intro block member
    rcases List.mem_append.mp member with earlier | later
    · rw [second.lookup_kept block (apart block earlier), first.lookup_added block earlier]
    · exact second.lookup_added block later
  · intro block absent
    rw [List.mem_append, not_or] at absent
    rw [second.lookup_kept block absent.2, first.lookup_kept block absent.1]

theorem insert (owned : Owned s.downloadSchedulers s.inflightStates) (peer : P) (now : Nat)
    (absent : block ∉ s.inflightStates) : Grows peer now s (s.insert peer block now).1 [block] := by
  have states := (insert_fresh owned peer now absent).2
  refine ⟨owned_insert owned peer block now, List.nodup_singleton _, ?_, ?_, ?_⟩
  · intro other member
    rw [List.mem_singleton.mp member]
    exact absent
  · intro other member
    rw [List.mem_singleton.mp member, states, Finmap.lookup_insert]
  · intro other member
    rw [states, Finmap.lookup_insert_of_ne _ (List.ne_of_not_mem_cons member)]

theorem perm (grows : Grows peer now before after added) (reordered : added.Perm more) :
    Grows peer now before after more := by
  refine ⟨grows.owned, reordered.nodup_iff.mp grows.nodup, ?_, ?_, ?_⟩
  · intro block member
    exact grows.fresh block (reordered.mem_iff.mpr member)
  · intro block member
    exact grows.lookup_added block (reordered.mem_iff.mpr member)
  · intro block absent
    exact grows.lookup_kept block (fun member => absent (reordered.mem_iff.mp member))

theorem markSlowBlock [LinearOrder P] (grows : Grows peer now before after added) (tip time : Nat) :
    Grows peer now before (after.markSlowBlock tip time) added :=
  ⟨grows.owned, grows.nodup, grows.fresh, grows.lookup_added, grows.lookup_kept⟩

end Grows

end InflightBlocks

namespace BlockFetcher

open InflightBlocks

variable {P H : Type}

/-- The header views hold the ancestry `chain` of the peer's best known header, and both fast
scanners return nothing or the chain's header. -/
structure FetchChain (ctx : FetchContext P H) (bestKnown : BlockNumberAndHash H) (chain : Nat → HeaderIndexView H) :
    Prop where
  ready : HeaderIndexView.AncestorChain ctx.active.getHeaderIndexView (chain bestKnown.number) chain
  number_eq : (chain bestKnown.number).number = bestKnown.number
  hash_eq : (chain bestKnown.number).hash = bestKnown.hash
  scanner : ∀ k ≤ bestKnown.number, ∀ target, ctx.active.fastScanner target ((chain k).number, (chain k).hash) = none ∨
    ctx.active.fastScanner target ((chain k).number, (chain k).hash) = some (chain target)
  unverifiedScanner : ∀ k ≤ bestKnown.number, ∀ target,
    ctx.unverifiedScanner target ((chain k).number, (chain k).hash) = none ∨
      ctx.unverifiedScanner target ((chain k).number, (chain k).hash) = some (chain target)

/-- A header the fetcher chose: the chain's header at a number in `[low, high]`, neither stored
nor received by its status. -/
def Picked (ctx : FetchContext P H) (chain : Nat → HeaderIndexView H) (low high : Nat) (header : HeaderIndexView H) :
    Prop :=
  ∃ k, header = chain k ∧ low ≤ k ∧ k ≤ high ∧ (ctx.getBlockStatus header.hash).contains .blockStored = false ∧
    (ctx.getBlockStatus header.hash).contains .blockReceived = false

variable {ctx : FetchContext P H} {bestKnown : BlockNumberAndHash H} {chain : Nat → HeaderIndexView H}

theorem Picked.mono {low high low' high' : Nat} {header : HeaderIndexView H} (picked : Picked ctx chain low high header)
    (lower : low' ≤ low) (higher : high ≤ high') : Picked ctx chain low' high' header := by
  obtain ⟨k, rfl, above, below, stored, received⟩ := picked
  exact ⟨k, rfl, by omega, by omega, stored, received⟩

namespace FetchChain

variable (consistent : FetchChain ctx bestKnown chain)
include consistent

theorem below {k : Nat} (within : k ≤ bestKnown.number) : k ≤ (chain bestKnown.number).number := by
  rw [consistent.number_eq]
  exact within

theorem number_of_le {k : Nat} (within : k ≤ bestKnown.number) : (chain k).number = k :=
  consistent.ready.number_eq k (consistent.below within)

theorem hash_injective {j k : Nat} (hj : j ≤ bestKnown.number) (hk : k ≤ bestKnown.number)
    (same : (chain j).hash = (chain k).hash) : j = k := by
  have views := consistent.ready.lookup j (consistent.below hj) false
  rw [same, consistent.ready.lookup k (consistent.below hk) false] at views
  have numbers := congrArg HeaderIndexView.number (Option.some.inj views)
  rwa [consistent.number_of_le hk, consistent.number_of_le hj, eq_comm] at numbers

theorem getAncestor {k : Nat} (within : k ≤ bestKnown.number) :
    BlockFetcher.getAncestor ctx bestKnown.hash k = some (chain k) := by
  have scanner := consistent.scanner
  have unverified := consistent.unverifiedScanner
  rw [← consistent.number_eq] at scanner unverified
  rw [← consistent.hash_eq]
  unfold BlockFetcher.getAncestor
  split
  · -- the unverified read walks the same header views
    have ready : HeaderIndexView.AncestorChain
        ({ ctx.active with tipNumber := ctx.unverifiedTipNumber, fastScanner := ctx.unverifiedScanner } :
          ActiveChain H).getHeaderIndexView (chain bestKnown.number) chain := consistent.ready
    exact ActiveChain.getAncestor_chain ready unverified (consistent.below le_rfl) within
  · exact ActiveChain.getAncestor_chain consistent.ready scanner (consistent.below le_rfl) within

end FetchChain

theorem Picked.pairwise_ne (consistent : FetchChain ctx bestKnown chain) {low : Nat} {headers : List (HeaderIndexView H)}
    (picked : ∀ header ∈ headers, Picked ctx chain low bestKnown.number header) (nodup : headers.Nodup) :
    headers.Pairwise (fun a b => a.number ≠ b.number) ∧ headers.Pairwise (fun a b => a.hash ≠ b.hash) := by
  constructor
  · refine nodup.imp_of_mem fun first second differ same => ?_
    obtain ⟨i, rfl, -, hi, -⟩ := picked _ first
    obtain ⟨j, rfl, -, hj, -⟩ := picked _ second
    rw [consistent.number_of_le hi, consistent.number_of_le hj] at same
    exact differ (congrArg chain same)
  · refine nodup.imp_of_mem fun first second differ same => ?_
    obtain ⟨i, rfl, -, hi, -⟩ := picked _ first
    obtain ⟨j, rfl, -, hj, -⟩ := picked _ second
    exact differ (congrArg chain (consistent.hash_injective hi hj same))

theorem sorted_chosen (consistent : FetchChain ctx bestKnown chain) {low : Nat} {added : List (HeaderIndexView H)}
    (picked : ∀ header ∈ added, Picked ctx chain low bestKnown.number header) (nodup : added.Nodup) :
    (added.mergeSort fun a b => a.number ≤ b.number).Pairwise (fun a b => a.number < b.number) ∧
      ((added.mergeSort fun a b => a.number ≤ b.number).map (·.hash)).Nodup := by
  have reordered := List.mergeSort_perm added fun a b => decide (a.number ≤ b.number)
  have distinct := Picked.pairwise_ne consistent (fun header member => picked header (reordered.mem_iff.mp member))
    (reordered.nodup_iff.mpr nodup)
  have ordered : (added.mergeSort fun a b => decide (a.number ≤ b.number)).Pairwise
      (fun a b => decide (a.number ≤ b.number) = true) :=
    List.pairwise_mergeSort (fun a b c => by simp only [decide_eq_true_eq]; omega)
      (fun a b => by simp only [Bool.or_eq_true, decide_eq_true_eq]; omega) added
  refine ⟨(ordered.and distinct.1).imp fun both => ?_, List.pairwise_map.mpr distinct.2⟩
  simp only [decide_eq_true_eq] at both
  omega

variable [DecidableEq P] [LinearOrder P] [LinearOrder H]

omit [LinearOrder P] in
theorem consider_grows {inflight : InflightBlocks P H} (owned : Owned inflight.downloadSchedulers inflight.inflightStates)
    (fetch : List (HeaderIndexView H)) (header : HeaderIndexView H) (status : BlockStatus) :
    ∃ added, (consider ctx inflight fetch header status).2 = fetch ++ added ∧
      Grows ctx.peer ctx.now inflight (consider ctx inflight fetch header status).1
        (added.map HeaderIndexView.numberAndHash) ∧
      (added = [] ∨ added = [header] ∧ status.contains .blockReceived = false) := by
  unfold consider
  split_ifs with received pending
  · exact ⟨[], by simp, Grows.refl owned, Or.inl rfl⟩
  · by_cases present : header.numberAndHash ∈ inflight.inflightStates
    · rw [insert_present ctx.peer ctx.now present]
      exact ⟨[], by simp, Grows.refl owned, Or.inl rfl⟩
    · have grows := Grows.insert owned ctx.peer ctx.now present
      have inserted := (insert_fresh owned ctx.peer ctx.now present).1
      rcases insertion : inflight.insert ctx.peer header.numberAndHash ctx.now with ⟨inflight', flag⟩
      rw [insertion] at grows inserted
      dsimp only at inserted ⊢
      rw [inserted, if_pos rfl]
      exact ⟨[header], rfl, grows, Or.inr ⟨rfl, by simpa using received⟩⟩
  · exact ⟨[], by simp, Grows.refl owned, Or.inl rfl⟩

omit [LinearOrder P] in
/-- A window scanned from the chain's header at `k` down: it inserts and chooses fresh headers of
the numbers `k + 1 - span` to `k`, at most `span` of them, and keeps `end` within the best chain. -/
theorem scanWindow_spec (consistent : FetchChain ctx bestKnown chain) :
    ∀ span k (inflight : InflightBlocks P H) fetch endNumber, span ≤ k → k ≤ bestKnown.number →
      Owned inflight.downloadSchedulers inflight.inflightStates → endNumber ≤ bestKnown.number →
      ∃ inflight' added endNumber', scanWindow ctx bestKnown.number span (chain k) (ctx.getBlockStatus (chain k).hash)
          inflight fetch endNumber = (inflight', some (fetch ++ added, endNumber')) ∧
        Grows ctx.peer ctx.now inflight inflight' (added.map HeaderIndexView.numberAndHash) ∧
        added.length ≤ span ∧ (∀ header ∈ added, Picked ctx chain (k + 1 - span) k header) ∧
        endNumber' ≤ bestKnown.number := by
  intro span
  induction span with
  | zero =>
    intro k inflight fetch endNumber _ _ owned bounded
    exact ⟨inflight, [], endNumber, by rw [scanWindow, List.append_nil], Grows.refl owned, le_rfl, by simp, bounded⟩
  | succ span ih =>
    intro k inflight fetch endNumber enough within owned bounded
    rw [scanWindow]
    split_ifs with stored
    · -- a stored block ends the window
      exact ⟨inflight, [], _, by rw [List.append_nil], Grows.refl owned, Nat.zero_le _, by simp, min_le_left _ _⟩
    obtain ⟨added, fetched, grows, single⟩ := consider_grows owned fetch (chain k) (ctx.getBlockStatus (chain k).hash)
    rcases considered : consider ctx inflight fetch (chain k) (ctx.getBlockStatus (chain k).hash) with
      ⟨inflight₁, fetch₁⟩
    rw [considered] at fetched grows
    dsimp only at fetched grows ⊢
    -- the parent of the chain's header is the chain's header below it
    rw [consistent.ready.parent k (consistent.below within) (by omega),
      consistent.ready.lookup (k - 1) (consistent.below (by omega)) false]
    dsimp only
    obtain ⟨inflight', more, endNumber', run, grows', length, picked, bound⟩ :=
      ih (k - 1) inflight₁ fetch₁ endNumber (by omega) (by omega) grows.owned bounded
    refine ⟨inflight', added ++ more, endNumber', ?_, ?_, ?_, ?_, bound⟩
    · rw [run, fetched, List.append_assoc]
    · rw [List.map_append]
      exact grows.trans grows'
    · rcases single with rfl | ⟨rfl, -⟩
      · rw [List.nil_append]
        omega
      · rw [List.length_append, List.length_singleton]
        omega
    · intro header member
      rcases List.mem_append.mp member with here | later
      · rcases single with rfl | ⟨rfl, received⟩
        · cases here
        · rw [List.mem_singleton.mp here]
          exact ⟨k, rfl, by omega, le_rfl, by simpa using stored, received⟩
      · exact (picked header later).mono (by omega) (by omega)

omit [LinearOrder P] in
/-- The window loop with fuel above the numbers left: it ends with fresh headers from `start` to
the best known number, at most `n_fetch` in all. -/
theorem fetchWindows_spec (consistent : FetchChain ctx bestKnown chain) (nFetch : Nat) :
    ∀ fuel start (inflight : InflightBlocks P H) fetch endNumber, 0 < start → bestKnown.number + 1 - start < fuel →
      endNumber ≤ bestKnown.number → fetch.length ≤ nFetch →
      Owned inflight.downloadSchedulers inflight.inflightStates →
      ∃ inflight' added, fetchWindows ctx bestKnown nFetch fuel start inflight fetch endNumber =
          (inflight', some (fetch ++ added)) ∧
        Grows ctx.peer ctx.now inflight inflight' (added.map HeaderIndexView.numberAndHash) ∧
        fetch.length + added.length ≤ nFetch ∧ ∀ header ∈ added, Picked ctx chain start bestKnown.number header := by
  intro fuel
  induction fuel with
  | zero =>
    intro start inflight fetch endNumber _ enough
    omega
  | succ fuel ih =>
    intro start inflight fetch endNumber positive enough bounded short owned
    rw [fetchWindows]
    split_ifs with more
    · dsimp only
      obtain ⟨fewer, notPast⟩ := more
      set span := min (endNumber - start + 1) (nFetch - fetch.length) with spanEq
      have spanPositive : 0 < span := by omega
      have spanFits : span ≤ endNumber - start + 1 ∧ span ≤ nFetch - fetch.length :=
        ⟨min_le_left _ _, min_le_right _ _⟩
      rw [consistent.getAncestor (show start + span - 1 ≤ bestKnown.number by omega)]
      dsimp only
      obtain ⟨inflight₁, added, endNumber₁, run, grows, length, picked, bound⟩ :=
        scanWindow_spec consistent span (start + span - 1) inflight fetch endNumber (by omega) (by omega) owned bounded
      rw [run]
      dsimp only
      obtain ⟨inflight', more, run', grows', length', picked'⟩ :=
        ih (start + span) inflight₁ (fetch ++ added) endNumber₁ (by omega) (by omega) bound
          (by rw [List.length_append]; omega) grows.owned
      refine ⟨inflight', added ++ more, by rw [run', List.append_assoc], ?_, ?_, ?_⟩
      · rw [List.map_append]
        exact grows.trans grows'
      · rw [List.length_append] at length' ⊢
        omega
      · intro header member
        rcases List.mem_append.mp member with here | later
        · exact (picked header here).mono (by omega) (by omega)
        · exact (picked' header later).mono (by omega) le_rfl
    · exact ⟨inflight, [], by rw [List.append_nil], Grows.refl owned, by simpa using short, by simp⟩

/-- `fetch` on a consistent header store, with the schedulers owning their blocks. It returns `None`
exactly when a guard fails, before any insert, so the inflight blocks are unchanged; the window
loop always ends. `Some(batches)` sends fresh headers of the best chain from `start`
to the best known number, neither stored nor received, sorted and without a repeated hash, at
most `peer_can_fetch_count` of them in chunks of `INIT_BLOCKS_IN_TRANSIT_PER_PEER`; the blocks
newly in flight are exactly these, each from the peer. -/
theorem fetch_spec (ctx : FetchContext P H) (inflight : InflightBlocks P H) (fetchEnd : Nat)
    {bestKnown lastCommon : BlockNumberAndHash H} {chain : Nat → HeaderIndexView H}
    (known : ctx.bestKnown = some bestKnown) (common : ctx.lastCommon = some lastCommon)
    (consistent : FetchChain ctx bestKnown chain) (owned : Owned inflight.downloadSchedulers inflight.inflightStates) :
    ((fetch ctx inflight fetchEnd).2 = none ↔ ctx.tipNumber + blockDownloadWindow * 9 ≤ ctx.unverifiedTipNumber ∨
      inflight.peerCanFetchCount ctx.peer = 0 ∨ ctx.betterThanTip = false ∨ lastCommon = bestKnown ∨
      ctx.ibd = .In ∧ bestKnown.number ≤ ctx.unverifiedTipNumber) ∧
    ((fetch ctx inflight fetchEnd).2 = none → (fetch ctx inflight fetchEnd).1 = inflight) ∧
      ∀ batches, (fetch ctx inflight fetchEnd).2 = some batches →
        ∃ fetched : List (HeaderIndexView H), batches.flatten = fetched.map (·.hash) ∧
          fetched.Pairwise (fun a b => a.number < b.number) ∧ (fetched.map (·.hash)).Nodup ∧
          (∀ header ∈ fetched, Picked ctx chain (start ctx lastCommon) bestKnown.number header) ∧
          fetched.length ≤ inflight.peerCanFetchCount ctx.peer ∧
          (∀ batch ∈ batches, batch.length ≤ initBlocksInTransitPerPeer) ∧
          Grows ctx.peer ctx.now inflight (fetch ctx inflight fetchEnd).1 (fetched.map HeaderIndexView.numberAndHash) := by
  unfold fetch
  rw [known, common]
  dsimp only
  split_ifs with busy limit worse same ahead
  -- every guard returns before the first insert
  all_goals try exact ⟨iff_of_true rfl (by simp_all), fun _ => rfl, fun _ sent => (by cases sent)⟩
  have positive : 0 < start ctx lastCommon := by
    unfold start
    split <;> omega
  obtain ⟨inflight', added, run, grows, length, picked⟩ :=
    fetchWindows_spec consistent _ (bestKnown.number + 1) (start ctx lastCommon) inflight [] _ positive (by omega)
      (min_le_of_right_le (min_le_left _ _)) (Nat.zero_le _) owned
  rw [run, List.nil_append]
  dsimp only
  refine ⟨iff_of_false (fun returned => by cases returned) ?_, fun returned => (by cases returned),
    fun batches sent => ?_⟩
  · simp only [not_or, not_and, not_le]
    exact ⟨by omega, limit, by simpa using worse, same, fun during => by simpa [during] using ahead⟩
  cases sent
  have reordered := List.mergeSort_perm added fun a b => decide (a.number ≤ b.number)
  obtain ⟨ordered, distinct⟩ := sorted_chosen consistent picked (List.Nodup.of_map _ grows.nodup)
  refine ⟨added.mergeSort fun a b => a.number ≤ b.number, ?_, ordered, distinct, ?_, ?_, ?_, ?_⟩
  · rw [← List.map_flatten, List.flatten_chunks]
  · intro header member
    exact picked header (reordered.mem_iff.mp member)
  · rw [reordered.length_eq]
    rw [List.length_nil, Nat.zero_add] at length
    exact length.trans (min_le_right _ _)
  · intro batch member
    obtain ⟨piece, chunk, rfl⟩ := List.mem_map.mp member
    rw [List.length_map]
    exact List.length_le_of_mem_chunks (by decide) chunk
  · have sortedGrows := grows.perm (reordered.map HeaderIndexView.numberAndHash).symm
    split_ifs
    · exact sortedGrows.markSlowBlock _ _
    · exact sortedGrows

section Samples

/-- A peer whose best known header is the fourth of the five sample headers, with the genesis as
the last common header; the block at one is stored and no compact block is pending. -/
def sampleFetchContext : FetchContext Nat Nat where
  peer := 1
  ibd := .Out
  tipNumber := 0
  unverifiedTipNumber := 0
  bestKnown := some ⟨4, 104⟩
  betterThanTip := true
  lastCommon := some ⟨0, 100⟩
  active := ⟨0, HeaderIndexView.sampleLookup, fun _ _ => none, 100, fun _ => none, fun _ => none⟩
  unverifiedScanner := fun _ _ => none
  getBlockStatus := fun hash => if hash = 101 then .blockStored else ⟨0⟩
  comparePendingCompact := fun _ => true
  now := 0

theorem sampleFetchContext_chain : FetchChain sampleFetchContext ⟨4, 104⟩ HeaderIndexView.sampleChain :=
  ⟨HeaderIndexView.sampleChain_ready, rfl, rfl, fun _ _ _ => Or.inl rfl, fun _ _ _ => Or.inl rfl⟩

theorem sample_fetch_follows_spec :
    sampleFetchContext.bestKnown = some ⟨4, 104⟩ ∧ sampleFetchContext.lastCommon = some ⟨0, 100⟩ ∧
      FetchChain sampleFetchContext ⟨4, 104⟩ HeaderIndexView.sampleChain ∧
      Owned (default : InflightBlocks Nat Nat).downloadSchedulers (default : InflightBlocks Nat Nat).inflightStates ∧
      ((fetch sampleFetchContext default 1).2 = none ↔
        sampleFetchContext.tipNumber + blockDownloadWindow * 9 ≤ sampleFetchContext.unverifiedTipNumber ∨
          (default : InflightBlocks Nat Nat).peerCanFetchCount sampleFetchContext.peer = 0 ∨
          sampleFetchContext.betterThanTip = false ∨ (⟨0, 100⟩ : BlockNumberAndHash Nat) = ⟨4, 104⟩ ∨
          sampleFetchContext.ibd = .In ∧ 4 ≤ sampleFetchContext.unverifiedTipNumber) ∧
      ((fetch sampleFetchContext default 1).2 = none → (fetch sampleFetchContext default 1).1 = default) ∧
      ∀ batches, (fetch sampleFetchContext default 1).2 = some batches →
        ∃ fetched : List (HeaderIndexView Nat), batches.flatten = fetched.map (·.hash) ∧
          fetched.Pairwise (fun a b => a.number < b.number) ∧ (fetched.map (·.hash)).Nodup ∧
          (∀ header ∈ fetched,
            Picked sampleFetchContext HeaderIndexView.sampleChain (start sampleFetchContext ⟨0, 100⟩) 4 header) ∧
          fetched.length ≤ (default : InflightBlocks Nat Nat).peerCanFetchCount sampleFetchContext.peer ∧
          (∀ batch ∈ batches, batch.length ≤ initBlocksInTransitPerPeer) ∧
          Grows sampleFetchContext.peer sampleFetchContext.now default (fetch sampleFetchContext default 1).1
            (fetched.map HeaderIndexView.numberAndHash) :=
  ⟨rfl, rfl, sampleFetchContext_chain, owned_empty,
    fetch_spec sampleFetchContext default 1 rfl rfl sampleFetchContext_chain owned_empty⟩

/-- With `fetch_end` one, the first window meets the stored block at one and moves `end` to the
best known number, so the next window fetches the block at two, past `fetch_end`. -/
theorem fetch_passes_fetch_end :
    (fetch sampleFetchContext (default : InflightBlocks Nat Nat) 1).2 = some [[102]] ∧
      sampleFetchContext.active.getHeaderIndexView 102 false = some (HeaderIndexView.sampleChain 2) ∧
      (HeaderIndexView.sampleChain 2).number > 1 := by
  decide +kernel

end Samples

end BlockFetcher

end Ckb.Sync
