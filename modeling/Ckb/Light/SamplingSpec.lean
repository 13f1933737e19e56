import Ckb.Light.SearchSpec

namespace Ckb.Light

open FindBlocksViaDifficulties BlockSampler

/-- Where the last-N segment of a request from `start` to the last block `L` begins: at the start
when at most `last_n_blocks` blocks follow it, else at the first block of `[start, L)` whose total
difficulty reaches the boundary, moved down to keep `last_n_blocks` blocks. -/
def LastNStart (td : Nat → Option Nat) (start L lastNBlocks boundary m : Nat) : Prop :=
  (L - start ≤ lastNBlocks → m = start) ∧
    (lastNBlocks < L - start → ∃ b, IsLeast (Reaching td start boundary ∩ Set.Iio L) b ∧ m = min b (L - lastNBlocks))

/-- The sampled numbers before a last-N segment from `m`: the first blocks from the start reaching
the positive requested difficulties that block `m - 1` reaches. -/
def SampledFor (td : Nat → Option Nat) (start m : Nat) (difficulties sampled : List Nat) : Prop :=
  ∀ n, n ∈ sampled ↔
    ∃ d ∈ difficulties, 0 < d ∧ (0 < m ∧ ∃ x, td (m - 1) = some x ∧ d ≤ x) ∧ IsLeast (Reaching td start d) n

/-- What the request checks establish: the difficulties increase, and each is above the total
difficulty of the block before the start. -/
structure RequestChecked (td : Nat → Option Nat) (start : Nat) (difficulties : List Nat) : Prop where
  sorted : difficulties.Pairwise (· < ·)
  above : 0 < start → ∀ d ∈ difficulties, ∃ x, td (start - 1) = some x ∧ x < d

theorem isChain_of_windows : ∀ {difficulties : List Nat},
    (difficulties.zip difficulties.tail).any (fun (first, second) => decide (first ≥ second)) = false →
      difficulties.IsChain (· < ·)
  | [], _ => .nil
  | [d], _ => .singleton d
  | first :: second :: rest, increasing => by
    simp only [List.tail_cons, List.zip_cons_cons, List.any_cons, Bool.or_eq_false_iff,
      decide_eq_false_iff_not] at increasing
    exact .cons_cons (by omega) (isChain_of_windows increasing.2)

theorem mem_takeWhile_le {x d : Nat} : ∀ {difficulties : List Nat}, difficulties.Pairwise (· < ·) →
    (d ∈ difficulties.takeWhile (fun d => decide (d ≤ x)) ↔ d ∈ difficulties ∧ d ≤ x)
  | [], _ => by simp
  | first :: rest, sorted => by
    rw [List.pairwise_cons] at sorted
    by_cases within : first ≤ x
    · rw [List.takeWhile_cons_of_pos (by simpa using within), List.mem_cons, List.mem_cons,
        mem_takeWhile_le sorted.2]
      constructor
      · rintro (rfl | ⟨member, le⟩)
        · exact ⟨.inl rfl, within⟩
        · exact ⟨.inr member, le⟩
      · rintro ⟨rfl | member, le⟩
        · exact .inl rfl
        · exact .inr ⟨member, le⟩
    · rw [List.takeWhile_cons_of_neg (by simpa using within)]
      simp only [List.not_mem_nil, List.mem_cons, false_iff, not_and]
      rintro (rfl | member) le
      · exact within le
      · have := sorted.1 d member
        omega

theorem difficultyText_ne (a b : String) : "the difficulty (" ++ a ≠ "the total difficulty for block#" ++ b := by
  intro same
  have := congrArg (fun text : String => text.toList.take 5) same
  simp [String.toList_append] at this

theorem notInRangeMessage_ne (d s e n : Nat) :
    notInRangeMessage d s e ≠ "the total difficulty for block#" ++ toString n ++ " is not found" := by
  unfold notInRangeMessage
  simp only [String.append_assoc]
  apply difficultyText_ne

variable {td : Nat → Option Nat}

theorem RequestChecked.start_lt (checked : RequestChecked td start difficulties) (increasing : Increasing td)
    {d m x : Nat} (member : d ∈ difficulties) (hm : td (m - 1) = some x) (reaches : d ≤ x) (positive : 0 < m) :
    start < m := by
  by_cases origin : start = 0
  · omega
  · rcases checked.above (Nat.pos_of_ne_zero origin) d member with ⟨y, hy, below⟩
    apply Nat.lt_of_not_le
    intro late
    have := increasing.le (by omega : m - 1 ≤ start - 1) hm hy
    omega

/-- The sampled numbers below a last-N segment from `m`, whose block `m - 1` has total difficulty
`x`: unless a search panics, they are the first blocks reaching the difficulties, in order. -/
theorem samples_spec (increasing : Increasing td) {start m x : Nat} {difficulties : List Nat}
    (checked : RequestChecked td start difficulties) (positive : 0 < m) (hm : td (m - 1) = some x) :
    getBlockNumbersViaDifficulties td start m (difficulties.takeWhile fun d => decide (d ≤ x)) = none ∨
      ∃ sampled, getBlockNumbersViaDifficulties td start m (difficulties.takeWhile fun d => decide (d ≤ x)) =
          some (.ok sampled) ∧
        sampled.Pairwise (· < ·) ∧ (∀ n ∈ sampled, start ≤ n ∧ n < m) ∧ SampledFor td start m difficulties sampled := by
  have mem : ∀ d, d ∈ difficulties.takeWhile (fun d => decide (d ≤ x)) ↔ d ∈ difficulties ∧ d ≤ x :=
    fun d => mem_takeWhile_le checked.sorted
  have window : ∀ d, (0 < m ∧ ∃ x', td (m - 1) = some x' ∧ d ≤ x') ↔ d ≤ x := by
    intro d
    simp [positive, hm]
  by_cases empty : difficulties.takeWhile (fun d => decide (d ≤ x)) = []
  · -- no difficulty up to `x`: nothing is searched
    refine .inr ⟨[], by rw [empty]; rfl, .nil, by simp, fun n => ?_⟩
    simp only [List.not_mem_nil, false_iff, not_exists, not_and]
    intro d member _ reach _
    have taken := (mem d).mpr ⟨member, (window d).mp reach⟩
    rw [empty] at taken
    exact List.not_mem_nil taken
  · rcases List.exists_mem_of_ne_nil _ empty with ⟨d, member⟩
    have lt := checked.start_lt increasing ((mem d).mp member).1 hm ((mem d).mp member).2 positive
    have sorted : (difficulties.takeWhile fun d => decide (d ≤ x)).Pairwise (· < ·) :=
      checked.sorted.sublist (List.takeWhile_prefix _).sublist
    have reach : ∀ d ∈ difficulties.takeWhile (fun d => decide (d ≤ x)), ∃ x', td (m - 1) = some x' ∧ d ≤ x' :=
      fun d member => ⟨x, hm, ((mem d).mp member).2⟩
    rcases getBlockNumbersViaDifficulties_spec increasing sorted reach lt with panicked | ⟨sampled, ran, sorted', below, mem'⟩
    · exact .inl panicked
    · refine .inr ⟨sampled, ran, sorted', fun n member => ⟨?_, below n member⟩, fun n => ?_⟩
      · rcases (mem' n).mp member with ⟨_, _, _, least⟩
        exact least.1.1
      · rw [mem']
        constructor
        · rintro ⟨d, member, positive', least⟩
          exact ⟨d, ((mem d).mp member).1, positive', (window d).mpr ((mem d).mp member).2, least⟩
        · rintro ⟨d, member, positive', reach', least⟩
          exact ⟨d, (mem d).mpr ⟨member, (window d).mp reach'⟩, positive', least⟩

variable {H : Type} [DecidableEq H] {store : Store H}

theorem checkRequestData_eq_none {start boundary : Nat} {difficulties : List Nat}
    (passed : checkRequestData store start boundary difficulties = none) :
    RequestChecked (getBlockTotalDifficulty store) start difficulties := by
  unfold checkRequestData at passed
  by_cases unordered : (difficulties.zip difficulties.tail).any (fun (first, second) => decide (first ≥ second))
  · rw [if_pos unordered] at passed
    cases passed
  · rw [if_neg unordered] at passed
    have sorted := List.isChain_iff_pairwise.mp (isChain_of_windows (by simpa using unordered))
    refine ⟨sorted, fun positive d member => ?_⟩
    by_cases bounded : (difficulties.getLast?.map fun difficulty => decide (difficulty ≥ boundary)).getD false
    · rw [if_pos bounded] at passed
      cases passed
    · rw [if_neg bounded] at passed
      -- the head is the least difficulty, and it is above the block before the start
      rcases difficulties with _ | ⟨first, rest⟩
      · cases member
      · dsimp only [List.head?_cons] at passed
        rw [if_pos positive] at passed
        rcases hprevious : getBlockTotalDifficulty store (start - 1) with _ | y
        · rw [hprevious] at passed
          cases passed
        · rw [hprevious] at passed
          dsimp only at passed
          by_cases low : y ≥ first
          · rw [if_pos low] at passed
            cases passed
          · refine ⟨y, rfl, ?_⟩
            rcases List.mem_cons.mp member with rfl | later
            · omega
            · have := List.rel_of_pairwise_cons sorted later
              omega

theorem checkRequestData_ne_notInRange {start boundary : Nat} {difficulties : List Nat} (d s e : Nat) :
    checkRequestData store start boundary difficulties ≠ some ⟨.internalError, notInRangeMessage d s e⟩ := by
  intro failed
  unfold checkRequestData at failed
  split at failed
  · cases failed
  · split at failed
    · cases failed
    · split at failed
      · cases failed
      · split at failed
        · dsimp only at failed
          split at failed
          · split at failed
            · cases failed
            · cases failed
          · simp only [Option.some.injEq, Status.mk.injEq, true_and] at failed
            exact notInRangeMessage_ne d s e _ failed.symm
        · cases failed

theorem sampledAndLastNNumbers_spec (increasing : Increasing (getBlockTotalDifficulty store))
    {start L lastNBlocks boundary : Nat} {difficulties sampled lastNNumbers : List Nat}
    (checked : RequestChecked (getBlockTotalDifficulty store) start difficulties)
    (ran : sampledAndLastNNumbers store start L lastNBlocks boundary difficulties = some (.ok (sampled, lastNNumbers))) :
    start ≤ L ∧ ∃ m, start ≤ m ∧ m ≤ L ∧ lastNNumbers = List.range' m (L - m) ∧
      LastNStart (getBlockTotalDifficulty store) start L lastNBlocks boundary m ∧
      sampled.Pairwise (· < ·) ∧ (∀ n ∈ sampled, start ≤ n ∧ n < m) ∧
      SampledFor (getBlockTotalDifficulty store) start m difficulties sampled := by
  unfold sampledAndLastNNumbers at ran
  rcases hblocks : checkedSub L start with _ | blocks
  · rw [hblocks] at ran
    cases ran
  · rw [hblocks] at ran
    dsimp only at ran
    rcases checkedSub_eq_some.mp hblocks with ⟨le, rfl⟩
    by_cases few : L - start ≤ lastNBlocks
    · rw [if_pos few] at ran
      cases ran
      refine ⟨le, start, le_rfl, le, rfl, ⟨fun _ => rfl, fun many => absurd many (by omega)⟩, .nil, by simp, ?_⟩
      -- every difficulty is above the block before the start
      intro n
      simp only [List.not_mem_nil, false_iff, not_exists, not_and]
      intro d member _ ⟨positive, x, hx, reaches⟩ _
      rcases checked.above positive d member with ⟨x', hx', below⟩
      rw [hx, Option.some_inj] at hx'
      omega
    · rw [if_neg few] at ran
      have lt : start < L := by omega
      rcases hfirst : getFirstBlockTotalDifficultyIsNotLessThan (getBlockTotalDifficulty store) start L boundary
        with _ | _ | ⟨num, y⟩
      · rw [hfirst] at ran
        cases ran
      · rw [hfirst] at ran
        cases ran
      · rw [hfirst] at ran
        dsimp only at ran
        rcases (getFirst_sound increasing lt hfirst).2 num y rfl with ⟨-, least⟩
        have below : num < L := least.1.2
        have above : start ≤ num := least.1.1.1
        -- moving the boundary down to keep `last_n_blocks` blocks is a minimum
        have moved : (if L - num < lastNBlocks then L - lastNBlocks else num) = min num (L - lastNBlocks) := by
          split <;> omega
        rw [moved] at ran
        have lastNStart : LastNStart (getBlockTotalDifficulty store) start L lastNBlocks boundary (min num (L - lastNBlocks)) :=
          ⟨fun few' => absurd few' few, fun _ => ⟨num, least, rfl⟩⟩
        by_cases positive : min num (L - lastNBlocks) > 0
        · rw [if_pos positive] at ran
          rcases hx : getBlockTotalDifficulty store (min num (L - lastNBlocks) - 1) with _ | x
          · rw [hx] at ran
            cases ran
          · rw [hx] at ran
            dsimp only at ran
            rcases samples_spec increasing checked positive hx with panicked | ⟨sampled', found, sorted, within, mem⟩
            · rw [panicked] at ran
              cases ran
            · rw [found] at ran
              cases ran
              exact ⟨le, _, by omega, by omega, rfl, lastNStart, sorted, within, mem⟩
        · rw [if_neg positive] at ran
          cases ran
          refine ⟨le, _, by omega, by omega, rfl, lastNStart, .nil, by simp, ?_⟩
          intro n
          simp only [List.not_mem_nil, false_iff, not_exists, not_and]
          intro d _ _ ⟨positive', _⟩
          omega

theorem sampledAndLastNNumbers_ne_notInRange (increasing : Increasing (getBlockTotalDifficulty store))
    {start L lastNBlocks boundary : Nat} {difficulties : List Nat}
    (checked : RequestChecked (getBlockTotalDifficulty store) start difficulties) (d s e : Nat) :
    sampledAndLastNNumbers store start L lastNBlocks boundary difficulties ≠
      some (.error ⟨.internalError, notInRangeMessage d s e⟩) := by
  intro ran
  unfold sampledAndLastNNumbers at ran
  rcases hblocks : checkedSub L start with _ | blocks
  · rw [hblocks] at ran
    cases ran
  · rw [hblocks] at ran
    dsimp only at ran
    by_cases few : blocks ≤ lastNBlocks
    · rw [if_pos few] at ran
      cases ran
    · rw [if_neg few] at ran
      rcases hfirst : getFirstBlockTotalDifficultyIsNotLessThan (getBlockTotalDifficulty store) start L boundary
        with _ | _ | ⟨num, y⟩
      · rw [hfirst] at ran
        cases ran
      · rw [hfirst] at ran
        cases ran
      · rw [hfirst] at ran
        dsimp only at ran
        generalize (if L - num < lastNBlocks then L - lastNBlocks else num) = m at ran
        by_cases positive : m > 0
        · rw [if_pos positive] at ran
          rcases hx : getBlockTotalDifficulty store (m - 1) with _ | x
          · rw [hx] at ran
            simp only [Option.some.injEq, Except.error.injEq, Status.mk.injEq, true_and] at ran
            exact notInRangeMessage_ne d s e m ran.symm
          · rw [hx] at ran
            dsimp only at ran
            -- the searches panic or succeed: the loop never reports a difficulty out of range
            rcases samples_spec increasing checked positive hx with panicked | ⟨sampled, found, -⟩
            · rw [panicked] at ran
              cases ran
            · rw [found] at ran
              cases ran
        · rw [if_neg positive] at ran
          cases ran

theorem reorgLastNNumbers_below (store : Store H) (message : GetLastStateProof H) :
    (reorgLastNNumbers store message).Pairwise (· < ·) ∧ ∀ n ∈ reorgLastNNumbers store message, n < message.startNumber := by
  unfold reorgLastNNumbers
  split
  · simp
  · refine ⟨List.pairwise_lt_range', fun n member => ?_⟩
    rw [List.mem_range'_1] at member
    omega

theorem execute_cases {message : GetLastStateProof H} {outcome : Outcome} (ran : execute store message = some outcome) :
    (∃ status, outcome = .status status ∧
      (status = ⟨.malformedProtocolMessage, "too many samples"⟩ ∨
        checkRequestData store message.startNumber message.difficultyBoundary message.difficulties = some status ∨
        checkRequestData store message.startNumber message.difficultyBoundary message.difficulties = none ∧
          ∃ lastBlock : Block H, sampledAndLastNNumbers store message.startNumber lastBlock.number message.lastNBlocks
            message.difficultyBoundary message.difficulties = some (.error status))) ∨
      outcome = .replyTipState ∨
      ∃ lastBlock, store.getBlock message.lastHash = some (some lastBlock) ∧
        checkRequestData store message.startNumber message.difficultyBoundary message.difficulties = none ∧
        ∃ sampled lastNNumbers, sampledAndLastNNumbers store message.startNumber lastBlock.number message.lastNBlocks
            message.difficultyBoundary message.difficulties = some (.ok (sampled, lastNNumbers)) ∧
          outcome = .completeHeaders (reorgLastNNumbers store message ++ sampled ++ lastNNumbers) := by
  unfold execute at ran
  rcases hsamples : (checkedMul message.lastNBlocks 2).bind (checkedAdd message.difficulties.length) with _ | samples
  · rw [hsamples] at ran
    cases ran
  · rw [hsamples] at ran
    dsimp only at ran
    by_cases many : samples > getLastStateProofLimit
    · rw [if_pos many] at ran
      cases ran
      exact .inl ⟨_, rfl, .inl rfl⟩
    · rw [if_neg many] at ran
      by_cases off : (!store.isMainChain message.lastHash) = true
      · rw [if_pos off] at ran
        cases ran
        exact .inr (.inl rfl)
      · rw [if_neg off] at ran
        rcases hblock : store.getBlock message.lastHash with _ | _ | lastBlock
        · rw [hblock] at ran
          cases ran
        · rw [hblock] at ran
          cases ran
        · rw [hblock] at ran
          dsimp only at ran
          rcases hcheck : checkRequestData store message.startNumber message.difficultyBoundary message.difficulties
            with _ | status
          · rw [hcheck] at ran
            dsimp only at ran
            rcases hsampled : sampledAndLastNNumbers store message.startNumber lastBlock.number message.lastNBlocks
                message.difficultyBoundary message.difficulties with _ | status | ⟨sampled, lastNNumbers⟩
            · rw [hsampled] at ran
              cases ran
            · rw [hsampled] at ran
              cases ran
              exact .inl ⟨status, rfl, .inr (.inr ⟨rfl, lastBlock, hsampled⟩)⟩
            · rw [hsampled] at ran
              cases ran
              exact .inr (.inr ⟨lastBlock, rfl, rfl, sampled, lastNNumbers, hsampled, rfl⟩)
          · rw [hcheck] at ran
            cases ran
            exact .inl ⟨status, rfl, .inr (.inl rfl)⟩

theorem execute_spec (increasing : Increasing (getBlockTotalDifficulty store)) {message : GetLastStateProof H}
    {lastBlock : Block H} (last : store.getBlock message.lastHash = some (some lastBlock)) {numbers : List Nat}
    (ran : execute store message = some (.completeHeaders numbers)) :
    numbers.Pairwise (· < ·) ∧ (∀ n ∈ numbers, n < lastBlock.number) ∧
      ∃ reorg sampled m, numbers = reorg ++ sampled ++ List.range' m (lastBlock.number - m) ∧
        (∀ n ∈ reorg, n < message.startNumber) ∧
        LastNStart (getBlockTotalDifficulty store) message.startNumber lastBlock.number message.lastNBlocks
          message.difficultyBoundary m ∧
        SampledFor (getBlockTotalDifficulty store) message.startNumber m message.difficulties sampled := by
  rcases execute_cases ran with ⟨_, outcome, -⟩ | outcome | ⟨lastBlock', last', passed, sampled, lastNNumbers, sampling, outcome⟩
  · cases outcome
  · cases outcome
  · rw [last, Option.some_inj, Option.some_inj] at last'
    subst last'
    cases outcome
    rcases reorgLastNNumbers_below store message with ⟨reorgSorted, reorgBelow⟩
    rcases sampledAndLastNNumbers_spec increasing (checkRequestData_eq_none passed) sampling with
      ⟨startLe, m, startLeM, mLe, rfl, lastNStart, sorted, within, mem⟩
    -- reorg numbers below the start, sampled numbers in `[start, m)`, then `[m, L)`
    have segment : ∀ n ∈ List.range' m (lastBlock.number - m), m ≤ n ∧ n < lastBlock.number := by
      intro n member
      rw [List.mem_range'_1] at member
      omega
    refine ⟨?_, ?_, reorgLastNNumbers store message, sampled, m, rfl, reorgBelow, lastNStart, mem⟩
    · rw [List.pairwise_append, List.pairwise_append]
      refine ⟨⟨reorgSorted, sorted, fun a reorg b sampledB => ?_⟩, List.pairwise_lt_range', fun a member b lastB => ?_⟩
      · have := reorgBelow a reorg
        have := (within b sampledB).1
        omega
      · have := (segment b lastB).1
        rcases List.mem_append.mp member with reorg | sampledA
        · have := reorgBelow a reorg
          omega
        · have := (within a sampledA).2
          omega
    · intro n member
      rcases List.mem_append.mp member with member | lastN
      · rcases List.mem_append.mp member with reorg | sampledN
        · have := reorgBelow n reorg
          omega
        · have := (within n sampledN).2
          omega
      · exact (segment n lastN).2

theorem execute_ne_notInRange (increasing : Increasing (getBlockTotalDifficulty store)) (message : GetLastStateProof H)
    (d s e : Nat) : execute store message ≠ some (.status ⟨.internalError, notInRangeMessage d s e⟩) := by
  intro ran
  rcases execute_cases ran with ⟨status, outcome, cause⟩ | outcome | ⟨_, _, _, _, _, _, outcome⟩
  · cases outcome
    rcases cause with tooMany | failed | ⟨passed, lastBlock, failed⟩
    · cases tooMany
    · exact checkRequestData_ne_notInRange d s e failed
    · exact sampledAndLastNNumbers_ne_notInRange increasing (checkRequestData_eq_none passed) d s e failed
  · cases outcome
  · cases outcome

/-! A main chain of five blocks, numbered `0` to `4` with hashes `100` to `104`, whose total
difficulties are `1` to `5`. -/

def sampleHeader (n : Nat) : Header Nat := ⟨100 + n, 100 + n - 1, n, ⟨0⟩, 0, 0⟩

def sampleStore : Store Nat where
  blockHeader := (List.range 5).foldl (fun m n => m.insert (100 + n) (sampleHeader n)) ∅
  blockUncle := (List.range 5).foldl (fun m n => m.insert (100 + n) []) ∅
  blockProposalIds := (List.range 5).foldl (fun m n => m.insert (100 + n) []) ∅
  indexByNumber := (List.range 5).foldl (fun m n => m.insert n (100 + n)) ∅
  indexByHash := (List.range 5).foldl (fun m n => m.insert (100 + n) n) ∅
  blockExt := (List.range 5).foldl (fun m n => m.insert (100 + n) ⟨n + 1, 0, some true, []⟩) ∅

theorem sampleStore_totalDifficulty (n : Nat) :
    getBlockTotalDifficulty sampleStore n = if n < 5 then some (n + 1) else none := by
  by_cases small : n < 5
  · rw [if_pos small]
    interval_cases n <;> rfl
  · rw [if_neg small]
    unfold getBlockTotalDifficulty Store.getBlockHash sampleStore
    rw [FiniteMap.lookup_foldl_insert_of_notMem (fun n => n) (fun n => 100 + n) _ _ (by simpa using small)]
    rfl

theorem sampleStore_increasing : Increasing (getBlockTotalDifficulty sampleStore) := by
  intro m n x lower hn
  rw [sampleStore_totalDifficulty] at hn ⊢
  split at hn
  · cases hn
    exact ⟨m + 1, by rw [if_pos (by omega)], by omega⟩
  · cases hn

/-- A request from the genesis for the last block of the sample chain, with one last block, a
difficulty boundary of `2` and one requested difficulty `0`. -/
def sampleMessage : GetLastStateProof Nat := ⟨104, 100, 0, 1, 2, [0]⟩

theorem sampleStore_lastBlock : sampleStore.getBlock 104 = some (some ⟨sampleHeader 4, [], [], []⟩) := by
  decide

/-- The sampling over a main chain whose total difficulty strictly increases. The search returns,
on a range below `2 ^ 63`, a block exactly when the start or the last block of the range reaches the
minimum, and then the first block of the range that does. The numbers `execute` hands to
`complete_headers` strictly increase below the last block: the reorg numbers below the start, the
sampled numbers, then the last-N segment `[m, L)`, which starts at the start or at the first block
reaching the difficulty boundary moved down to keep `last_n_blocks` blocks, with the sampled numbers
the first blocks reaching the positive requested difficulties that block `m - 1` reaches. The "not
in the block range" error is never returned. -/
theorem get_last_state_proof_samples_by_difficulty (store : Store H)
    (increasing : Increasing (getBlockTotalDifficulty store)) :
    (∀ s e D, s < e → e ≤ 2 ^ 63 →
      ∃ r, getFirstBlockTotalDifficultyIsNotLessThan (getBlockTotalDifficulty store) s e D = some r ∧
        (r.isSome ↔ (∃ x, getBlockTotalDifficulty store s = some x ∧ D ≤ x) ∨
          ∃ x, getBlockTotalDifficulty store (e - 1) = some x ∧ D ≤ x) ∧
        ∀ n y, r = some (n, y) → getBlockTotalDifficulty store n = some y ∧
          IsLeast (Reaching (getBlockTotalDifficulty store) s D ∩ Set.Iio e) n) ∧
    (∀ (message : GetLastStateProof H) (lastBlock : Block H) (numbers : List Nat),
      store.getBlock message.lastHash = some (some lastBlock) →
      execute store message = some (.completeHeaders numbers) →
      numbers.Pairwise (· < ·) ∧ (∀ n ∈ numbers, n < lastBlock.number) ∧
        ∃ reorg sampled m, numbers = reorg ++ sampled ++ List.range' m (lastBlock.number - m) ∧
          (∀ n ∈ reorg, n < message.startNumber) ∧
          LastNStart (getBlockTotalDifficulty store) message.startNumber lastBlock.number message.lastNBlocks
            message.difficultyBoundary m ∧
          SampledFor (getBlockTotalDifficulty store) message.startNumber m message.difficulties sampled) ∧
    ∀ (message : GetLastStateProof H) (d s e : Nat),
      execute store message ≠ some (.status ⟨.internalError, notInRangeMessage d s e⟩) := by
  refine ⟨fun s e D lt bounded => ?_, fun message lastBlock numbers last ran => execute_spec increasing last ran,
    fun message d s e => execute_ne_notInRange increasing message d s e⟩
  rcases Option.isSome_iff_exists.mp (getFirst_isSome increasing (D := D) lt bounded) with ⟨r, ran⟩
  exact ⟨r, ran, getFirst_sound increasing lt ran⟩

theorem sample_request_samples :
    Increasing (getBlockTotalDifficulty sampleStore) ∧
      execute sampleStore sampleMessage = some (.completeHeaders [1, 2, 3]) ∧
      [1, 2, 3].Pairwise (· < ·) ∧ ∀ n ∈ [1, 2, 3], n < 4 :=
  have ran : execute sampleStore sampleMessage = some (.completeHeaders [1, 2, 3]) := by decide
  have numbers := (get_last_state_proof_samples_by_difficulty sampleStore sampleStore_increasing).2.1 sampleMessage
    ⟨sampleHeader 4, [], [], []⟩ [1, 2, 3] sampleStore_lastBlock ran
  ⟨sampleStore_increasing, ran, numbers.1, numbers.2.1⟩

theorem sample_request_keeps_blocks_from_boundary :
    execute sampleStore sampleMessage = some (.completeHeaders [1, 2, 3]) ∧
      IsLeast (Reaching (getBlockTotalDifficulty sampleStore) 0 2 ∩ Set.Iio 4) 1 ∧ max 1 (4 - 1) = 3 ∧
      IsLeast (Reaching (getBlockTotalDifficulty sampleStore) 0 0) 0 ∧
      getBlockTotalDifficulty sampleStore 5 = none ∧
      getFirstBlockTotalDifficultyIsNotLessThan (getBlockTotalDifficulty sampleStore) 0 6 1 = some (some (0, 1)) := by
  have boundary : IsLeast (Reaching (getBlockTotalDifficulty sampleStore) 0 2 ∩ Set.Iio 4) 1 := by
    refine ⟨⟨⟨Nat.zero_le 1, 2, by decide, le_rfl⟩, Set.mem_Iio.mpr (by omega)⟩, ?_⟩
    rintro k ⟨⟨-, y, hk, reaches⟩, -⟩
    rw [sampleStore_totalDifficulty] at hk
    split at hk
    · cases hk
      omega
    · cases hk
  have zero : IsLeast (Reaching (getBlockTotalDifficulty sampleStore) 0 0) 0 :=
    ⟨⟨le_rfl, 1, by decide, Nat.zero_le 1⟩, fun k member => member.1⟩
  exact ⟨by decide, boundary, rfl, zero, by decide, by decide⟩

end Ckb.Light
