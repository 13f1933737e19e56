import Ckb.Versionbits.Checker

/-!
The blocks the `Started` state counts. The count starts at the last block before the period's first
epoch `E` and walks back as many blocks as `E` is long, then as many as the epoch before `E` is
long, and so on for `period` epochs. So it reads the `len E + len (E - 1) + ⋯ + len (E - period + 1)`
blocks that end before `E`. The period before `E` is the epochs `E - period` to `E - 1`, and the
two windows are the same exactly when `E` is as long as the epoch `E - period`.
-/

namespace Ckb

namespace VersionbitsConditionChecker

variable {H : Type} (checker : VersionbitsConditionChecker H)

/-- The signalling blocks among the `n` blocks from height `low` up. -/
def signalCount (block : Nat → Header H) (low n : Nat) : Nat :=
  ((List.range' low n).map block).countP checker.condition

theorem signalCount_add (block : Nat → Header H) (low m n : Nat) :
    checker.signalCount block low (m + n) = checker.signalCount block low m + checker.signalCount block (low + m) n := by
  rw [signalCount, signalCount, signalCount, ← List.range'_append_1, List.map_append, List.countP_append]

theorem signalCount_one (block : Nat → Header H) (low : Nat) :
    checker.signalCount block low 1 = if checker.condition (block low) = true then 1 else 0 := by
  simp [signalCount, List.countP_cons]

@[simp] theorem signalCount_zero (block : Nat → Header H) (low : Nat) : checker.signalCount block low 0 = 0 := rfl

variable (indexer : VersionbitsIndexer H)

/-- The `Started` step from its count: `LockedIn` at the threshold, else `Failed` from the timeout
on; `None` when the threshold overflows. -/
theorem nextState_started {epochExt : EpochExt H} {count total : Nat}
    (counted : checker.countSignals indexer epochExt = some (count, total)) :
    checker.nextState indexer .started epochExt = (thresholdNumber total checker.threshold).map fun threshold =>
      if threshold ≤ count then .lockedIn else if checker.timeout ≤ epochExt.number then .failed else .started := by
  simp only [nextState, counted, Option.bind_eq_bind, Option.bind_some]
  cases thresholdNumber total checker.threshold with
  | none => rfl
  | some threshold =>
    simp only [Option.bind_some, Option.map_some]
    split_ifs <;> rfl

end VersionbitsConditionChecker

/-- The blocks of `k` epochs from the epoch numbered `j` down. -/
def windowLength {H : Type} (epoch : Nat → EpochExt H) : Nat → Nat → Nat
  | _, 0 => 0
  | j, k + 1 => (epoch j).length + windowLength epoch (j - 1) k

theorem windowLength_succ' {H : Type} (epoch : Nat → EpochExt H) (k : Nat) :
    ∀ j, windowLength epoch j (k + 1) = windowLength epoch j k + (epoch (j - k)).length := by
  induction k with
  | zero => intro j; simp [windowLength]
  | succ k ih =>
    intro j
    rw [windowLength, ih (j - 1), windowLength, show j - 1 - k = j - (k + 1) by omega]
    omega

variable {H : Type}

/-- `block h` is the header at height `h` and `epoch k` the epoch numbered `k`, which starts at
height `start k`, of a chain the indexer stores up to the epoch `top`: each block's parent and each
epoch's last block before it are stored, and the indexer puts every block in its epoch. -/
structure SignalChain (indexer : VersionbitsIndexer H) (block : Nat → Header H) (epoch : Nat → EpochExt H)
    (start : Nat → Nat) (top : Nat) : Prop where
  start_succ : ∀ k < top, start (k + 1) = start k + (epoch k).length
  nonempty : ∀ k ≤ top, 0 < (epoch k).length
  parent : ∀ h, 0 < h → h < start top → indexer.blockHeader (block h).parentHash = some (block (h - 1))
  lastBlock : ∀ k ≤ top, 0 < k →
    indexer.blockHeader (epoch k).lastBlockHashInPreviousEpoch = some (block (start k - 1))
  epochOf : ∀ k < top, ∀ h, start k ≤ h → h < start (k + 1) →
    ∃ index, indexer.blockEpochIndex (block h).hash = some index ∧ indexer.epochExt index = some (epoch k)

namespace SignalChain

variable {indexer : VersionbitsIndexer H} {block : Nat → Header H} {epoch : Nat → EpochExt H}
  {start : Nat → Nat} {top : Nat} (chain : SignalChain indexer block epoch start top)
include chain

theorem start_le : ∀ d k, k + d ≤ top → start k ≤ start (k + d) := by
  intro d
  induction d with
  | zero => intro k _; exact Nat.le_refl _
  | succ d ih =>
    intro k within
    rw [← Nat.add_assoc, chain.start_succ (k + d) (by omega)]
    exact (ih k (by omega)).trans (Nat.le_add_right _ _)

/-- The epochs from `E - p` to `E - 1`, the period before `E`, fill the heights from `start (E - p)`
to `start E`. -/
theorem start_eq : ∀ p E, p ≤ E → E ≤ top → start E = start (E - p) + windowLength epoch (E - 1) p := by
  intro p
  induction p with
  | zero => intro E _ _; rfl
  | succ p ih =>
    intro E enough within
    have below := ih (E - 1) (by omega) (by omega)
    have step := chain.start_succ (E - 1) (by omega)
    rw [show E - 1 + 1 = E by omega] at step
    rw [windowLength, step, below, show E - 1 - p = E - (p + 1) by omega, show E - 1 - 1 = E - 2 by omega]
    omega

theorem previousEpoch {k : Nat} (within : k ≤ top) (positive : 0 < k) :
    indexer.previousEpoch (epoch k) = some (epoch (k - 1)) := by
  have step := chain.start_succ (k - 1) (by omega)
  have long := chain.nonempty (k - 1) (by omega)
  rw [show k - 1 + 1 = k by omega] at step
  obtain ⟨index, found, ext⟩ := chain.epochOf (k - 1) (by omega) (start k - 1) (by omega)
    (by rw [show k - 1 + 1 = k by omega]; omega)
  simp only [VersionbitsIndexer.previousEpoch, chain.lastBlock k within positive, Option.bind_eq_bind,
    Option.bind_some, found, ext]

variable (checker : VersionbitsConditionChecker H)

theorem countBlocks : ∀ n h count, n ≤ h → h < start top →
    checker.countBlocks indexer n (block h) count = some (block (h - n), count + checker.signalCount block (h + 1 - n) n) := by
  intro n
  induction n with
  | zero => intro h count _ _; rfl
  | succ n ih =>
    intro h count enough within
    rw [VersionbitsConditionChecker.countBlocks, chain.parent h (by omega) within]
    dsimp only [Option.bind_eq_bind, Option.bind_some, bind, Option.bind]
    -- the block at `h` is the last one of the window
    have window : checker.signalCount block (h - n) (n + 1) =
        checker.signalCount block (h - n) n + if checker.condition (block h) = true then 1 else 0 := by
      rw [checker.signalCount_add, show h - n + n = h by omega, checker.signalCount_one]
    rw [ih (h - 1) _ (by omega) (by omega), show h - 1 - n = h - (n + 1) by omega,
      show h - 1 + 1 - n = h - n by omega, show h + 1 - (n + 1) = h - n by omega, window]
    congr 2
    split_ifs <;> omega

/-- The outer loop over `k` epochs from the epoch `j` down reads the blocks of all of them, from
the header at `h` down. -/
theorem countEpochs : ∀ k j h count total, k ≤ j → j ≤ top → windowLength epoch j k ≤ h → h < start top →
    checker.countEpochs indexer k (epoch j) (block h) count total =
      some (count + checker.signalCount block (h + 1 - windowLength epoch j k) (windowLength epoch j k),
        total + windowLength epoch j k) := by
  intro k
  induction k with
  | zero => intro j h count total _ _ _ _; rfl
  | succ k ih =>
    intro j h count total enough within short below
    have length : windowLength epoch j (k + 1) = (epoch j).length + windowLength epoch (j - 1) k := rfl
    rw [length] at short ⊢
    rw [VersionbitsConditionChecker.countEpochs, chain.countBlocks checker _ h count (by omega) below]
    dsimp only [Option.bind_eq_bind, Option.bind_some, bind, Option.bind]
    rw [chain.previousEpoch within (by omega)]
    dsimp only [Option.bind_some]
    rw [ih (j - 1) (h - (epoch j).length) _ _ (by omega) (by omega) (by omega) (by omega)]
    -- the epochs further down come first in the window, the epoch `j` last
    have window := checker.signalCount_add block (h + 1 - ((epoch j).length + windowLength epoch (j - 1) k))
      (windowLength epoch (j - 1) k) (epoch j).length
    rw [show h + 1 - ((epoch j).length + windowLength epoch (j - 1) k) + windowLength epoch (j - 1) k =
      h + 1 - (epoch j).length by omega, Nat.add_comm (windowLength epoch (j - 1) k)] at window
    rw [show h - (epoch j).length + 1 - windowLength epoch (j - 1) k =
      h + 1 - ((epoch j).length + windowLength epoch (j - 1) k) by omega, window]
    congr 2 <;> omega

/-- The count of the `Started` state at the epoch `E`: the `windowLength epoch E period` blocks
that end before `E`, and their number. -/
theorem countSignals {E : Nat} (within : E ≤ top) (enough : checker.period ≤ E) (positive : 0 < E)
    (below : windowLength epoch E checker.period < start E) :
    checker.countSignals indexer (epoch E) =
      some (checker.signalCount block (start E - windowLength epoch E checker.period) (windowLength epoch E checker.period),
        windowLength epoch E checker.period) := by
  have atMost := chain.start_le (top - E) E (by omega)
  rw [show E + (top - E) = top by omega] at atMost
  rw [VersionbitsConditionChecker.countSignals, chain.lastBlock E within positive]
  dsimp only [Option.bind_eq_bind, Option.bind_some]
  rw [chain.countEpochs checker _ _ _ 0 0 enough within (by omega) (by omega),
    show start E - 1 + 1 = start E by omega, Nat.zero_add, Nat.zero_add]

/-- The window has the length of the period before `E` exactly when `E` is as long as the epoch
`E - period`. -/
theorem windowLength_eq_iff {E p : Nat} (within : E ≤ top) (enough : p ≤ E) :
    windowLength epoch E p = start E - start (E - p) ↔ (epoch E).length = (epoch (E - p)).length := by
  have period := chain.start_eq p E enough within
  -- both sides are the window of `p + 1` epochs from `E` down, without its first or its last epoch
  have first : windowLength epoch E (p + 1) = (epoch E).length + windowLength epoch (E - 1) p := rfl
  have last := windowLength_succ' epoch p E
  omega

variable (indexer) in
/-- The `Started` step at the epoch `E` counts the `windowLength epoch E period` blocks that end
before `E`; they are the blocks of the period before `E` exactly when `E` is as long as the epoch
`E - period`. -/
theorem nextState_started_window {E : Nat} (within : E ≤ top) (enough : checker.period ≤ E) (positive : 0 < E)
    (below : windowLength epoch E checker.period < start E) :
    checker.nextState indexer .started (epoch E) =
      (thresholdNumber (windowLength epoch E checker.period) checker.threshold).map (fun threshold =>
        if threshold ≤ checker.signalCount block (start E - windowLength epoch E checker.period)
            (windowLength epoch E checker.period) then .lockedIn
        else if checker.timeout ≤ (epoch E).number then .failed else .started) ∧
      (windowLength epoch E checker.period = start E - start (E - checker.period) ↔
        (epoch E).length = (epoch (E - checker.period)).length) :=
  ⟨checker.nextState_started indexer (chain.countSignals checker within enough positive below),
    chain.windowLength_eq_iff within enough⟩

end SignalChain

section Samples

/-! Three epochs of two, two and three blocks; the block at height `h` is hashed `h + 1`, and each
epoch is keyed by the hash of the last block before it. A deployment of period one from epoch one
whose threshold is every block, and whose signalling blocks are those from height 2 on. -/

def windowStart : Nat → Nat
  | 0 => 0
  | 1 => 2
  | 2 => 4
  | _ => 7

def windowEpochOf (h : Nat) : Nat := if h < 2 then 0 else if h < 4 then 1 else 2

def windowEpoch (k : Nat) : EpochExt Nat := ⟨k, windowStart k, windowStart (k + 1) - windowStart k⟩

def windowBlock (h : Nat) : Header Nat :=
  ⟨h + 1, h, h, .new (windowEpochOf h) (h - windowStart (windowEpochOf h)) (windowEpoch (windowEpochOf h)).length, 0, 0⟩

def windowIndexer : VersionbitsIndexer Nat where
  blockEpochIndex hash := if 1 ≤ hash ∧ hash ≤ 7 then some (windowStart (windowEpochOf (hash - 1))) else none
  epochExt index := if index = 0 ∨ index = 2 ∨ index = 4 then some (windowEpoch (index / 2)) else none
  blockHeader hash := if 1 ≤ hash ∧ hash ≤ 7 then some (windowBlock (hash - 1)) else none

def windowChecker : VersionbitsConditionChecker Nat := ⟨1, 10, .normal, fun header => decide (2 ≤ header.number), 10, 1, ⟨1, 1⟩⟩

theorem windowIndexer_signalChain : SignalChain windowIndexer windowBlock windowEpoch windowStart 2 where
  start_succ := by decide
  nonempty := by decide
  parent h positive below := by
    obtain rfl | rfl | rfl : h = 1 ∨ h = 2 ∨ h = 3 := by
      simp only [windowStart] at below
      omega
    all_goals rfl
  lastBlock := by decide
  epochOf k within h low high := by
    refine ⟨windowStart k, ?_, ?_⟩
    all_goals obtain rfl | rfl : k = 0 ∨ k = 1 := by omega
    all_goals simp only [windowStart] at low high
    · obtain rfl | rfl : h = 0 ∨ h = 1 := by omega
      all_goals rfl
    · obtain rfl | rfl : h = 2 ∨ h = 3 := by omega
      all_goals rfl
    all_goals rfl

theorem started_count_reads_next_epoch_length :
    SignalChain windowIndexer windowBlock windowEpoch windowStart 2 ∧
      windowChecker.signalCount windowBlock (windowStart 1) (windowStart 2 - windowStart 1) = 2 ∧
      thresholdNumber (windowStart 2 - windowStart 1) windowChecker.threshold = some 2 ∧
      windowChecker.countSignals windowIndexer (windowEpoch 2) = some (2, 3) ∧
      thresholdNumber 3 windowChecker.threshold = some 3 ∧
      (windowChecker.getState windowIndexer (windowBlock 4) ∅).1 = some .started :=
  ⟨windowIndexer_signalChain, by decide, by decide, by decide, by decide, by decide⟩

end Samples

end Ckb
