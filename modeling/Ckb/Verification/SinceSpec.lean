import Ckb.Verification.Since

namespace Ckb

open ExceptT

namespace Since

/-- The metric of a since with its value in exact integers: a timestamp in milliseconds. -/
def exactMetric (since : Since) : Option SinceMetric :=
  let value := since.val &&& valueMask
  let metric := since.val &&& metricTypeFlagMask
  if metric = 0 then some (.blockNumber value)
  else if metric = 0x2000000000000000 then some (.epochNumberWithFraction ⟨value⟩)
  else if metric = 0x4000000000000000 then some (.timestamp (value * 1000))
  else none

theorem exactMetric_of_extractMetric {since : Since} {metric : SinceMetric}
    (extracted : since.extractMetric = some (some metric)) : since.exactMetric = some metric := by
  unfold extractMetric at extracted
  unfold exactMetric
  dsimp only at extracted ⊢
  split_ifs at extracted ⊢ with block epoch timestamp
  · exact Option.some.inj extracted
  · exact Option.some.inj extracted
  · unfold checkedMul at extracted
    split_ifs at extracted with fits
    · simpa using extracted
    · simp at extracted
  · cases extracted

/-- `extract_metric` panics exactly on a timestamp that does not fit in `u64` once in
milliseconds. -/
theorem extractMetric_eq_none {since : Since} :
    since.extractMetric = none ↔ ∃ timestamp, since.exactMetric = some (.timestamp timestamp) ∧ u64Max < timestamp := by
  unfold extractMetric exactMetric
  dsimp only
  split_ifs with block epoch timestamp
  · simp
  · simp
  · unfold checkedMul
    split_ifs with fits
    · simp [fits]
    · simpa using Nat.lt_of_not_le fits
  · simp

end Since

namespace SinceVerifier

variable {H : Type} (sv : SinceVerifier H)

/-- The base of a relative timestamp since: the median time before the input cell's block, or
under RFC 0028 that block's timestamp. -/
def relativeBase (info : TransactionInfo H) : Option Nat :=
  if sv.consensus.hardforkSwitch.ckb2021.isBlockTsAsRelativeSinceStartEnabled
      (sv.txEnv.epochNumber sv.consensus.txProposalWindow) then
    (sv.dataLoader.getHeaderFields info.blockHash).map (·.timestamp)
  else sv.parentMedianTime info.blockHash

/-- A since metric met from the chain's start. -/
def MetAbsolute : SinceMetric → Prop
  | .blockNumber blockNumber => blockNumber ≤ sv.txEnv.blockNumber sv.consensus.txProposalWindow
  | .epochNumberWithFraction epoch => epoch.isWellFormedIncrement ∧
    ∃ a, sv.txEnv.epoch.toRational = some a ∧ ∃ b, epoch.normalize.toRational = some b ∧ b ≤ a
  | .timestamp timestamp => ∃ m, sv.blockMedianTime sv.txEnv.parentHash = some m ∧ timestamp ≤ m

/-- A since metric met from the block of the input cell with transaction info `info`. -/
def MetRelative (info : TransactionInfo H) : SinceMetric → Prop
  | .blockNumber blockNumber => info.blockNumber + blockNumber ≤ sv.txEnv.blockNumber sv.consensus.txProposalWindow
  | .epochNumberWithFraction epoch => epoch.isWellFormedIncrement ∧
    ∃ a, sv.txEnv.epoch.toRational = some a ∧ ∃ c, (EpochNumberWithFraction.mk info.blockEpoch).toRational = some c ∧
      ∃ b, epoch.normalize.toRational = some b ∧ c + b ≤ a
  | .timestamp timestamp => ∃ base, sv.relativeBase info = some base ∧
    ∃ m, sv.blockMedianTime sv.txEnv.parentHash = some m ∧ base + timestamp ≤ m

/-- The sums a relative since is checked with fit in `u64`. -/
def FitsRelative (info : TransactionInfo H) : SinceMetric → Prop
  | .blockNumber blockNumber => info.blockNumber + blockNumber ≤ u64Max
  | .epochNumberWithFraction _ => True
  | .timestamp timestamp => ∀ base, sv.relativeBase info = some base → base + timestamp ≤ u64Max

/-- An input's since is met: it is zero, or its flags are valid and its metric is met, from the
chain's start for an absolute since and from the input cell's block for a relative one. -/
def Met (cellMeta : CellMeta H) (since : Nat) : Prop :=
  since = 0 ∨ (Since.mk since).flagsIsValid ∧ ∃ metric, (Since.mk since).exactMetric = some metric ∧
    ((Since.mk since).isAbsolute → sv.MetAbsolute metric) ∧
    ((Since.mk since).isRelative → ∃ info, cellMeta.transactionInfo = some info ∧ sv.MetRelative info metric)

theorem verifyAbsoluteLock_ok {index : Nat} {since : Since} :
    (sv.verifyAbsoluteLock index since).run = some (.ok ()) ↔
      (since.isAbsolute → ∃ metric, since.extractMetric = some (some metric) ∧ sv.MetAbsolute metric) := by
  unfold verifyAbsoluteLock
  split_ifs with absolute
  · simp only [absolute, true_implies, run_bind_eq_ok, run_lift_eq_ok]
    constructor
    · rintro ⟨(_ | metric), extracted, checked⟩
      · simp [run_throw] at checked
      · refine ⟨metric, extracted, ?_⟩
        cases metric <;>
          simpa only [MetAbsolute, run_bind_eq_ok, run_lift_eq_ok, run_ite_throw_eq_ok, run_pure_eq_ok,
            Bool.not_eq_true', Bool.not_eq_false, not_lt, and_true, exists_eq_left'] using checked
    · rintro ⟨metric, extracted, met⟩
      refine ⟨some metric, extracted, ?_⟩
      cases metric <;>
        simpa only [MetAbsolute, run_bind_eq_ok, run_lift_eq_ok, run_ite_throw_eq_ok, run_pure_eq_ok,
          Bool.not_eq_true', Bool.not_eq_false, not_lt, and_true, exists_eq_left'] using met
  · simp [absolute]

theorem run_baseTimestamp (info : TransactionInfo H) :
    ((if sv.consensus.hardforkSwitch.ckb2021.isBlockTsAsRelativeSinceStartEnabled
          (sv.txEnv.epochNumber sv.consensus.txProposalWindow) then do
        let headerFields ← ExceptT.lift (sv.dataLoader.getHeaderFields info.blockHash)
        pure headerFields.timestamp
      else ExceptT.lift (sv.parentMedianTime info.blockHash) : ExceptT TransactionError Option Nat)).run =
      (sv.relativeBase info).map .ok := by
  unfold relativeBase
  split_ifs
  · cases sv.dataLoader.getHeaderFields info.blockHash <;> rfl
  · cases sv.parentMedianTime info.blockHash <;> rfl

theorem verifyRelativeLock_ok {index : Nat} {since : Since} {cellMeta : CellMeta H} :
    (sv.verifyRelativeLock index since cellMeta).run = some (.ok ()) ↔
      (since.isRelative → ∃ info, cellMeta.transactionInfo = some info ∧
        ∃ metric, since.extractMetric = some (some metric) ∧ sv.MetRelative info metric ∧ sv.FitsRelative info metric) := by
  unfold verifyRelativeLock
  split_ifs with relative
  · simp only [relative, true_implies, run_bind_eq_ok, run_liftExcept, Option.some.injEq, okOr_eq_ok,
      run_lift_eq_ok]
    refine exists_congr fun info => and_congr_right fun _ => ?_
    -- the metric decides the check; each branch is its own comparison
    rcases extracted : since.extractMetric with _ | _ | metric
    · simp
    · simp [run_throw]
    simp only [Option.some.injEq, exists_eq_left']
    cases metric with
    | blockNumber blockNumber =>
      simp only [MetRelative, FitsRelative, run_bind_eq_ok, run_lift_eq_ok, checkedAdd_eq_some,
        run_ite_throw_eq_ok, run_pure_eq_ok, not_lt, and_true]
      constructor
      · rintro ⟨_, ⟨fits, rfl⟩, reached⟩
        exact ⟨reached, fits⟩
      · rintro ⟨reached, fits⟩
        exact ⟨_, ⟨fits, rfl⟩, reached⟩
    | epochNumberWithFraction epoch =>
      simp only [MetRelative, FitsRelative, run_bind_eq_ok, run_lift_eq_ok, run_ite_throw_eq_ok,
        run_pure_eq_ok, not_lt, and_true, Bool.not_eq_true', Bool.not_eq_false]
    | timestamp timestamp =>
      simp only [MetRelative, FitsRelative, run_bind_eq_ok, run_baseTimestamp, Option.map_eq_some_iff,
        Except.ok.injEq, exists_eq_right, run_lift_eq_ok, checkedAdd_eq_some, run_ite_throw_eq_ok,
        run_pure_eq_ok, not_lt, and_true]
      constructor
      · rintro ⟨base, based, m, median, _, ⟨fits, rfl⟩, reached⟩
        refine ⟨⟨base, based, m, median, reached⟩, fun base' based' => ?_⟩
        rw [based, Option.some.injEq] at based'
        rw [← based']
        exact fits
      · rintro ⟨⟨base, based, m, median, reached⟩, fits⟩
        exact ⟨base, based, m, median, _, ⟨fits base based, rfl⟩, reached⟩
  · simp [relative]

/-- An absolute timestamp since that does not fit in `u64` once in milliseconds makes
`verify_absolute_lock` panic, whatever the transaction's environment. -/
theorem verifyAbsoluteLock_eq_none {index timestamp : Nat} {since : Since} (absolute : since.isAbsolute)
    (metric : since.exactMetric = some (.timestamp timestamp)) (overflow : u64Max < timestamp) :
    (sv.verifyAbsoluteLock index since).run = none := by
  have panics := Since.extractMetric_eq_none.mpr ⟨timestamp, metric, overflow⟩
  unfold verifyAbsoluteLock
  simp [absolute, panics]

theorem verifyInput_ok {index : Nat} {cellMeta : CellMeta H} {input : CellInput H} :
    (sv.verifyInput index cellMeta input).run = some (.ok ()) ↔
      input.since = 0 ∨ (Since.mk input.since).flagsIsValid ∧
        (sv.verifyAbsoluteLock index ⟨input.since⟩).run = some (.ok ()) ∧
        (sv.verifyRelativeLock index ⟨input.since⟩ cellMeta).run = some (.ok ()) := by
  unfold verifyInput
  split_ifs with zero valid
  · simp [zero]
  · simp only [Bool.not_eq_true'] at valid
    simp [zero, run_throw, valid]
  · simp only [zero, false_or, run_bind_eq_ok]
    simp only [Bool.not_eq_true', Bool.not_eq_false] at valid
    exact ⟨fun ⟨⟨⟩, absolute, relative⟩ => ⟨valid, absolute, relative⟩,
      fun ⟨_, absolute, relative⟩ => ⟨(), absolute, relative⟩⟩

theorem met_of_verifyInput {index : Nat} {cellMeta : CellMeta H} {input : CellInput H}
    (ok : (sv.verifyInput index cellMeta input).run = some (.ok ())) : sv.Met cellMeta input.since := by
  rcases sv.verifyInput_ok.mp ok with zero | ⟨valid, absolute, relative⟩
  · exact .inl zero
  · refine .inr ⟨valid, ?_⟩
    -- a since is absolute or relative, never both: take the metric from the lock that applies
    cases kind : (Since.mk input.since).isAbsolute
    · have isRelative : (Since.mk input.since).isRelative := by simp [Since.isRelative, kind]
      obtain ⟨info, found, metric, extracted, met, -⟩ := sv.verifyRelativeLock_ok.mp relative isRelative
      exact ⟨metric, Since.exactMetric_of_extractMetric extracted, nofun, fun _ => ⟨info, found, met⟩⟩
    · obtain ⟨metric, extracted, met⟩ := sv.verifyAbsoluteLock_ok.mp absolute kind
      exact ⟨metric, Since.exactMetric_of_extractMetric extracted, fun _ => met,
        fun isRelative => by simp [Since.isRelative, kind] at isRelative⟩

variable {sv} {sv' : SinceVerifier H}

/-- `sv'` checks at a tip no earlier than `sv`: the same consensus and chain, a block number, an
epoch and a median time no smaller, and the same side of the RFC 0028 activation. -/
structure Later (sv sv' : SinceVerifier H) : Prop where
  consensus : sv'.consensus = sv.consensus
  dataLoader : sv'.dataLoader = sv.dataLoader
  blockNumber : sv.txEnv.blockNumber sv.consensus.txProposalWindow ≤
    sv'.txEnv.blockNumber sv'.consensus.txProposalWindow
  epoch : ∀ a, sv.txEnv.epoch.toRational = some a → ∃ a', sv'.txEnv.epoch.toRational = some a' ∧ a ≤ a'
  medianTime : ∀ m, sv.blockMedianTime sv.txEnv.parentHash = some m →
    ∃ m', sv'.blockMedianTime sv'.txEnv.parentHash = some m' ∧ m ≤ m'
  relativeSinceStart :
    sv'.consensus.hardforkSwitch.ckb2021.isBlockTsAsRelativeSinceStartEnabled
        (sv'.txEnv.epochNumber sv'.consensus.txProposalWindow) =
      sv.consensus.hardforkSwitch.ckb2021.isBlockTsAsRelativeSinceStartEnabled
        (sv.txEnv.epochNumber sv.consensus.txProposalWindow)

theorem Later.relativeBase (later : sv.Later sv') (info : TransactionInfo H) :
    sv'.relativeBase info = sv.relativeBase info := by
  unfold SinceVerifier.relativeBase parentMedianTime blockMedianTime
  rw [later.relativeSinceStart, later.dataLoader, later.consensus]

theorem Later.metAbsolute (later : sv.Later sv') {metric : SinceMetric} (met : sv.MetAbsolute metric) :
    sv'.MetAbsolute metric := by
  cases metric with
  | blockNumber blockNumber => exact Nat.le_trans met later.blockNumber
  | epochNumberWithFraction epoch =>
    obtain ⟨wellFormed, a, tip, b, since, reached⟩ := met
    obtain ⟨a', tip', later⟩ := later.epoch a tip
    exact ⟨wellFormed, a', tip', b, since, le_trans reached later⟩
  | timestamp timestamp =>
    obtain ⟨m, median, reached⟩ := met
    obtain ⟨m', median', later⟩ := later.medianTime m median
    exact ⟨m', median', Nat.le_trans reached later⟩

theorem Later.metRelative (later : sv.Later sv') {info : TransactionInfo H} {metric : SinceMetric}
    (met : sv.MetRelative info metric) : sv'.MetRelative info metric := by
  cases metric with
  | blockNumber blockNumber => exact Nat.le_trans met later.blockNumber
  | epochNumberWithFraction epoch =>
    obtain ⟨wellFormed, a, tip, c, block, b, since, reached⟩ := met
    obtain ⟨a', tip', later⟩ := later.epoch a tip
    exact ⟨wellFormed, a', tip', c, block, b, since, le_trans reached later⟩
  | timestamp timestamp =>
    obtain ⟨base, based, m, median, reached⟩ := met
    obtain ⟨m', median', laterMedian⟩ := later.medianTime m median
    exact ⟨base, (later.relativeBase info).trans based, m', median', Nat.le_trans reached laterMedian⟩

theorem Later.fitsRelative (later : sv.Later sv') {info : TransactionInfo H} {metric : SinceMetric}
    (fits : sv.FitsRelative info metric) : sv'.FitsRelative info metric := by
  cases metric with
  | blockNumber blockNumber => exact fits
  | epochNumberWithFraction epoch => trivial
  | timestamp timestamp =>
    intro base based
    exact fits base ((later.relativeBase info).symm.trans based)

theorem Later.verifyInput (later : sv.Later sv') {index : Nat} {cellMeta : CellMeta H} {input : CellInput H}
    (ok : (sv.verifyInput index cellMeta input).run = some (.ok ())) :
    (sv'.verifyInput index cellMeta input).run = some (.ok ()) := by
  rcases sv.verifyInput_ok.mp ok with zero | ⟨valid, absolute, relative⟩
  · exact sv'.verifyInput_ok.mpr (.inl zero)
  · refine sv'.verifyInput_ok.mpr (.inr ⟨valid, ?_, ?_⟩)
    · refine sv'.verifyAbsoluteLock_ok.mpr fun isAbsolute => ?_
      obtain ⟨metric, extracted, met⟩ := sv.verifyAbsoluteLock_ok.mp absolute isAbsolute
      exact ⟨metric, extracted, later.metAbsolute met⟩
    · refine sv'.verifyRelativeLock_ok.mpr fun isRelative => ?_
      obtain ⟨info, found, metric, extracted, met, fits⟩ := sv.verifyRelativeLock_ok.mp relative isRelative
      exact ⟨info, found, metric, extracted, later.metRelative met, later.fitsRelative fits⟩

theorem verify_ok : sv.verify.run = some (.ok ()) ↔
    ∀ entry ∈ (sv.rtx.resolvedInputs.zip sv.rtx.transaction.inputs).zipIdx,
      (sv.verifyInput entry.2 entry.1.1 entry.1.2).run = some (.ok ()) :=
  forM_run_eq_ok_iff _

theorem met_of_verify (ok : sv.verify.run = some (.ok ())) {cellMeta : CellMeta H} {input : CellInput H}
    (member : (cellMeta, input) ∈ sv.rtx.resolvedInputs.zip sv.rtx.transaction.inputs) :
    sv.Met cellMeta input.since := by
  -- the loop runs over the pairs with their indices; forget the index
  rw [← List.zipIdx_map_fst 0 (sv.rtx.resolvedInputs.zip sv.rtx.transaction.inputs)] at member
  obtain ⟨⟨pair, index⟩, numbered, rfl⟩ := List.mem_map.mp member
  exact sv.met_of_verifyInput (sv.verify_ok.mp ok _ numbered)

theorem Later.verify (later : sv.Later sv') (sameTransaction : sv'.rtx = sv.rtx)
    (ok : sv.verify.run = some (.ok ())) : sv'.verify.run = some (.ok ()) := by
  refine sv'.verify_ok.mpr fun entry numbered => later.verifyInput (sv.verify_ok.mp ok entry ?_)
  rwa [sameTransaction] at numbered

theorem verify_sound_and_monotone :
    (∀ sv : SinceVerifier H, sv.verify.run = some (.ok ()) →
      ∀ cellMeta input, (cellMeta, input) ∈ sv.rtx.resolvedInputs.zip sv.rtx.transaction.inputs →
        sv.Met cellMeta input.since) ∧
    ∀ sv sv' : SinceVerifier H, sv'.rtx = sv.rtx → sv.Later sv' →
      sv.verify.run = some (.ok ()) → sv'.verify.run = some (.ok ()) :=
  ⟨fun sv ok _ _ member => sv.met_of_verify ok member,
    fun _ _ sameTransaction later ok => later.verify sameTransaction ok⟩

/-! A cell created in block 1 (timestamp 5000) with a relative since of 6 seconds, checked at
block 3, whose parent has median time 10000, with RFC 0028 active from epoch 1. -/

def timelockHeaders : Nat → Option (HeaderFields Nat)
  | 0 => some ⟨0, 0, ⟨0⟩, 0, 0⟩
  | 1 => some ⟨1, 1, ⟨0⟩, 5000, 0⟩
  | 2 => some ⟨2, 2, ⟨0⟩, 10000, 1⟩
  | _ => none

def timelockConsensus : Consensus :=
  { txProposalWindow := ⟨2, 10⟩, medianTimeBlockCount := 1, hardforkSwitch := ⟨⟨1⟩⟩ }

def timelockCell : CellMeta Nat := ⟨⟨100, ⟨0, .data, []⟩, none⟩, ⟨7, 0⟩, some ⟨1, 1, 0, 0⟩, 0, none, none⟩

def timelockTransaction : ResolvedTransaction Nat :=
  ⟨⟨3, [], [], [⟨⟨7, 0⟩, lockTypeFlag + 0x4000000000000000 + 6⟩], [], [], [[]]⟩, [], [timelockCell], []⟩

/-- The check at block 3 in epoch 0, before RFC 0028: the base is block 1's median time, 0. -/
def beforeFork : SinceVerifier Nat :=
  ⟨timelockTransaction, timelockConsensus, ⟨timelockHeaders⟩, ⟨.committed, 3, .new 0 0 100, 3, 2⟩⟩

/-- The same check later in epoch 0. -/
def laterBeforeFork : SinceVerifier Nat :=
  ⟨timelockTransaction, timelockConsensus, ⟨timelockHeaders⟩, ⟨.committed, 4, .new 0 5 100, 4, 2⟩⟩

/-- The same tip block and median time, in epoch 1: the base is block 1's own time, 5000. -/
def afterFork : SinceVerifier Nat :=
  ⟨timelockTransaction, timelockConsensus, ⟨timelockHeaders⟩, ⟨.committed, 3, .new 1 0 100, 3, 2⟩⟩

theorem beforeFork_epoch : beforeFork.txEnv.epoch.toRational = some 0 := by decide +kernel

theorem later_beforeFork : beforeFork.Later laterBeforeFork where
  consensus := rfl
  dataLoader := rfl
  blockNumber := by decide
  epoch := by
    intro a tip
    rw [beforeFork_epoch, Option.some.injEq] at tip
    exact ⟨5 / 100, by decide +kernel, by rw [← tip]; decide +kernel⟩
  medianTime := fun m median => ⟨m, median, Nat.le_refl m⟩
  relativeSinceStart := by decide

theorem laterBeforeFork_verify :
    beforeFork.Met timelockCell (lockTypeFlag + 0x4000000000000000 + 6) ∧ laterBeforeFork.verify.run = some (.ok ()) :=
  have ok : beforeFork.verify.run = some (.ok ()) := by decide +kernel
  ⟨verify_sound_and_monotone.1 beforeFork ok timelockCell ⟨⟨7, 0⟩, _⟩ (by decide),
    verify_sound_and_monotone.2 beforeFork laterBeforeFork rfl later_beforeFork ok⟩

/- Across the RFC 0028 switch, a later check can reject what an earlier one accepted. -/
example :
    afterFork.rtx = beforeFork.rtx ∧ afterFork.consensus = beforeFork.consensus ∧
      afterFork.dataLoader = beforeFork.dataLoader ∧
      beforeFork.txEnv.blockNumber beforeFork.consensus.txProposalWindow =
        afterFork.txEnv.blockNumber afterFork.consensus.txProposalWindow ∧
      beforeFork.txEnv.epoch.toRational = some 0 ∧ afterFork.txEnv.epoch.toRational = some 1 ∧
      beforeFork.blockMedianTime beforeFork.txEnv.parentHash = some 10000 ∧
      afterFork.blockMedianTime afterFork.txEnv.parentHash = some 10000 ∧
      beforeFork.verify.run = some (.ok ()) ∧ afterFork.verify.run = some (.error (.immature 0)) :=
  ⟨rfl, rfl, rfl, rfl, beforeFork_epoch, by decide +kernel, by decide +kernel, by decide +kernel,
    by decide +kernel, by decide +kernel⟩

/-! An input whose since is an absolute timestamp of `2^56 - 1` seconds, beyond `u64` once in
milliseconds. -/

def overflowingSince : Nat := 0x4000000000000000 + valueMask

def overflowingTransaction : ResolvedTransaction Nat :=
  ⟨⟨3, [], [], [⟨⟨7, 0⟩, overflowingSince⟩], [], [], [[]]⟩, [], [timelockCell], []⟩

def overflowingCheck : SinceVerifier Nat :=
  ⟨overflowingTransaction, timelockConsensus, ⟨timelockHeaders⟩, ⟨.committed, 3, .new 0 0 100, 3, 2⟩⟩

theorem timestamp_since_overflow_panics :
    (Since.mk overflowingSince).flagsIsValid = true ∧ (Since.mk overflowingSince).isAbsolute = true ∧
      (Since.mk overflowingSince).exactMetric = some (.timestamp (valueMask * 1000)) ∧ u64Max < valueMask * 1000 ∧
      overflowingCheck.verify.run = none :=
  ⟨by decide, by decide, by decide, by decide, by decide +kernel⟩

end SinceVerifier

end Ckb
