import Ckb.Versionbits.Checker
import Mathlib.Logic.Relation

namespace Ckb

namespace VersionbitsIndexer

variable {H : Type} (indexer : VersionbitsIndexer H)

def IsPrevious (previous epochExt : EpochExt H) : Prop := indexer.previousEpoch epochExt = some previous

/-- An indexer whose epochs are keyed by the hash of the last block before them, and linked to the
epoch before them by that block, with numbers that go down by one. -/
structure WellFormed : Prop where
  index : ∀ index epochExt, indexer.epochExt index = some epochExt → epochExt.lastBlockHashInPreviousEpoch = index
  linked : ∀ epochExt, indexer.epochExt epochExt.lastBlockHashInPreviousEpoch = some epochExt → 0 < epochExt.number →
    ∃ previous, indexer.IsPrevious previous epochExt
  decreasing : ∀ previous epochExt, indexer.epochExt epochExt.lastBlockHashInPreviousEpoch = some epochExt →
    indexer.IsPrevious previous epochExt → previous.number + 1 = epochExt.number

/-- `ancestor` is `epochExt` or an epoch before it. -/
def EpochAncestor (ancestor epochExt : EpochExt H) : Prop := Relation.ReflTransGen indexer.IsPrevious ancestor epochExt

/-- The indexer holds `header` in the epoch `epochExt`, whose number its epoch field carries. -/
def Indexed (header : Header H) (epochExt : EpochExt H) : Prop :=
  indexer.blockEpochIndex header.hash = some epochExt.lastBlockHashInPreviousEpoch ∧
    indexer.epochExt epochExt.lastBlockHashInPreviousEpoch = some epochExt ∧ header.epoch.number = epochExt.number

variable {indexer}

theorem isPrevious_unique {previous previous' epochExt : EpochExt H} (first : indexer.IsPrevious previous epochExt)
    (second : indexer.IsPrevious previous' epochExt) : previous = previous' :=
  Option.some_inj.mp (first.symm.trans second)

theorem ancestorEpochLoop_number_le {target : Nat} :
    ∀ fuel (epochExt ancestor : EpochExt H), indexer.ancestorEpochLoop target fuel epochExt = some ancestor →
      ancestor.number ≤ target := by
  intro fuel
  induction fuel with
  | zero =>
    intro epochExt ancestor found
    unfold ancestorEpochLoop at found
    split_ifs at found with above
    exact Option.some_inj.mp found ▸ Nat.le_of_not_lt above
  | succ fuel ih =>
    intro epochExt ancestor found
    unfold ancestorEpochLoop at found
    split_ifs at found with above
    · simp only [Option.bind_eq_bind, Option.bind_eq_some_iff] at found
      obtain ⟨previous, -, found⟩ := found
      exact ih previous ancestor found
    · exact Option.some_inj.mp found ▸ Nat.le_of_not_lt above

theorem ancestorEpoch_number_le {index : H} {target : Nat} {ancestor : EpochExt H}
    (found : indexer.ancestorEpoch index target = some ancestor) : ancestor.number ≤ target := by
  simp only [ancestorEpoch, Option.bind_eq_bind, Option.bind_eq_some_iff] at found
  obtain ⟨epochExt, -, found⟩ := found
  split_ifs at found
  exact ancestorEpochLoop_number_le _ epochExt ancestor found

variable (wf : indexer.WellFormed)
include wf

theorem indexed_of_epochExt {index : H} {epochExt : EpochExt H} (found : indexer.epochExt index = some epochExt) :
    indexer.epochExt epochExt.lastBlockHashInPreviousEpoch = some epochExt := by
  rw [wf.index index epochExt found]
  exact found

theorem IsPrevious.indexed {previous epochExt : EpochExt H} (isPrevious : indexer.IsPrevious previous epochExt) :
    indexer.epochExt previous.lastBlockHashInPreviousEpoch = some previous := by
  simp only [IsPrevious, previousEpoch, Option.bind_eq_bind, Option.bind_eq_some_iff] at isPrevious
  obtain ⟨_, -, previousIndex, -, found⟩ := isPrevious
  exact indexed_of_epochExt wf found

theorem ancestorEpochLoop_indexed {target : Nat} :
    ∀ fuel (epochExt ancestor : EpochExt H), indexer.epochExt epochExt.lastBlockHashInPreviousEpoch = some epochExt →
      indexer.ancestorEpochLoop target fuel epochExt = some ancestor →
      indexer.epochExt ancestor.lastBlockHashInPreviousEpoch = some ancestor := by
  intro fuel
  induction fuel with
  | zero =>
    intro epochExt ancestor indexed found
    unfold ancestorEpochLoop at found
    split_ifs at found
    exact Option.some_inj.mp found ▸ indexed
  | succ fuel ih =>
    intro epochExt ancestor indexed found
    unfold ancestorEpochLoop at found
    split_ifs at found
    · simp only [Option.bind_eq_bind, Option.bind_eq_some_iff] at found
      obtain ⟨previous, isPrevious, found⟩ := found
      exact ih previous ancestor (IsPrevious.indexed wf isPrevious) found
    · exact Option.some_inj.mp found ▸ indexed

theorem ancestorEpoch_indexed {index : H} {target : Nat} {ancestor : EpochExt H}
    (found : indexer.ancestorEpoch index target = some ancestor) :
    indexer.epochExt ancestor.lastBlockHashInPreviousEpoch = some ancestor := by
  simp only [ancestorEpoch, Option.bind_eq_bind, Option.bind_eq_some_iff] at found
  obtain ⟨epochExt, ext, found⟩ := found
  split_ifs at found
  exact ancestorEpochLoop_indexed wf _ epochExt ancestor (indexed_of_epochExt wf ext) found

theorem EpochAncestor.number_le {ancestor epochExt : EpochExt H} (chain : indexer.EpochAncestor ancestor epochExt)
    (indexed : indexer.epochExt epochExt.lastBlockHashInPreviousEpoch = some epochExt) :
    ancestor.number ≤ epochExt.number := by
  induction chain with
  | refl => exact Nat.le_refl _
  | tail _ previous ih =>
    have down := wf.decreasing _ _ indexed previous
    have below := ih (IsPrevious.indexed wf previous)
    omega

theorem EpochAncestor.unique {first second epochExt : EpochExt H} (firstChain : indexer.EpochAncestor first epochExt)
    (secondChain : indexer.EpochAncestor second epochExt)
    (indexed : indexer.epochExt epochExt.lastBlockHashInPreviousEpoch = some epochExt)
    (same : first.number = second.number) : first = second := by
  induction firstChain generalizing second with
  | refl =>
    rcases secondChain.cases_tail with rfl | ⟨middle, secondMiddle, previous⟩
    · rfl
    · have below := EpochAncestor.number_le wf secondMiddle (IsPrevious.indexed wf previous)
      have down := wf.decreasing _ _ indexed previous
      omega
  | tail firstMiddle previous ih =>
    have below := EpochAncestor.number_le wf firstMiddle (IsPrevious.indexed wf previous)
    have down := wf.decreasing _ _ indexed previous
    rcases secondChain.cases_tail with rfl | ⟨middle, secondMiddle, previous'⟩
    · omega
    · obtain rfl := isPrevious_unique previous' previous
      exact ih secondMiddle (IsPrevious.indexed wf previous) same

/-- On a well-formed indexer, the loop of `ancestor_epoch` from an epoch `d` above the target
returns its ancestor at the target. -/
theorem ancestorEpochLoop_eq (target : Nat) :
    ∀ d (epochExt : EpochExt H), indexer.epochExt epochExt.lastBlockHashInPreviousEpoch = some epochExt →
      epochExt.number = target + d → ∃ ancestor, indexer.ancestorEpochLoop target d epochExt = some ancestor ∧
        ancestor.number = target ∧ indexer.EpochAncestor ancestor epochExt := by
  intro d
  induction d with
  | zero =>
    intro epochExt _ number
    refine ⟨epochExt, ?_, number, .refl⟩
    unfold ancestorEpochLoop
    rw [if_neg (by omega)]
  | succ d ih =>
    intro epochExt indexed number
    obtain ⟨previous, isPrevious⟩ := wf.linked epochExt indexed (by omega)
    have down := wf.decreasing _ _ indexed isPrevious
    obtain ⟨ancestor, loop, ancestorNumber, chain⟩ := ih previous (IsPrevious.indexed wf isPrevious) (by omega)
    refine ⟨ancestor, ?_, ancestorNumber, chain.tail isPrevious⟩
    unfold ancestorEpochLoop
    rw [if_pos (by omega)]
    simp only [show indexer.previousEpoch epochExt = some previous from isPrevious, Option.bind_eq_bind, Option.bind_some,
      loop]

theorem ancestorEpoch_eq {index : H} {epochExt : EpochExt H} {target : Nat} (ext : indexer.epochExt index = some epochExt)
    (le : target ≤ epochExt.number) : ∃ ancestor, indexer.ancestorEpoch index target = some ancestor ∧
      ancestor.number = target ∧ indexer.EpochAncestor ancestor epochExt := by
  obtain ⟨ancestor, loop, number, chain⟩ :=
    ancestorEpochLoop_eq wf target (epochExt.number - target) epochExt (indexed_of_epochExt wf ext) (by omega)
  refine ⟨ancestor, ?_, number, chain⟩
  simp only [ancestorEpoch, ext, Option.bind_eq_bind, Option.bind_some, if_neg (Nat.not_lt.mpr le), loop]

end VersionbitsIndexer

/-- The first epoch of the signalling period of `epochNumber`: the last epoch before a multiple of
the period, and `0` for the first period. -/
def periodStart (period epochNumber : Nat) : Nat := epochNumber - (epochNumber + 1) % period

namespace VersionbitsConditionChecker

open VersionbitsIndexer

variable {H : Type} (checker : VersionbitsConditionChecker H) (indexer : VersionbitsIndexer H)

/-- The state of the period that starts at `epochExt`, with no cache: `Defined` at genesis and
before `start`, else the transition from the state of the period before. -/
def stateOf : Nat → EpochExt H → Option ThresholdState
  | 0, _ => none
  | fuel + 1, epochExt =>
    if epochExt.isGenesis || decide (epochExt.number < checker.start) then some .defined
    else (indexer.ancestorEpoch epochExt.lastBlockHashInPreviousEpoch (epochExt.number - checker.period)).bind
      fun previous => (stateOf fuel previous).bind fun state => checker.nextState indexer state epochExt

def uncachedState (epochExt : EpochExt H) : Option ThresholdState := checker.stateOf indexer (epochExt.number + 1) epochExt

/-- Each entry of the cache is the uncached state of the epoch it is keyed by. -/
def CacheSound [DecidableEq H] (cache : FiniteMap H ThresholdState) : Prop :=
  ∀ index state, cache.lookup index = some state →
    ∃ epochExt, indexer.epochExt index = some epochExt ∧ checker.uncachedState indexer epochExt = some state

/-- The cache after `get_state` of `headers`, in order, from an empty one. -/
def cacheAfter [DecidableEq H] (headers : List (Header H)) : FiniteMap H ThresholdState :=
  headers.foldl (fun cache header => (checker.getState indexer header cache).2) ∅

/-- `stack` is the pending periods of the walk above `epochExt`: each one's period before is the
one below it, and none starts `Defined` on its own. -/
def Above : EpochExt H → List (EpochExt H) → Prop
  | _, [] => True
  | below, epochExt :: rest =>
    (epochExt.isGenesis || decide (epochExt.number < checker.start)) = false ∧
      indexer.ancestorEpoch epochExt.lastBlockHashInPreviousEpoch (epochExt.number - checker.period) = some below ∧
      indexer.epochExt epochExt.lastBlockHashInPreviousEpoch = some epochExt ∧ Above epochExt rest

/-- The transition relation of RFC 0043 from the state of a period to that of the next one,
which starts at `epochExt`: `Started` once `start` is reached, `Failed` only at `timeout` without
enough signalling blocks, `Active` once `min_activation_epoch` is reached; `Active` and `Failed`
stay. -/
def Transition (state next : ThresholdState) (epochExt : EpochExt H) : Prop :=
  match state with
  | .defined => (next = .started ∧ checker.start ≤ epochExt.number) ∨ (next = .defined ∧ epochExt.number < checker.start)
  | .started => next = .started ∨ next = .lockedIn ∨
      (next = .failed ∧ checker.timeout ≤ epochExt.number ∧ ∃ count total threshold,
        checker.countSignals indexer epochExt = some (count, total) ∧
        thresholdNumber total checker.threshold = some threshold ∧ count < threshold)
  | .lockedIn => (next = .active ∧ checker.minActivationEpoch ≤ epochExt.number) ∨
      (next = .lockedIn ∧ epochExt.number < checker.minActivationEpoch)
  | .active => next = .active
  | .failed => next = .failed

theorem nextState_transition {state next : ThresholdState} {epochExt : EpochExt H}
    (step : checker.nextState indexer state epochExt = some next) : checker.Transition indexer state next epochExt := by
  cases state with
  | defined =>
    simp only [nextState, Option.some_inj] at step
    split_ifs at step with reached
    · exact .inl ⟨step.symm, reached⟩
    · exact .inr ⟨step.symm, Nat.lt_of_not_le reached⟩
  | started =>
    simp only [nextState, Option.bind_eq_bind, Option.bind_eq_some_iff] at step
    obtain ⟨⟨count, total⟩, counted, threshold, thresholdFound, decided⟩ := step
    split_ifs at decided with locked timedOut
    · exact .inr (.inl (Option.some_inj.mp decided).symm)
    · exact .inr (.inr ⟨(Option.some_inj.mp decided).symm, timedOut, count, total, threshold, counted, thresholdFound,
        Nat.lt_of_not_le locked⟩)
    · exact .inl (Option.some_inj.mp decided).symm
  | lockedIn =>
    simp only [nextState, Option.some_inj] at step
    split_ifs at step with reached
    · exact .inl ⟨step.symm, reached⟩
    · exact .inr ⟨step.symm, Nat.lt_of_not_le reached⟩
  | active => exact (Option.some_inj.mp step).symm
  | failed => exact (Option.some_inj.mp step).symm

variable {checker indexer} (positive : 0 < checker.period)
include positive

theorem previous_number_lt {epochExt previous : EpochExt H}
    (notBase : (epochExt.isGenesis || decide (epochExt.number < checker.start)) = false)
    (found : indexer.ancestorEpoch epochExt.lastBlockHashInPreviousEpoch (epochExt.number - checker.period) = some previous) :
    previous.number < epochExt.number := by
  have below := ancestorEpoch_number_le found
  have notGenesis : epochExt.number ≠ 0 := by
    simp only [Bool.or_eq_false_iff, EpochExt.isGenesis, beq_eq_false_iff_ne] at notBase
    exact notBase.1
  omega

theorem stateOf_fuel : ∀ fuel fuel' (epochExt : EpochExt H), epochExt.number < fuel → epochExt.number < fuel' →
    checker.stateOf indexer fuel epochExt = checker.stateOf indexer fuel' epochExt := by
  intro fuel
  induction fuel with
  | zero => intro _ _ enough; omega
  | succ fuel ih =>
    intro fuel' epochExt enough enough'
    obtain ⟨fuel', rfl⟩ : ∃ n, fuel' = n + 1 := ⟨fuel' - 1, by omega⟩
    unfold stateOf
    cases base : (epochExt.isGenesis || decide (epochExt.number < checker.start))
    · simp only [Bool.false_eq_true, if_false]
      cases found : indexer.ancestorEpoch epochExt.lastBlockHashInPreviousEpoch (epochExt.number - checker.period) with
      | none => rfl
      | some previous =>
        have lower := previous_number_lt positive base found
        simp only [Option.bind_some]
        rw [ih fuel' previous (by omega) (by omega)]
    · rfl

omit positive in
theorem uncachedState_of_base {epochExt : EpochExt H}
    (base : (epochExt.isGenesis || decide (epochExt.number < checker.start)) = true) :
    checker.uncachedState indexer epochExt = some .defined := by
  simp only [uncachedState, stateOf, base, if_true]

theorem uncachedState_of_not_base {epochExt previous : EpochExt H}
    (notBase : (epochExt.isGenesis || decide (epochExt.number < checker.start)) = false)
    (found : indexer.ancestorEpoch epochExt.lastBlockHashInPreviousEpoch (epochExt.number - checker.period) = some previous) :
    checker.uncachedState indexer epochExt =
      (checker.uncachedState indexer previous).bind fun state => checker.nextState indexer state epochExt := by
  have lower := previous_number_lt positive notBase found
  conv_lhs => rw [uncachedState, stateOf]
  simp only [notBase, Bool.false_eq_true, if_false, found, Option.bind_some]
  rw [stateOf_fuel positive epochExt.number (previous.number + 1) previous lower (by omega)]
  rfl

omit positive in
theorem uncachedState_of_ancestorEpoch_none {epochExt : EpochExt H}
    (notBase : (epochExt.isGenesis || decide (epochExt.number < checker.start)) = false)
    (missing : indexer.ancestorEpoch epochExt.lastBlockHashInPreviousEpoch (epochExt.number - checker.period) = none) :
    checker.uncachedState indexer epochExt = none := by
  simp only [uncachedState, stateOf, notBase, Bool.false_eq_true, if_false, missing, Option.bind_none]

theorem uncachedState_top_none : ∀ (stack : List (EpochExt H)) (below : EpochExt H), checker.Above indexer below stack →
    checker.uncachedState indexer below = none → checker.uncachedState indexer (stack.getLast?.getD below) = none := by
  intro stack
  induction stack with
  | nil => exact fun _ _ missing => missing
  | cons epochExt rest ih =>
    intro below above missing
    obtain ⟨notBase, found, -, aboveRest⟩ := above
    rw [List.getLast?_cons, Option.getD_some]
    apply ih epochExt aboveRest
    rw [uncachedState_of_not_base positive notBase found, missing, Option.bind_none]

section Cache

variable [DecidableEq H]

omit positive in
theorem cacheSound_empty : checker.CacheSound indexer ∅ := by
  intro index state found
  rw [Finmap.lookup_empty] at found
  cases found

omit positive in
theorem CacheSound.insert {cache : FiniteMap H ThresholdState} (sound : checker.CacheSound indexer cache)
    {epochExt : EpochExt H} {state : ThresholdState}
    (indexed : indexer.epochExt epochExt.lastBlockHashInPreviousEpoch = some epochExt)
    (uncached : checker.uncachedState indexer epochExt = some state) :
    checker.CacheSound indexer (cache.insert epochExt.lastBlockHashInPreviousEpoch state) := by
  intro index state' found
  by_cases same : index = epochExt.lastBlockHashInPreviousEpoch
  · subst same
    rw [Finmap.lookup_insert] at found
    obtain rfl := Option.some_inj.mp found
    exact ⟨epochExt, indexed, uncached⟩
  · rw [Finmap.lookup_insert_of_ne _ same] at found
    exact sound index state' found

/-- The replay from the uncached state of a period returns that of the top of the stack, caching
sound states on its way. -/
theorem replay_eq : ∀ (stack : List (EpochExt H)) (below : EpochExt H) (state : ThresholdState)
    (cache : FiniteMap H ThresholdState), checker.CacheSound indexer cache → checker.Above indexer below stack →
    checker.uncachedState indexer below = some state →
    (checker.replay indexer state stack cache).1 = checker.uncachedState indexer (stack.getLast?.getD below) ∧
      checker.CacheSound indexer (checker.replay indexer state stack cache).2 := by
  intro stack
  induction stack with
  | nil => exact fun _ _ _ sound _ uncached => ⟨uncached.symm, sound⟩
  | cons epochExt rest ih =>
    intro below state cache sound above uncached
    obtain ⟨notBase, found, indexed, aboveRest⟩ := above
    have step := uncachedState_of_not_base positive notBase found
    rw [uncached, Option.bind_some] at step
    rw [List.getLast?_cons, Option.getD_some]
    cases next : checker.nextState indexer state epochExt with
    | none =>
      simp only [replay, next]
      exact ⟨(uncachedState_top_none positive rest epochExt aboveRest (step.trans next)).symm, sound⟩
    | some next' =>
      simp only [replay, next]
      exact ih epochExt next' _ (sound.insert indexed (step.trans next)) aboveRest (step.trans next)

variable (wf : indexer.WellFormed)
include wf

/-- The walk of `get_state` from a period, with the periods above it pending, returns the uncached
state of the top one, whatever the sound cache holds, and leaves the cache sound. -/
theorem walk_eq : ∀ fuel (epochExt : EpochExt H) (stack : List (EpochExt H)) (cache : FiniteMap H ThresholdState),
    epochExt.number < fuel → indexer.epochExt epochExt.lastBlockHashInPreviousEpoch = some epochExt →
    checker.Above indexer epochExt stack → checker.CacheSound indexer cache →
    (checker.walk indexer fuel epochExt stack cache).1 = checker.uncachedState indexer (stack.getLast?.getD epochExt) ∧
      checker.CacheSound indexer (checker.walk indexer fuel epochExt stack cache).2 := by
  intro fuel
  induction fuel with
  | zero => intro _ _ _ enough; omega
  | succ fuel ih =>
    intro epochExt stack cache enough indexed above sound
    simp only [walk]
    cases hit : cache.lookup epochExt.lastBlockHashInPreviousEpoch with
    | some state =>
      -- a hit is the uncached state of this very epoch
      obtain ⟨cached, ext, uncached⟩ := sound _ _ hit
      obtain rfl : cached = epochExt := Option.some_inj.mp (ext.symm.trans indexed)
      exact replay_eq positive stack cached state cache sound above uncached
    | none =>
      cases base : (epochExt.isGenesis || decide (epochExt.number < checker.start))
      · simp only [Bool.false_eq_true, if_false]
        cases found : indexer.ancestorEpoch epochExt.lastBlockHashInPreviousEpoch (epochExt.number - checker.period) with
        | none =>
          exact ⟨(uncachedState_top_none positive stack epochExt above
            (uncachedState_of_ancestorEpoch_none base found)).symm, sound⟩
        | some previous =>
          have lower := previous_number_lt positive base found
          have result := ih previous (epochExt :: stack) cache (by omega) (ancestorEpoch_indexed wf found)
            ⟨base, found, indexed, above⟩ sound
          rwa [List.getLast?_cons, Option.getD_some] at result
      · simp only [if_true]
        exact replay_eq positive stack epochExt .defined _ (sound.insert indexed (uncachedState_of_base base)) above
          (uncachedState_of_base base)

variable (normal : checker.activeMode = .normal)
include normal

/-- `get_state` of a header returns the uncached state of its period's first epoch and keeps a
sound cache sound. -/
theorem getState_eq (header : Header H) {cache : FiniteMap H ThresholdState} (sound : checker.CacheSound indexer cache) :
    (checker.getState indexer header cache).1 = (indexer.blockEpochIndex header.hash).bind (fun startIndex =>
      (indexer.ancestorEpoch startIndex (periodStart checker.period header.epoch.number)).bind
        (checker.uncachedState indexer)) ∧
      checker.CacheSound indexer (checker.getState indexer header cache).2 := by
  unfold getState
  rw [if_neg (by rw [normal]; decide), if_neg (by rw [normal]; decide)]
  cases startFound : indexer.blockEpochIndex header.hash with
  | none => exact ⟨rfl, sound⟩
  | some startIndex =>
    simp only [if_neg (Nat.pos_iff_ne_zero.mp positive), Option.bind_some, periodStart]
    cases found : indexer.ancestorEpoch startIndex (header.epoch.number - (header.epoch.number + 1) % checker.period) with
    | none => exact ⟨rfl, sound⟩
    | some epochExt =>
      simp only [Option.bind_some]
      exact walk_eq positive wf _ epochExt [] cache (Nat.lt_succ_self _) (ancestorEpoch_indexed wf found) trivial sound

theorem cacheAfter_sound (headers : List (Header H)) : checker.CacheSound indexer (checker.cacheAfter indexer headers) := by
  suffices kept : ∀ cache, checker.CacheSound indexer cache →
      checker.CacheSound indexer (headers.foldl (fun cache header => (checker.getState indexer header cache).2) cache) from
    kept ∅ cacheSound_empty
  induction headers with
  | nil => exact fun _ sound => sound
  | cons header rest ih => exact fun cache sound => ih _ (getState_eq positive wf normal header sound).2

/-- `get_state` of an indexed header is the uncached state of the first epoch of its period on the
header's chain. -/
theorem getState_anchor {header : Header H} {epochExt : EpochExt H} (indexed : indexer.Indexed header epochExt)
    {cache : FiniteMap H ThresholdState} (sound : checker.CacheSound indexer cache) :
    ∃ anchor, indexer.EpochAncestor anchor epochExt ∧ anchor.number = periodStart checker.period header.epoch.number ∧
      indexer.ancestorEpoch epochExt.lastBlockHashInPreviousEpoch (periodStart checker.period header.epoch.number) =
        some anchor ∧ (checker.getState indexer header cache).1 = checker.uncachedState indexer anchor := by
  obtain ⟨startFound, ext, number⟩ := indexed
  have early : periodStart checker.period header.epoch.number ≤ epochExt.number := by
    unfold periodStart
    omega
  obtain ⟨anchor, found, anchorNumber, chain⟩ := ancestorEpoch_eq wf ext early
  refine ⟨anchor, chain, anchorNumber, found, ?_⟩
  rw [(getState_eq positive wf normal header sound).1, startFound, Option.bind_some, found, Option.bind_some]

theorem getState_same_period {header header' : Header H} {epochExt epochExt' : EpochExt H}
    (indexed : indexer.Indexed header epochExt) (indexed' : indexer.Indexed header' epochExt')
    (chain : indexer.EpochAncestor epochExt epochExt')
    (same : periodStart checker.period header.epoch.number = periodStart checker.period header'.epoch.number)
    {cache cache' : FiniteMap H ThresholdState} (sound : checker.CacheSound indexer cache)
    (sound' : checker.CacheSound indexer cache') :
    (checker.getState indexer header cache).1 = (checker.getState indexer header' cache').1 := by
  obtain ⟨anchor, anchorChain, anchorNumber, -, state⟩ := getState_anchor positive wf normal indexed sound
  obtain ⟨anchor', anchorChain', anchorNumber', -, state'⟩ := getState_anchor positive wf normal indexed' sound'
  -- both anchors are ancestors of the later epoch, with one number
  obtain rfl : anchor = anchor' :=
    EpochAncestor.unique wf (anchorChain.trans chain) anchorChain' indexed'.2.1 (by rw [anchorNumber, anchorNumber', same])
  rw [state, state']

/-- The states of successive periods on one chain follow the transition relation, at the first
epoch of the later period. -/
theorem getState_next_period {header header' : Header H} {epochExt epochExt' : EpochExt H}
    (indexed : indexer.Indexed header epochExt) (indexed' : indexer.Indexed header' epochExt')
    (chain : indexer.EpochAncestor epochExt epochExt')
    (later : periodStart checker.period header.epoch.number < periodStart checker.period header'.epoch.number)
    (next : periodStart checker.period header'.epoch.number - checker.period = periodStart checker.period header.epoch.number)
    {cache cache' : FiniteMap H ThresholdState} (sound : checker.CacheSound indexer cache)
    (sound' : checker.CacheSound indexer cache') {state state' : ThresholdState}
    (found : (checker.getState indexer header cache).1 = some state)
    (found' : (checker.getState indexer header' cache').1 = some state') :
    ∃ anchor, indexer.ancestorEpoch epochExt'.lastBlockHashInPreviousEpoch
        (periodStart checker.period header'.epoch.number) = some anchor ∧
      checker.Transition indexer state state' anchor := by
  obtain ⟨anchor, anchorChain, anchorNumber, -, uncached⟩ := getState_anchor positive wf normal indexed sound
  obtain ⟨anchor', anchorChain', anchorNumber', anchorFound', uncached'⟩ :=
    getState_anchor positive wf normal indexed' sound'
  rw [uncached] at found
  rw [uncached'] at found'
  refine ⟨anchor', anchorFound', ?_⟩
  have anchorIndexed' := ancestorEpoch_indexed wf anchorFound'
  cases base : (anchor'.isGenesis || decide (anchor'.number < checker.start))
  · -- the period before the later one is the earlier header's
    obtain ⟨previous, previousFound, previousNumber, previousChain⟩ :=
      ancestorEpoch_eq wf anchorIndexed' (Nat.sub_le anchor'.number checker.period)
    obtain rfl : anchor = previous :=
      EpochAncestor.unique wf (anchorChain.trans chain) (previousChain.trans anchorChain') indexed'.2.1
        (by rw [anchorNumber, previousNumber, anchorNumber', next])
    rw [uncachedState_of_not_base positive base previousFound, found, Option.bind_some] at found'
    exact nextState_transition _ _ found'
  · -- a later period before `start` follows one before `start`
    have late : anchor'.number < checker.start := by
      have positiveNumber : anchor'.number ≠ 0 := by omega
      simpa [EpochExt.isGenesis, positiveNumber] using base
    have early : (anchor.isGenesis || decide (anchor.number < checker.start)) = true := by
      simp only [Bool.or_eq_true, decide_eq_true_eq]
      exact .inr (by omega)
    rw [uncachedState_of_base base] at found'
    rw [uncachedState_of_base early] at found
    obtain rfl := Option.some_inj.mp found
    obtain rfl := Option.some_inj.mp found'
    exact .inr ⟨rfl, late⟩

end Cache

end VersionbitsConditionChecker

open VersionbitsIndexer VersionbitsConditionChecker in
theorem versionbits_states_follow_deployment {H : Type} [DecidableEq H] (checker : VersionbitsConditionChecker H)
    (indexer : VersionbitsIndexer H) (wf : indexer.WellFormed) (positive : 0 < checker.period)
    (normal : checker.activeMode = .normal) :
    (∀ (earlier earlier' : List (Header H)) (header header' : Header H) (epochExt epochExt' : EpochExt H)
        (state state' : ThresholdState),
      indexer.Indexed header epochExt → indexer.Indexed header' epochExt' → indexer.EpochAncestor epochExt epochExt' →
      periodStart checker.period header.epoch.number < periodStart checker.period header'.epoch.number →
      periodStart checker.period header'.epoch.number - checker.period = periodStart checker.period header.epoch.number →
      (checker.getState indexer header (checker.cacheAfter indexer earlier)).1 = some state →
      (checker.getState indexer header' (checker.cacheAfter indexer earlier')).1 = some state' →
      ∃ anchor, indexer.ancestorEpoch epochExt'.lastBlockHashInPreviousEpoch
          (periodStart checker.period header'.epoch.number) = some anchor ∧
        checker.Transition indexer state state' anchor) ∧
    (∀ (earlier earlier' : List (Header H)) (header header' : Header H) (epochExt epochExt' : EpochExt H),
      indexer.Indexed header epochExt → indexer.Indexed header' epochExt' → indexer.EpochAncestor epochExt epochExt' →
      periodStart checker.period header.epoch.number = periodStart checker.period header'.epoch.number →
      (checker.getState indexer header (checker.cacheAfter indexer earlier)).1 =
        (checker.getState indexer header' (checker.cacheAfter indexer earlier')).1) ∧
    ∀ (earlier : List (Header H)) (header : Header H),
      (checker.getState indexer header (checker.cacheAfter indexer earlier)).1 = (checker.getState indexer header ∅).1 := by
  refine ⟨fun earlier earlier' _ _ _ _ _ _ indexed indexed' chain later next found found' =>
      getState_next_period positive wf normal indexed indexed' chain later next
        (cacheAfter_sound positive wf normal earlier) (cacheAfter_sound positive wf normal earlier') found found',
    fun earlier earlier' _ _ _ _ indexed indexed' chain same =>
      getState_same_period positive wf normal indexed indexed' chain same
        (cacheAfter_sound positive wf normal earlier) (cacheAfter_sound positive wf normal earlier'),
    fun earlier header => ?_⟩
  rw [(getState_eq positive wf normal header (cacheAfter_sound positive wf normal earlier)).1,
    (getState_eq positive wf normal header cacheSound_empty).1]

/-! Three epochs of two blocks, hashes `1` to `6`, each epoch keyed by the last block before it, and
a deployment of period one that starts at epoch one and counts every block as signalling. -/

def signalHeader (hash number epoch index : Nat) : Header Nat := ⟨hash, hash - 1, number, .new epoch index 2, 0, 0⟩

def signalEpoch (number : Nat) : EpochExt Nat := ⟨number, 2 * number, 2⟩

def signalIndexer : VersionbitsIndexer Nat where
  blockEpochIndex hash := if 1 ≤ hash ∧ hash ≤ 6 then some (2 * ((hash - 1) / 2)) else none
  epochExt index := if index = 0 ∨ index = 2 ∨ index = 4 then some (signalEpoch (index / 2)) else none
  blockHeader hash := if 1 ≤ hash ∧ hash ≤ 6 then some (signalHeader hash (hash - 1) ((hash - 1) / 2) ((hash - 1) % 2))
    else none

def signalChecker : VersionbitsConditionChecker Nat := ⟨1, 5, .normal, fun _ => true, 3, 1, ⟨1, 2⟩⟩

theorem signalIndexer_wellFormed : signalIndexer.WellFormed where
  index index epochExt found := by
    simp only [signalIndexer] at found
    split_ifs at found with keyed
    obtain rfl := Option.some_inj.mp found
    simp only [signalEpoch]
    omega
  linked epochExt indexed positive := by
    simp only [signalIndexer] at indexed
    split_ifs at indexed with keyed
    rcases keyed with keyed | keyed | keyed <;> rw [keyed] at indexed <;> obtain rfl := Option.some_inj.mp indexed
    · cases positive
    · exact ⟨signalEpoch 0, rfl⟩
    · exact ⟨signalEpoch 1, rfl⟩
  decreasing previous epochExt indexed isPrevious := by
    simp only [signalIndexer] at indexed
    split_ifs at indexed with keyed
    rcases keyed with keyed | keyed | keyed <;> rw [keyed] at indexed <;> obtain rfl := Option.some_inj.mp indexed
    · cases isPrevious
    · obtain rfl := Option.some_inj.mp ((show signalIndexer.previousEpoch (signalEpoch 1) = some (signalEpoch 0) from rfl).symm.trans
        isPrevious)
      rfl
    · obtain rfl := Option.some_inj.mp ((show signalIndexer.previousEpoch (signalEpoch 2) = some (signalEpoch 1) from rfl).symm.trans
        isPrevious)
      rfl

theorem signal_periods_follow_transitions :
    signalIndexer.WellFormed ∧ 0 < signalChecker.period ∧ signalChecker.activeMode = .normal ∧
      signalIndexer.Indexed (signalHeader 3 2 1 0) (signalEpoch 1) ∧
      signalIndexer.Indexed (signalHeader 5 4 2 0) (signalEpoch 2) ∧
      signalIndexer.EpochAncestor (signalEpoch 1) (signalEpoch 2) ∧
      periodStart signalChecker.period (signalHeader 3 2 1 0).epoch.number <
        periodStart signalChecker.period (signalHeader 5 4 2 0).epoch.number ∧
      periodStart signalChecker.period (signalHeader 5 4 2 0).epoch.number - signalChecker.period =
        periodStart signalChecker.period (signalHeader 3 2 1 0).epoch.number ∧
      (signalChecker.getState signalIndexer (signalHeader 3 2 1 0) (signalChecker.cacheAfter signalIndexer [])).1 =
        some .started ∧
      (signalChecker.getState signalIndexer (signalHeader 5 4 2 0)
        (signalChecker.cacheAfter signalIndexer [signalHeader 3 2 1 0])).1 = some .lockedIn ∧
      ∃ anchor, signalIndexer.ancestorEpoch (signalEpoch 2).lastBlockHashInPreviousEpoch
          (periodStart signalChecker.period (signalHeader 5 4 2 0).epoch.number) = some anchor ∧
        signalChecker.Transition signalIndexer .started .lockedIn anchor := by
  have indexed : signalIndexer.Indexed (signalHeader 3 2 1 0) (signalEpoch 1) := ⟨rfl, rfl, rfl⟩
  have indexed' : signalIndexer.Indexed (signalHeader 5 4 2 0) (signalEpoch 2) := ⟨rfl, rfl, rfl⟩
  have chain : signalIndexer.EpochAncestor (signalEpoch 1) (signalEpoch 2) := .single rfl
  have started : (signalChecker.getState signalIndexer (signalHeader 3 2 1 0)
      (signalChecker.cacheAfter signalIndexer [])).1 = some .started := by decide
  have lockedIn : (signalChecker.getState signalIndexer (signalHeader 5 4 2 0)
      (signalChecker.cacheAfter signalIndexer [signalHeader 3 2 1 0])).1 = some .lockedIn := by decide
  exact ⟨signalIndexer_wellFormed, by decide, rfl, indexed, indexed', chain, by decide, by decide, started, lockedIn,
    (versionbits_states_follow_deployment signalChecker signalIndexer signalIndexer_wellFormed (by decide) rfl).1
      [] [signalHeader 3 2 1 0] _ _ _ _ _ _ indexed indexed' chain (by decide) (by decide) started lockedIn⟩

end Ckb
