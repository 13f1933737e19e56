import Ckb.Verification.Header
import Ckb.Types.RationalSpec

namespace Ckb.EpochNumberWithFraction

/-- The value of an epoch, `number + index / length`, as `to_rational` computes it. -/
def value (e : EpochNumberWithFraction) : ℚ := (e.index : ℚ) / e.length + e.number

theorem isGenesis_eq_false {e : EpochNumberWithFraction} (wellFormed : e.isWellFormed) : e.isGenesis = false := by
  simp only [isWellFormed, Bool.and_eq_true, decide_eq_true_eq] at wellFormed
  simp only [isGenesis, Bool.and_eq_false_iff, beq_eq_false_iff_ne]
  exact Or.inr (Nat.pos_iff_ne_zero.mp wellFormed.1)

theorem value_lt_of_isSuccessorOf {e predecessor : EpochNumberWithFraction} (wellFormed : predecessor.isWellFormed)
    (successor : e.isSuccessorOf predecessor) : predecessor.value < e.value := by
  have below := index_div_length_lt_one wellFormed
  unfold isSuccessorOf at successor
  split_ifs at successor with last
  · -- the first index of the next epoch
    simp only [Bool.and_eq_true, beq_iff_eq] at successor
    obtain ⟨number, index⟩ := successor
    simp only [value, number, index, Nat.cast_zero, zero_div, zero_add, Nat.cast_add, Nat.cast_one]
    linarith
  · -- the next index of the same epoch
    simp only [Bool.and_eq_true, beq_iff_eq] at successor
    obtain ⟨⟨number, index⟩, length⟩ := successor
    simp only [isWellFormed, Bool.and_eq_true, decide_eq_true_eq] at wellFormed
    have step : (0 : ℚ) < 1 / predecessor.length := by
      have positive : (0 : ℚ) < predecessor.length := by exact_mod_cast wellFormed.1
      positivity
    simp only [value, number, index, length, Nat.cast_add, Nat.cast_one, add_div]
    linarith

end Ckb.EpochNumberWithFraction

namespace Ckb.Verification.Header

open ExceptT

variable {H : Type}

/-- What `HeaderVerifier` checks of a header against its parent's fields, the timestamp apart. -/
structure Follows (consensus : HeaderConsensus H) (parent : HeaderFields H) (header : HeaderView H) : Prop where
  version : consensus.isRemoveHeaderVersionReservationRuleEnabled header.fields.epoch.number = true ∨
    header.version = consensus.blockVersion
  pow : consensus.powVerify header = true
  parentBelowMax : parent.number < u64Max
  number : header.fields.number = parent.number + 1
  epochWellFormed : header.fields.epoch.isWellFormed = true
  epochContinuous : parent.epoch.isGenesis = true ∨ header.fields.epoch.isSuccessorOf parent.epoch = true

section Checks

variable {consensus : HeaderConsensus H} {header : HeaderView H}

theorem versionVerifier_eq_ok :
    VersionVerifier.verify consensus header = .ok () ↔
      consensus.isRemoveHeaderVersionReservationRuleEnabled header.fields.epoch.number = true ∨
        header.version = consensus.blockVersion := by
  unfold VersionVerifier.verify
  cases consensus.isRemoveHeaderVersionReservationRuleEnabled header.fields.epoch.number <;>
    by_cases same : header.version = consensus.blockVersion <;> simp [same]

theorem powVerifier_eq_ok : PowVerifier.verify consensus.powVerify header = .ok () ↔ consensus.powVerify header = true := by
  unfold PowVerifier.verify
  cases consensus.powVerify header <;> simp

theorem numberVerifier_eq_ok {parent : Nat} {fields : HeaderFields H} :
    (NumberVerifier.verify parent fields).run = some (.ok ()) ↔ parent < u64Max ∧ fields.number = parent + 1 := by
  unfold NumberVerifier.verify
  rw [run_bind_eq_ok]
  simp only [run_lift_eq_ok, checkedAdd_eq_some, run_ite_throw_eq_ok, not_not, run_pure_eq_ok, and_true]
  constructor
  · rintro ⟨expected, ⟨fits, rfl⟩, number⟩
    exact ⟨by omega, number⟩
  · rintro ⟨fits, number⟩
    exact ⟨parent + 1, ⟨by omega, rfl⟩, number⟩

theorem epochVerifier_eq_ok {parent : EpochNumberWithFraction} {fields : HeaderFields H} :
    EpochVerifier.verify parent fields = .ok () ↔
      fields.epoch.isWellFormed = true ∧ (parent.isGenesis = true ∨ fields.epoch.isSuccessorOf parent = true) := by
  unfold EpochVerifier.verify
  cases fields.epoch.isWellFormed <;> cases parent.isGenesis <;> cases fields.epoch.isSuccessorOf parent <;> simp

theorem versionVerifier_eq_error {e : HeaderError H} (failed : VersionVerifier.verify consensus header = .error e) :
    e = .blockVersion consensus.blockVersion header.version ∧
      consensus.isRemoveHeaderVersionReservationRuleEnabled header.fields.epoch.number = false ∧
        header.version ≠ consensus.blockVersion := by
  unfold VersionVerifier.verify at failed
  by_cases rejected : (!consensus.isRemoveHeaderVersionReservationRuleEnabled header.fields.epoch.number &&
      decide (header.version ≠ consensus.blockVersion)) = true
  · rw [if_pos rejected] at failed
    simp only [Bool.and_eq_true, Bool.not_eq_eq_eq_not, Bool.not_true, decide_eq_true_eq] at rejected
    exact ⟨(Except.error.inj failed).symm, rejected⟩
  · rw [if_neg rejected] at failed
    cases failed

theorem powVerifier_eq_error {e : HeaderError H} (failed : PowVerifier.verify consensus.powVerify header = .error e) :
    e = .pow .invalidNonce ∧ consensus.powVerify header = false := by
  unfold PowVerifier.verify at failed
  cases passed : consensus.powVerify header
  · rw [passed] at failed
    exact ⟨(Except.error.inj failed).symm, rfl⟩
  · rw [passed] at failed
    cases failed

theorem numberVerifier_eq_error {parent : Nat} {fields : HeaderFields H} {e : HeaderError H}
    (failed : (NumberVerifier.verify parent fields).run = some (.error e)) :
    e = .number (parent + 1) fields.number ∧ fields.number ≠ parent + 1 := by
  unfold NumberVerifier.verify at failed
  rcases run_bind_eq_error.mp failed with lifted | ⟨expected, added, checked⟩
  · -- lifting the sum fails only by panicking
    cases sum : checkedAdd parent 1 <;> simp [sum] at lifted
  · obtain ⟨-, rfl⟩ := checkedAdd_eq_some.mp (run_lift_eq_ok.mp added)
    by_cases differs : fields.number ≠ parent + 1
    · rw [if_pos differs] at checked
      simp only [run_throw, Option.pure_def, Option.some_inj, Except.error.injEq] at checked
      exact ⟨checked.symm, differs⟩
    · rw [if_neg differs] at checked
      simp [run_pure] at checked

theorem epochVerifier_eq_error {parent : EpochNumberWithFraction} {fields : HeaderFields H} {e : HeaderError H}
    (failed : EpochVerifier.verify parent fields = .error e) :
    (e = .epoch (.malformed fields.epoch) ∧ fields.epoch.isWellFormed = false) ∨
      (e = .epoch (.nonContinuous fields.epoch parent) ∧ parent.isGenesis = false ∧
        fields.epoch.isSuccessorOf parent = false) := by
  unfold EpochVerifier.verify at failed
  cases wellFormed : fields.epoch.isWellFormed <;> cases genesis : parent.isGenesis <;>
    cases successor : fields.epoch.isSuccessorOf parent <;>
    simp [wellFormed, genesis, successor] at failed <;> simp [← failed]

end Checks

variable (dataLoader : HeaderFieldsProvider H) (consensus : HeaderConsensus H)

theorem headerVerifier_eq_ok {now : Nat} {header : HeaderView H} :
    (HeaderVerifier.verify dataLoader consensus now header).run = some (.ok ()) ↔
      ∃ parent, dataLoader.getHeaderFields header.fields.parentHash = some parent ∧ Follows consensus parent header ∧
        (TimestampVerifier.verify ⟨dataLoader, header.fields, consensus.medianTimeBlockCount, now⟩).run = some (.ok ()) := by
  simp only [HeaderVerifier.verify, run_bind_unit_eq_ok]
  -- the parent's lookup is the one bind that passes a value on
  rw [run_bind_eq_ok]
  simp only [run_bind_unit_eq_ok, run_liftExcept, Option.some_inj, versionVerifier_eq_ok, powVerifier_eq_ok, okOr_eq_ok,
    numberVerifier_eq_ok, epochVerifier_eq_ok, run_adapt_eq_ok]
  constructor
  · rintro ⟨version, pow, parent, found, ⟨below, number⟩, ⟨wellFormed, continuous⟩, timestamp⟩
    exact ⟨parent, found, ⟨version, pow, below, number, wellFormed, continuous⟩, timestamp⟩
  · rintro ⟨parent, found, ⟨version, pow, below, number, wellFormed, continuous⟩, timestamp⟩
    exact ⟨version, pow, parent, found, ⟨below, number⟩, ⟨wellFormed, continuous⟩, timestamp⟩

/-- What an error of `HeaderVerifier` says of the header: the check it names failed, on the values
it carries. -/
def HeaderError.Holds (now : Nat) (header : HeaderView H) : HeaderError H → Prop
  | .blockVersion expected actual =>
    consensus.isRemoveHeaderVersionReservationRuleEnabled header.fields.epoch.number = false ∧
      expected = consensus.blockVersion ∧ actual = header.version ∧ actual ≠ expected
  | .pow _ => consensus.powVerify header = false
  | .unknownParent parentHash => parentHash = header.fields.parentHash ∧ dataLoader.getHeaderFields parentHash = none
  | .number expected actual => ∃ parent, dataLoader.getHeaderFields header.fields.parentHash = some parent ∧
    expected = parent.number + 1 ∧ actual = header.fields.number ∧ actual ≠ expected
  | .epoch (.malformed value) => value = header.fields.epoch ∧ value.isWellFormed = false
  | .epoch (.nonContinuous current parentEpoch) =>
    ∃ parent, dataLoader.getHeaderFields header.fields.parentHash = some parent ∧ parentEpoch = parent.epoch ∧
      current = header.fields.epoch ∧ parentEpoch.isGenesis = false ∧ current.isSuccessorOf parentEpoch = false
  | .timestamp error =>
    (TimestampVerifier.verify ⟨dataLoader, header.fields, consensus.medianTimeBlockCount, now⟩).run = some (.error error)

theorem headerVerifier_error_holds {now : Nat} {header : HeaderView H} {e : HeaderError H}
    (failed : (HeaderVerifier.verify dataLoader consensus now header).run = some (.error e)) :
    HeaderError.Holds dataLoader consensus now header e := by
  simp only [HeaderVerifier.verify, run_bind_eq_error, run_liftExcept, Option.some_inj] at failed
  -- the first check that fails gives the error
  rcases failed with version | ⟨-, -, pow | ⟨-, -, lookup | ⟨parent, found, number | ⟨-, -, epoch | ⟨-, -, timestamp⟩⟩⟩⟩⟩
  · obtain ⟨rfl, rule, differs⟩ := versionVerifier_eq_error version
    exact ⟨rule, rfl, rfl, differs⟩
  · obtain ⟨rfl, rejected⟩ := powVerifier_eq_error pow
    exact rejected
  · obtain ⟨missing, rfl⟩ := okOr_eq_error.mp lookup
    exact ⟨rfl, missing⟩
  · obtain ⟨rfl, differs⟩ := numberVerifier_eq_error number
    exact ⟨parent, okOr_eq_ok.mp found, rfl, rfl, differs⟩
  · rcases epochVerifier_eq_error epoch with ⟨rfl, malformed⟩ | ⟨rfl, notGenesis, notSuccessor⟩
    · exact ⟨rfl, malformed⟩
    · exact ⟨parent, okOr_eq_ok.mp found, rfl, rfl, notGenesis, notSuccessor⟩
  · obtain ⟨error, ran, rfl⟩ := run_adapt_eq_error.mp timestamp
    exact ran

/-! Chains of headers -/

/-- Headers from the oldest, each following the one before it. -/
def FollowsChain (headers : List (HeaderView H)) : Prop :=
  headers.IsChain fun parent header => Follows consensus parent.fields header

/-- Headers each accepted by `HeaderVerifier` with the one before it as the parent the data loader
finds follow one another. -/
theorem followsChain_of_verify (nowOf : HeaderView H → Nat) {headers : List (HeaderView H)}
    (verified : headers.IsChain fun parent header =>
      dataLoader.getHeaderFields header.fields.parentHash = some parent.fields ∧
        (HeaderVerifier.verify dataLoader consensus (nowOf header) header).run = some (.ok ())) :
    FollowsChain consensus headers := by
  refine verified.imp fun parent header ⟨found, accepted⟩ => ?_
  obtain ⟨parent', found', follows, -⟩ := (headerVerifier_eq_ok dataLoader consensus).mp accepted
  rw [found, Option.some_inj] at found'
  exact found' ▸ follows

variable {consensus}

theorem FollowsChain.number_getElem {first : HeaderView H} {rest : List (HeaderView H)}
    (chain : FollowsChain consensus (first :: rest)) (i : Nat) (within : i < (first :: rest).length) :
    (first :: rest)[i].fields.number = first.fields.number + i := by
  induction i with
  | zero => rfl
  | succ i ih =>
    have step := (List.isChain_iff_getElem.mp chain i within).number
    rw [step, ih (by omega)]
    rfl

theorem FollowsChain.isChain_value : ∀ {headers : List (HeaderView H)}, FollowsChain consensus headers →
    (∀ first ∈ headers.head?, first.fields.epoch.isWellFormed = true) →
    headers.IsChain fun parent header => parent.fields.epoch.value < header.fields.epoch.value
  | [], _, _ => .nil
  | [_], _, _ => .singleton _
  | parent :: header :: rest, chain, first => by
    rw [FollowsChain, List.isChain_cons_cons] at chain
    obtain ⟨follows, chain⟩ := chain
    have wellFormed : parent.fields.epoch.isWellFormed = true := first parent rfl
    -- a well-formed epoch is not the genesis value, so the header's is its successor
    have successor := follows.epochContinuous.resolve_left
      (by rw [EpochNumberWithFraction.isGenesis_eq_false wellFormed]; exact Bool.false_ne_true)
    exact List.IsChain.cons_cons (EpochNumberWithFraction.value_lt_of_isSuccessorOf wellFormed successor)
      (FollowsChain.isChain_value chain fun next found => Option.some_inj.mp found ▸ follows.epochWellFormed)

variable {dataLoader}

/-- Along headers each accepted by `HeaderVerifier` with the one before it as parent, the numbers
count up one at a time, and from a well-formed first epoch the epochs' values strictly increase. -/
theorem verified_headers_progress (nowOf : HeaderView H → Nat) {first : HeaderView H} {rest : List (HeaderView H)}
    (verified : (first :: rest).IsChain fun parent header =>
      dataLoader.getHeaderFields header.fields.parentHash = some parent.fields ∧
        (HeaderVerifier.verify dataLoader consensus (nowOf header) header).run = some (.ok ()))
    (wellFormed : first.fields.epoch.isWellFormed = true) :
    (∀ i (within : i < (first :: rest).length), (first :: rest)[i].fields.number = first.fields.number + i) ∧
      ((first :: rest).map fun header => header.fields.epoch.value).Pairwise (· < ·) := by
  have chain := followsChain_of_verify dataLoader consensus nowOf verified
  refine ⟨chain.number_getElem, ?_⟩
  have increasing := chain.isChain_value fun head found => Option.some_inj.mp found ▸ wellFormed
  exact List.isChain_iff_pairwise.mp ((List.isChain_map _).mpr increasing)

section Samples

/-- Six headers hashed `200 + k`, a second apart, in epochs of three blocks: the fourth header
starts the second epoch. -/
def sampleChainHeader (k : Nat) : HeaderView Nat :=
  ⟨⟨200 + k, k, EpochNumberWithFraction.new (k / 3) (k % 3) 3, 1000 * k, 200 + (k - 1)⟩, 0⟩

def sampleChainProvider : HeaderFieldsProvider Nat :=
  ⟨fun hash => if 200 ≤ hash ∧ hash ≤ 205 then some (sampleChainHeader (hash - 200)).fields else none⟩

/-- Version 0, every nonce accepted, and the median time of the parent alone. -/
def sampleHeaderConsensus : HeaderConsensus Nat := ⟨0, fun _ => false, fun _ => true, 1⟩

theorem sampleChainHeader_verified : ∀ k < 5,
    sampleChainProvider.getHeaderFields (sampleChainHeader (k + 1)).fields.parentHash = some (sampleChainHeader k).fields ∧
      (HeaderVerifier.verify sampleChainProvider sampleHeaderConsensus 6000 (sampleChainHeader (k + 1))).run =
        some (.ok ()) := by
  intro k below
  obtain rfl | rfl | rfl | rfl | rfl : k = 0 ∨ k = 1 ∨ k = 2 ∨ k = 3 ∨ k = 4 := by omega
  all_goals exact ⟨by decide, by decide +kernel⟩

/-- The six sample headers in order. -/
def sampleHeaders : List (HeaderView Nat) := (List.range 6).map sampleChainHeader

theorem sample_chain_progress :
    (sampleChainHeader 0).fields.epoch.isWellFormed = true ∧
      (∀ i (within : i < sampleHeaders.length),
        sampleHeaders[i].fields.number = (sampleChainHeader 0).fields.number + i) ∧
      (sampleHeaders.map fun header => header.fields.epoch.value).Pairwise (· < ·) :=
  have verified : sampleHeaders.IsChain fun parent header =>
      sampleChainProvider.getHeaderFields header.fields.parentHash = some parent.fields ∧
        (HeaderVerifier.verify sampleChainProvider sampleHeaderConsensus 6000 header).run = some (.ok ()) :=
    .cons_cons (sampleChainHeader_verified 0 (by decide)) (.cons_cons (sampleChainHeader_verified 1 (by decide))
      (.cons_cons (sampleChainHeader_verified 2 (by decide)) (.cons_cons (sampleChainHeader_verified 3 (by decide))
        (.cons_cons (sampleChainHeader_verified 4 (by decide)) (.singleton _)))))
  ⟨by decide, verified_headers_progress (fun _ => 6000) verified (by decide)⟩

/-- A data loader that finds the first sample header for every hash. -/
def sampleFirstParentProvider : HeaderFieldsProvider Nat := ⟨fun _ => some (sampleChainHeader 0).fields⟩

example :
    (HeaderVerifier.verify sampleFirstParentProvider sampleHeaderConsensus 2000 (sampleChainHeader 2)).run =
        some (.error (.number 1 2)) ∧
      HeaderError.Holds sampleFirstParentProvider sampleHeaderConsensus 2000 (sampleChainHeader 2) (.number 1 2) :=
  ⟨by decide, headerVerifier_error_holds sampleFirstParentProvider sampleHeaderConsensus (by decide)⟩

end Samples

end Ckb.Verification.Header
