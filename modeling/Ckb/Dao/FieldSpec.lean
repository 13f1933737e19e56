import Ckb.Dao.WithdrawSpec

namespace Ckb

open Capacity

variable {H : Type}

@[simp] theorem run_liftCapacity_ne_none {α : Type} (x : Except CapacityError α) : (liftCapacity x).run ≠ none := by
  rw [run_liftCapacity]
  exact Option.some_ne_none _

@[simp] theorem run_liftCapacity_eq_ok {α : Type} {x : Except CapacityError α} {a : α} :
    (liftCapacity x).run = some (.ok a) ↔ x = .ok a := by
  rw [run_liftCapacity, Option.some.injEq, Except.mapError_eq_ok]

theorem Extras.EpochExt.secondaryBlockIssuance_ne_none {e : Extras.EpochExt H} (positive : 0 < e.length)
    (blockNumber secondaryEpochIssuance : Nat) :
    (e.secondaryBlockIssuance blockNumber secondaryEpochIssuance).run ≠ none := by
  unfold Extras.EpochExt.secondaryBlockIssuance
  rw [if_neg (Nat.pos_iff_ne_zero.mp positive)]
  dsimp only
  split_ifs <;> simp

namespace DaoCalculator

variable {calculator : DaoCalculator H}

/-- Rates of the stored headers are nonzero. -/
def RatesPositive (calculator : DaoCalculator H) : Prop :=
  ∀ hash header, calculator.dataLoader.getHeader hash = some header → 0 < (extractDaoData header.dao).1

theorem calculateMaximumWithdraw_ne_none (rates : calculator.RatesPositive) (output : CellOutput H)
    (outputDataCapacity : Nat) (depositHeaderHash withdrawingHeaderHash : H) :
    (calculator.calculateMaximumWithdraw output outputDataCapacity depositHeaderHash withdrawingHeaderHash).run ≠ none := by
  unfold calculateMaximumWithdraw
  cases foundDeposit : calculator.dataLoader.getHeader depositHeaderHash with
  | none => simp [liftExcept]
  | some deposit =>
    cases foundWithdrawing : calculator.dataLoader.getHeader withdrawingHeaderHash with
    | none => simp [liftExcept]
    | some withdrawing =>
      have nonzero : (extractDaoData deposit.dao).1 ≠ 0 := Nat.pos_iff_ne_zero.mp (rates _ _ foundDeposit)
      simp only [ExceptT.okOr_some, liftExcept, pure_bind, if_neg nonzero]
      split_ifs
      · simp
      · refine ExceptT.run_bind_ne_none (run_liftCapacity_ne_none _) fun occupied _ => ?_
        exact ExceptT.run_bind_ne_none (run_liftCapacity_ne_none _) fun counted _ => run_liftCapacity_ne_none _

variable [DecidableEq H] (rates : calculator.RatesPositive)
include rates

theorem inputMaximumWithdraw_ne_none (rtx : ResolvedTransaction H) (cellMeta : CellMeta H) (i : Nat) :
    (calculator.inputMaximumWithdraw rtx cellMeta i).run ≠ none := by
  unfold inputMaximumWithdraw
  dsimp only
  split_ifs
  · refine ExceptT.run_bind_ne_none (by simp) fun withdrawingHeaderHash _ => ?_
    refine ExceptT.run_bind_ne_none (by simp) fun depositHeaderHash _ => ?_
    refine ExceptT.run_bind_ne_none (run_liftCapacity_ne_none _) fun outputDataCapacity _ => ?_
    exact calculateMaximumWithdraw_ne_none rates _ _ _ _
  · simp

theorem transactionMaximumWithdraw_ne_none (rtx : ResolvedTransaction H) :
    (calculator.transactionMaximumWithdraw rtx).run ≠ none :=
  ExceptT.foldlM_run_ne_none (fun _ => True) _ (fun _ _ _ _ _ _ => trivial)
    (fun _ _ _ _ => ExceptT.run_bind_ne_none (inputMaximumWithdraw_ne_none rates _ _ _)
      fun _ _ => run_liftCapacity_ne_none _) trivial

theorem withdrawedInterests_ne_none (rtxs : List (ResolvedTransaction H)) :
    (calculator.withdrawedInterests rtxs).run ≠ none := by
  unfold withdrawedInterests
  refine ExceptT.run_bind_ne_none ?_ fun _ _ =>
    ExceptT.run_bind_ne_none (run_liftCapacity_ne_none _) fun _ _ => run_liftCapacity_ne_none _
  exact ExceptT.foldlM_run_ne_none (fun _ => True) rtxs (fun _ _ _ _ _ _ => trivial)
    (fun capacities rtx _ _ => ExceptT.run_bind_ne_none (transactionMaximumWithdraw_ne_none rates rtx)
      fun c _ => run_liftCapacity_ne_none (safeAdd capacities c)) trivial

theorem daoFieldWithCurrentEpoch_ne_none {parent : HeaderView H} {epoch : Extras.EpochExt H}
    (cPositive : 0 < (extractDaoData parent.dao).2.1) (positive : 0 < epoch.length) (rtxs : List (ResolvedTransaction H)) :
    (calculator.daoFieldWithCurrentEpoch rtxs parent epoch).run ≠ none := by
  obtain ⟨⟨ar, c, s, u⟩, parentDao⟩ : ∃ field, extractDaoData parent.dao = field := ⟨_, rfl⟩
  rw [parentDao] at cPositive
  unfold daoFieldWithCurrentEpoch
  refine ExceptT.run_bind_ne_none (run_liftCapacity_ne_none _) fun freed _ => ?_
  refine ExceptT.run_bind_ne_none (run_liftCapacity_ne_none _) fun added _ => ?_
  refine ExceptT.run_bind_ne_none (withdrawedInterests_ne_none rates rtxs) fun withdrawn _ => ?_
  rw [parentDao]
  dsimp only
  refine ExceptT.run_bind_ne_none ?_ fun g2 _ => ?_
  · rw [ExceptT.run_adapt]
    intro panicked
    exact Extras.EpochExt.secondaryBlockIssuance_ne_none positive _ _ (Option.map_eq_none_iff.mp panicked)
  refine ExceptT.run_bind_ne_none (run_liftCapacity_ne_none _) fun g _ => ?_
  rw [if_neg (Nat.pos_iff_ne_zero.mp cPositive)]
  -- no step after the divisor check panics
  refine ExceptT.run_bind_ne_none (by simp) fun miner _ => ?_
  refine ExceptT.run_bind_ne_none (run_liftCapacity_ne_none _) fun nervosdao _ => ?_
  refine ExceptT.run_bind_ne_none (run_liftCapacity_ne_none _) fun currentC _ => ?_
  refine ExceptT.run_bind_ne_none (run_liftCapacity_ne_none _) fun currentU _ => ?_
  refine ExceptT.run_bind_ne_none (run_liftCapacity_ne_none _) fun currentS _ => ?_
  refine ExceptT.run_bind_ne_none (by simp) fun arIncrease _ => ?_
  refine ExceptT.run_bind_ne_none (by simp) fun currentAr _ => ?_
  simp

omit rates in
/-- What a new DAO field is made of: every step of `dao_field_with_current_epoch` succeeded, and
the field packs the four updated words. -/
theorem daoFieldWithCurrentEpoch_eq_ok {parent : HeaderView H} {epoch : Extras.EpochExt H} {ar c s u : Nat}
    (parentDao : extractDaoData parent.dao = (ar, c, s, u)) {rtxs : List (ResolvedTransaction H)} {field : Byte32}
    (ok : (calculator.daoFieldWithCurrentEpoch rtxs parent epoch).run = some (.ok field)) :
    ∃ freed added withdrawn g2 primary,
      calculator.freedOccupiedCapacities rtxs = .ok freed ∧ addedOccupiedCapacities rtxs = .ok added ∧
      (calculator.withdrawedInterests rtxs).run = some (.ok withdrawn) ∧
      (epoch.secondaryBlockIssuance (parent.number + 1) calculator.consensus.secondaryEpochReward).run =
        some (.ok g2) ∧
      epoch.blockReward (parent.number + 1) = .ok primary ∧ primary + g2 < 2 ^ 64 ∧
      g2 * u / c ≤ g2 ∧ c + (primary + g2) < 2 ^ 64 ∧ u + added < 2 ^ 64 ∧ freed ≤ u + added ∧
      s + (g2 - g2 * u / c) < 2 ^ 64 ∧ withdrawn ≤ s + (g2 - g2 * u / c) ∧ ar + ar * g2 / c < 2 ^ 64 ∧
      field = packDaoData (ar + ar * g2 / c) (c + (primary + g2)) (s + (g2 - g2 * u / c) - withdrawn)
        (u + added - freed) := by
  unfold daoFieldWithCurrentEpoch at ok
  rw [parentDao] at ok
  simp only [ExceptT.run_bind_eq_ok, run_liftCapacity_eq_ok, ExceptT.run_adapt_eq_ok] at ok
  obtain ⟨freed, freedOk, added, addedOk, withdrawn, withdrawnOk, g2, g2Ok, g, gOk, ok⟩ := ok
  -- the divisor check passed
  have cNonzero : c ≠ 0 := by
    rintro rfl
    simp at ok
  rw [if_neg cNonzero] at ok
  -- each checked step gives its value and the bound it checked
  simp only [ExceptT.run_bind_eq_ok, run_liftCapacity_eq_ok, ExceptT.run_liftExcept, Option.some.injEq,
    tryFromU128_eq_ok, safeSub_eq_ok, safeAdd_eq_ok, Except.bind_eq_ok, ExceptT.run_pure_eq_ok,
    ExceptT.okOr_eq_ok] at ok gOk
  obtain ⟨primary, primaryOk, rfl, primaryFits⟩ := gOk
  obtain ⟨_, ⟨rfl, -⟩, _, ⟨rfl, minerBelow⟩, _, ⟨rfl, cFits⟩, _, ⟨_, ⟨rfl, uFits⟩, rfl, freedBelow⟩, _,
    ⟨_, ⟨rfl, sFits⟩, rfl, withdrawnBelow⟩, _, ⟨rfl, -⟩, currentAr, arOk, rfl⟩ := ok
  have arFits : ar + ar * g2 / c < 2 ^ 64 := by
    by_contra overflows
    rw [if_neg overflows] at arOk
    cases arOk
  rw [if_pos arFits, Option.some.injEq] at arOk
  subst arOk
  exact ⟨freed, added, withdrawn, g2, primary, freedOk, addedOk, withdrawnOk, g2Ok, primaryOk, primaryFits, minerBelow,
    cFits, uFits, freedBelow, sFits, withdrawnBelow, arFits, rfl⟩

end DaoCalculator

theorem dao_field_with_current_epoch_accounts {H : Type} [DecidableEq H] (calculator : DaoCalculator H)
    (rates : calculator.RatesPositive) (rtxs : List (ResolvedTransaction H)) (parent : HeaderView H)
    (epoch : Extras.EpochExt H) {ar c s u : Nat} (parentDao : extractDaoData parent.dao = (ar, c, s, u))
    (cPositive : 0 < c) (positive : 0 < epoch.length) :
    (calculator.daoFieldWithCurrentEpoch rtxs parent epoch).run ≠ none ∧
      (∀ field, (calculator.daoFieldWithCurrentEpoch rtxs parent epoch).run = some (.ok field) →
        ∃ ar' c' s' u' primary g2 freed added withdrawn, extractDaoData field = (ar', c', s', u') ∧
          epoch.blockReward (parent.number + 1) = .ok primary ∧
          (epoch.secondaryBlockIssuance (parent.number + 1) calculator.consensus.secondaryEpochReward).run =
            some (.ok g2) ∧
          calculator.freedOccupiedCapacities rtxs = .ok freed ∧ DaoCalculator.addedOccupiedCapacities rtxs = .ok added ∧
          (calculator.withdrawedInterests rtxs).run = some (.ok withdrawn) ∧
          ar ≤ ar' ∧ ar' = ar + ar * g2 / c ∧ c' = c + (primary + g2) ∧ g2 * u / c ≤ g2 ∧
          u' + freed = u + added ∧ s' + withdrawn = s + (g2 - g2 * u / c)) ∧
      ∀ ar c s u, ar < 2 ^ 64 → c < 2 ^ 64 → s < 2 ^ 64 → u < 2 ^ 64 →
        extractDaoData (packDaoData ar c s u) = (ar, c, s, u) := by
  have rateOk : (extractDaoData parent.dao).2.1 = c := by rw [parentDao]
  refine ⟨DaoCalculator.daoFieldWithCurrentEpoch_ne_none rates (rateOk ▸ cPositive) positive rtxs, ?_, ?_⟩
  · intro field ok
    obtain ⟨freed, added, withdrawn, g2, primary, freedOk, addedOk, withdrawnOk, g2Ok, primaryOk, -, minerBelow,
      cFits, uFits, freedBelow, sFits, withdrawnBelow, arFits, rfl⟩ := DaoCalculator.daoFieldWithCurrentEpoch_eq_ok parentDao ok
    -- every packed word is below `2 ^ 64`, so unpacking gives it back
    have words := extractDaoData_packDaoData (ar + ar * g2 / c) (c + (primary + g2)) (s + (g2 - g2 * u / c) - withdrawn)
      (u + added - freed)
    rw [Nat.mod_eq_of_lt arFits, Nat.mod_eq_of_lt cFits, Nat.mod_eq_of_lt (by omega),
      Nat.mod_eq_of_lt (by omega)] at words
    exact ⟨_, _, _, _, primary, g2, freed, added, withdrawn, words, primaryOk, g2Ok, freedOk, addedOk, withdrawnOk,
      Nat.le_add_right _ _, rfl, rfl, minerBelow, by omega, by omega⟩
  · intro ar c s u arFits cFits sFits uFits
    rw [extractDaoData_packDaoData, Nat.mod_eq_of_lt arFits, Nat.mod_eq_of_lt cFits, Nat.mod_eq_of_lt sFits,
      Nat.mod_eq_of_lt uFits]

section Samples

open DaoCalculator

/-- An epoch of ten blocks from block 300 with a primary reward of 1000 shannons. -/
def daoEpoch : Extras.EpochExt Nat :=
  { number := 1, lastBlockHashInPreviousEpoch := 0, length := 10, baseBlockReward := 100, remainderReward := 0,
    previousEpochHashRate := 0, startNumber := 300, compactTarget := 0 }

theorem withdrawCalculator_ratesPositive : withdrawCalculator.RatesPositive := by
  intro hash header found
  simp only [withdrawCalculator, withdrawLoader] at found
  split_ifs at found <;> cases found <;> decide

/-- A cell of `capacity` CKBytes with no type script. -/
def plainCell (capacity : Nat) (index : Nat) : CellMeta Nat :=
  ⟨⟨capacity * byteShannons, ⟨0, .type, []⟩, none⟩, ⟨5, index⟩, some ⟨20, 200, 0, 1⟩, 0, none, none⟩

/-- A transfer of a plain cell of 500 CKBytes into a cell of 400 CKBytes. -/
def transferTransaction : ResolvedTransaction Nat :=
  ⟨⟨7, [], [], [⟨⟨5, 0⟩, 0⟩], [⟨400 * byteShannons, ⟨0, .type, []⟩, none⟩], [[]], [[]]⟩, [], [plainCell 500 0], []⟩

/-- A DAO deposit of 300 CKBytes out of a plain cell of 350 CKBytes. -/
def depositTransaction : ResolvedTransaction Nat :=
  ⟨⟨8, [], [], [⟨⟨5, 1⟩, 0⟩], [⟨300 * byteShannons, ⟨0, .type, []⟩, some ⟨1, .type, []⟩⟩],
    [LittleEndian.write 8 0], [[]]⟩, [], [plainCell 350 1], []⟩

theorem block_dao_field_accounts :
    extractDaoData (rateHeader 30 299 (10 ^ 16)).dao = (10 ^ 16, 1, 0, 0) ∧ 0 < 1 ∧ 0 < daoEpoch.length ∧
      (withdrawCalculator.daoFieldWithCurrentEpoch [transferTransaction, depositTransaction]
        (rateHeader 30 299 (10 ^ 16)) daoEpoch).run ≠ none ∧
      ((withdrawCalculator.daoFieldWithCurrentEpoch [transferTransaction, depositTransaction]
        (rateHeader 30 299 (10 ^ 16)) daoEpoch).run.bind Except.toOption).isSome :=
  have parentDao : extractDaoData (rateHeader 30 299 (10 ^ 16)).dao = (10 ^ 16, 1, 0, 0) := by decide
  ⟨parentDao, by decide, by decide,
    (dao_field_with_current_epoch_accounts withdrawCalculator withdrawCalculator_ratesPositive
      [transferTransaction, depositTransaction] (rateHeader 30 299 (10 ^ 16)) daoEpoch parentDao (by decide)
      (by decide)).1, by decide⟩

/-! A block spending a withdrawing DAO cell deposited under a header whose rate is zero: the cell's
data is the deposit's block number, its witness's `input_type` points at header dep `0`, and the
withdrawal is in header dep `1`. -/

def zeroRateLoader : DaoDataLoader Nat where
  getHeader hash :=
    if hash = 10 then some (rateHeader 10 100 0)
    else if hash = 20 then some (rateHeader 20 200 (10 ^ 16))
    else none
  loadCellData _ := some (LittleEndian.write 8 100)

def zeroRateCalculator : DaoCalculator Nat := ⟨⟨0, 1, [], ⟨1, 1⟩⟩, zeroRateLoader⟩

/-- `WitnessArgs` with an empty lock and output type and an `input_type` of eight bytes. -/
def depositWitness : List UInt8 :=
  LittleEndian.write 4 28 ++ LittleEndian.write 4 16 ++ LittleEndian.write 4 16 ++ LittleEndian.write 4 28 ++
    LittleEndian.write 4 8 ++ LittleEndian.write 8 0

def withdrawingCell : CellMeta Nat :=
  ⟨⟨200 * byteShannons, ⟨0, .type, []⟩, some ⟨1, .type, []⟩⟩, ⟨5, 0⟩, some ⟨20, 200, 0, 1⟩, 8, none, none⟩

def withdrawingTransaction : ResolvedTransaction Nat :=
  ⟨⟨7, [], [10, 20], [⟨⟨5, 0⟩, 0⟩], [], [], [depositWitness]⟩, [], [withdrawingCell], []⟩

theorem zero_deposit_rate_panics :
    extractDaoData (rateHeader 30 299 (10 ^ 16)).dao = (10 ^ 16, 1, 0, 0) ∧ 0 < daoEpoch.length ∧
      zeroRateCalculator.dataLoader.getHeader 10 = some (rateHeader 10 100 0) ∧
      (extractDaoData (rateHeader 10 100 0).dao).1 = 0 ∧
      (zeroRateCalculator.daoFieldWithCurrentEpoch [withdrawingTransaction] (rateHeader 30 299 (10 ^ 16)) daoEpoch).run =
        none :=
  ⟨by decide, by decide, rfl, by decide, by decide⟩

end Samples

end Ckb
