import Ckb.Dao.Calculator

namespace Ckb

open Capacity

variable {H : Type}

namespace DaoCalculator

variable {calculator : DaoCalculator H} {output : CellOutput H} {outputDataCapacity : Nat}
  {depositHeaderHash withdrawingHeaderHash : H} {deposit withdrawing : HeaderView H}

theorem calculateMaximumWithdraw_eq_ok (foundDeposit : calculator.dataLoader.getHeader depositHeaderHash = some deposit)
    (foundWithdrawing : calculator.dataLoader.getHeader withdrawingHeaderHash = some withdrawing)
    (before : deposit.number < withdrawing.number) (rate : 0 < (extractDaoData deposit.dao).1) {v : Nat} :
    (calculator.calculateMaximumWithdraw output outputDataCapacity depositHeaderHash withdrawingHeaderHash).run =
        some (.ok v) ↔
      ∃ occupied, output.occupiedCapacity outputDataCapacity = .ok occupied ∧ occupied ≤ output.capacity ∧
        v = (output.capacity - occupied) * (extractDaoData withdrawing.dao).1 / (extractDaoData deposit.dao).1 % 2 ^ 64 +
          occupied ∧ v < 2 ^ 64 := by
  unfold calculateMaximumWithdraw
  rw [foundDeposit, foundWithdrawing]
  have inOrder : ¬deposit.number ≥ withdrawing.number := Nat.not_le.mpr before
  have nonzero : (extractDaoData deposit.dao).1 ≠ 0 := Nat.pos_iff_ne_zero.mp rate
  simp only [ExceptT.okOr_some, liftExcept, pure_bind, if_neg inOrder, if_neg nonzero, ExceptT.run_bind_eq_ok,
    run_liftCapacity, Option.some.injEq, Except.mapError_eq_ok, safeSub_eq_ok, safeAdd_eq_ok, and_assoc,
    exists_eq_left]
  constructor <;> rintro ⟨occupied, found, le, rfl, fits⟩ <;> exact ⟨occupied, found, le, rfl, fits⟩

variable (foundDeposit : calculator.dataLoader.getHeader depositHeaderHash = some deposit)
  (foundWithdrawing : calculator.dataLoader.getHeader withdrawingHeaderHash = some withdrawing)
  (before : deposit.number < withdrawing.number) (rate : 0 < (extractDaoData deposit.dao).1)
include foundDeposit foundWithdrawing before rate

/-- Where the grown counted capacity fits a `u64`, the maximum withdraw is exact, and at a rate
no lower than the deposit's it is at least the cell's capacity. -/
theorem calculateMaximumWithdraw_exact {v : Nat}
    (ok : (calculator.calculateMaximumWithdraw output outputDataCapacity depositHeaderHash withdrawingHeaderHash).run =
      some (.ok v)) :
    ∃ occupied, output.occupiedCapacity outputDataCapacity = .ok occupied ∧
      ((output.capacity - occupied) * (extractDaoData withdrawing.dao).1 / (extractDaoData deposit.dao).1 < 2 ^ 64 →
        v = occupied + (output.capacity - occupied) * (extractDaoData withdrawing.dao).1 / (extractDaoData deposit.dao).1 ∧
        ((extractDaoData deposit.dao).1 ≤ (extractDaoData withdrawing.dao).1 → output.capacity ≤ v)) := by
  obtain ⟨occupied, found, le, rfl, -⟩ := (calculateMaximumWithdraw_eq_ok foundDeposit foundWithdrawing before rate).mp ok
  refine ⟨occupied, found, fun fits => ⟨by rw [Nat.mod_eq_of_lt fits, Nat.add_comm], fun grows => ?_⟩⟩
  -- the counted capacity grows by a ratio of at least one
  have counted : output.capacity - occupied ≤
      (output.capacity - occupied) * (extractDaoData withdrawing.dao).1 / (extractDaoData deposit.dao).1 := by
    apply (Nat.le_div_iff_mul_le rate).mpr
    exact Nat.mul_le_mul_left _ grows
  rw [Nat.mod_eq_of_lt fits]
  omega

/-- Withdrawn at a header whose accumulated rate is no lower, the same deposit pays no less, as long
as the grown capacity fits a `u64`. -/
theorem calculateMaximumWithdraw_mono {withdrawingHeaderHash' : H} {withdrawing' : HeaderView H} {v v' : Nat}
    (foundWithdrawing' : calculator.dataLoader.getHeader withdrawingHeaderHash' = some withdrawing')
    (before' : deposit.number < withdrawing'.number)
    (rates : (extractDaoData withdrawing.dao).1 ≤ (extractDaoData withdrawing'.dao).1)
    (ok : (calculator.calculateMaximumWithdraw output outputDataCapacity depositHeaderHash withdrawingHeaderHash).run =
      some (.ok v))
    (ok' : (calculator.calculateMaximumWithdraw output outputDataCapacity depositHeaderHash withdrawingHeaderHash').run =
      some (.ok v'))
    (fits' : ∀ occupied, output.occupiedCapacity outputDataCapacity = .ok occupied →
      (output.capacity - occupied) * (extractDaoData withdrawing'.dao).1 / (extractDaoData deposit.dao).1 < 2 ^ 64) :
    v ≤ v' := by
  obtain ⟨occupied, found, exactV⟩ := calculateMaximumWithdraw_exact foundDeposit foundWithdrawing before rate ok
  obtain ⟨occupied', found', exactV'⟩ := calculateMaximumWithdraw_exact foundDeposit foundWithdrawing' before' rate ok'
  obtain rfl : occupied = occupied' := Except.ok.inj (found.symm.trans found')
  have grows : (output.capacity - occupied) * (extractDaoData withdrawing.dao).1 / (extractDaoData deposit.dao).1 ≤
      (output.capacity - occupied) * (extractDaoData withdrawing'.dao).1 / (extractDaoData deposit.dao).1 :=
    Nat.div_le_div_right (Nat.mul_le_mul_left _ rates)
  have fits := fits' occupied found
  obtain ⟨rfl, -⟩ := exactV (lt_of_le_of_lt grows fits)
  obtain ⟨rfl, -⟩ := exactV' fits
  omega

end DaoCalculator

section Samples

/-! A DAO cell holding `2 ^ 63` shannons above its occupied capacity: empty lock args, the DAO type
script and eight bytes of data occupy 82 CKBytes. It is withdrawn from a deposit at the genesis
rate `10 ^ 16`, at twice that rate (header `20`) or at the same rate (header `30`). -/

def depositedOutput : CellOutput Nat := ⟨2 ^ 63 + 82 * byteShannons, ⟨0, .type, []⟩, some ⟨1, .type, []⟩⟩

def rateHeader (hash number ar : Nat) : HeaderView Nat := ⟨⟨hash, 0, number, ⟨0⟩, 0, 0⟩, packDaoData ar 1 0 0⟩

def withdrawLoader : DaoDataLoader Nat where
  getHeader hash :=
    if hash = 10 then some (rateHeader 10 100 (10 ^ 16))
    else if hash = 20 then some (rateHeader 20 200 (2 * 10 ^ 16))
    else if hash = 30 then some (rateHeader 30 300 (10 ^ 16))
    else none
  loadCellData _ := none

def withdrawCalculator : DaoCalculator Nat := ⟨⟨0, 1, [], ⟨1, 1⟩⟩, withdrawLoader⟩

theorem maximum_withdraw_wraps_past_u64 :
    (withdrawCalculator.calculateMaximumWithdraw depositedOutput (8 * byteShannons) 10 20).run =
        some (.ok (82 * byteShannons)) ∧
      (withdrawCalculator.calculateMaximumWithdraw depositedOutput (8 * byteShannons) 10 30).run =
        some (.ok depositedOutput.capacity) ∧
      2 ^ 64 ≤ 82 * byteShannons + (depositedOutput.capacity - 82 * byteShannons) * (2 * 10 ^ 16) / 10 ^ 16 :=
  ⟨by decide, by decide, by decide⟩

/-- A DAO cell holding 100 CKBytes above its occupied capacity. -/
def smallDeposit : CellOutput Nat := ⟨182 * byteShannons, ⟨0, .type, []⟩, some ⟨1, .type, []⟩⟩

theorem small_deposit_withdraw_grows :
    withdrawCalculator.dataLoader.getHeader 10 = some (rateHeader 10 100 (10 ^ 16)) ∧
      withdrawCalculator.dataLoader.getHeader 30 = some (rateHeader 30 300 (10 ^ 16)) ∧
      (rateHeader 10 100 (10 ^ 16)).number < (rateHeader 30 300 (10 ^ 16)).number ∧
      0 < (extractDaoData (rateHeader 10 100 (10 ^ 16)).dao).1 ∧
      withdrawCalculator.dataLoader.getHeader 20 = some (rateHeader 20 200 (2 * 10 ^ 16)) ∧
      (rateHeader 10 100 (10 ^ 16)).number < (rateHeader 20 200 (2 * 10 ^ 16)).number ∧
      (extractDaoData (rateHeader 30 300 (10 ^ 16)).dao).1 ≤ (extractDaoData (rateHeader 20 200 (2 * 10 ^ 16)).dao).1 ∧
      (withdrawCalculator.calculateMaximumWithdraw smallDeposit (8 * byteShannons) 10 30).run =
        some (.ok (182 * byteShannons)) ∧
      (withdrawCalculator.calculateMaximumWithdraw smallDeposit (8 * byteShannons) 10 20).run =
        some (.ok (282 * byteShannons)) ∧
      (∀ occupied, smallDeposit.occupiedCapacity (8 * byteShannons) = .ok occupied →
        (smallDeposit.capacity - occupied) * (extractDaoData (rateHeader 20 200 (2 * 10 ^ 16)).dao).1 /
          (extractDaoData (rateHeader 10 100 (10 ^ 16)).dao).1 < 2 ^ 64) ∧
      182 * byteShannons ≤ 282 * byteShannons := by
  have occupied : smallDeposit.occupiedCapacity (8 * byteShannons) = .ok (82 * byteShannons) := by decide
  have fits : ∀ occupied, smallDeposit.occupiedCapacity (8 * byteShannons) = .ok occupied →
      (smallDeposit.capacity - occupied) * (extractDaoData (rateHeader 20 200 (2 * 10 ^ 16)).dao).1 /
        (extractDaoData (rateHeader 10 100 (10 ^ 16)).dao).1 < 2 ^ 64 := by
    intro other found
    rw [occupied] at found
    cases found
    decide
  have ok : (withdrawCalculator.calculateMaximumWithdraw smallDeposit (8 * byteShannons) 10 30).run =
      some (.ok (182 * byteShannons)) := by decide
  have ok' : (withdrawCalculator.calculateMaximumWithdraw smallDeposit (8 * byteShannons) 10 20).run =
      some (.ok (282 * byteShannons)) := by decide
  exact ⟨rfl, rfl, by decide, by decide, rfl, by decide, by decide, ok, ok', fits,
    DaoCalculator.calculateMaximumWithdraw_mono rfl rfl (by decide) (by decide) rfl (by decide) (by decide) ok ok'
      fits⟩

end Samples

end Ckb
