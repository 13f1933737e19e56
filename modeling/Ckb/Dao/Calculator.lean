import Ckb.Dao.Data
import Ckb.Types.OccupiedCapacity
import Ckb.Types.WitnessArgs
import Ckb.Types.Extras
import Ckb.Support.ExceptOption

/-!
`DaoCalculator` (`ckb-dao`): the DAO field of a new block, and the most a deposited cell may
withdraw. The field's rate `ar` grows by the secondary issuance's share of the total issuance `c`;
`c` grows by the block's primary and secondary issuance; the occupied capacity `u` gains what the
block's outputs occupy and loses what its inputs freed; and `s` gains the secondary issuance that
is not the miners' share of it and loses the interests the block withdraws. A withdrawing input's
maximum is its occupied capacity plus its counted capacity grown by the ratio of the two headers'
rates.

The arithmetic runs in `u64`, through checked `Capacity` sums, and in `u128` for the products.
A `u128` division by zero panics, as a zero epoch length in `secondary_block_issuance` does: those
are `none`. A narrowing by `u64::try_from` fails with `Overflow`; the one by `as u64` in
`calculate_maximum_withdraw` keeps the low 64 bits.
-/

namespace Ckb

open Capacity

variable {H : Type}

/-- A header as the calculator reads it: the header and its DAO field. -/
structure HeaderView (H : Type) extends Header H where
  dao : Byte32
deriving DecidableEq

/-- The fields of `Consensus` the calculator reads. -/
structure DaoConsensus (H : Type) where
  secondaryEpochReward : Nat
  daoTypeHash : H
  satoshiPubkeyHash : List UInt8
  satoshiCellOccupiedRatio : Ratio

/-- The data loader: `HeaderProvider::get_header` and `CellDataProvider::load_cell_data`. -/
structure DaoDataLoader (H : Type) where
  getHeader : H → Option (HeaderView H)
  loadCellData : CellMeta H → Option (List UInt8)

structure DaoCalculator (H : Type) where
  consensus : DaoConsensus H
  dataLoader : DaoDataLoader H

/-- A capacity error, as the calculator reports it. -/
def liftCapacity {α : Type} (x : Except CapacityError α) : ExceptT DaoError Option α :=
  liftExcept (x.mapError DaoError.ofCapacityError)

@[simp] theorem run_liftCapacity {α : Type} (x : Except CapacityError α) :
    (liftCapacity x).run = some (x.mapError DaoError.ofCapacityError) :=
  ExceptT.run_liftExcept _

def CellMeta.occupiedCapacity (cellMeta : CellMeta H) : Except CapacityError Nat := do
  let dataCapacity ← Capacity.bytes cellMeta.dataBytes
  cellMeta.cellOutput.occupiedCapacity dataCapacity

def TransactionInfo.isGenesis (info : TransactionInfo H) : Bool := info.blockNumber == 0

def TransactionInfo.isCellbase (info : TransactionInfo H) : Bool := info.index == 0

/-- `modified_occupied_capacity`: the satoshi gift cell of the genesis cellbase occupies a share of
its capacity, any other cell its occupied capacity. -/
def modifiedOccupiedCapacity (cellMeta : CellMeta H) (consensus : DaoConsensus H) : Except CapacityError Nat :=
  match cellMeta.transactionInfo with
  | some txInfo =>
    if txInfo.isGenesis && txInfo.isCellbase && cellMeta.cellOutput.lock.args == consensus.satoshiPubkeyHash then
      safeMulRatio cellMeta.cellOutput.capacity consensus.satoshiCellOccupiedRatio
    else cellMeta.occupiedCapacity
  | none => cellMeta.occupiedCapacity

def TransactionView.outputsWithData (tx : TransactionView H) : List (CellOutput H × List UInt8) :=
  tx.outputs.zip tx.outputsData

namespace DaoCalculator

variable (calculator : DaoCalculator H)

def calculateMaximumWithdraw (output : CellOutput H) (outputDataCapacity : Nat) (depositHeaderHash withdrawingHeaderHash : H) :
    ExceptT DaoError Option Nat := do
  let depositHeader ← liftExcept (ExceptT.okOr (calculator.dataLoader.getHeader depositHeaderHash) DaoError.invalidHeader)
  let withdrawingHeader ← liftExcept (ExceptT.okOr (calculator.dataLoader.getHeader withdrawingHeaderHash) DaoError.invalidHeader)
  if depositHeader.number ≥ withdrawingHeader.number then throw .invalidOutPoint
  let (depositAr, _, _, _) := extractDaoData depositHeader.dao
  let (withdrawingAr, _, _, _) := extractDaoData withdrawingHeader.dao
  let occupiedCapacity ← liftCapacity (output.occupiedCapacity outputDataCapacity)
  let outputCapacity := output.capacity
  let countedCapacity ← liftCapacity (safeSub outputCapacity occupiedCapacity)
  if depositAr = 0 then ExceptT.lift none
  let withdrawCountedCapacity := countedCapacity * withdrawingAr / depositAr
  liftCapacity (safeAdd (withdrawCountedCapacity % 2 ^ 64) occupiedCapacity)

variable [DecidableEq H]

/-- The DAO type script: hash type `Type` and the DAO's type hash. -/
def isDaoTypeScript (typeScript : Script H) : Bool :=
  typeScript.hashType == .type && typeScript.codeHash == calculator.consensus.daoTypeHash

/-- A withdrawing DAO cell's data is the deposit's block number, eight bytes, not zero. -/
def isWithdrawingInput (cellMeta : CellMeta H) : Bool :=
  match calculator.dataLoader.loadCellData cellMeta with
  | some data => data.length == 8 && decide (LittleEndian.read data > 0)
  | none => false

/-- The deposit's header: the header dep whose index the `input_type` of the input's witness holds. -/
def depositHeaderHash (rtx : ResolvedTransaction H) (i : Nat) : Except DaoError H := do
  let witnessData ← ExceptT.okOr rtx.transaction.witnesses[i]? .invalidOutPoint
  let witness ← ExceptT.okOr (Molecule.WitnessArgs.fromSlice witnessData) .invalidDaoFormat
  let headerDepsIndexData := witness.inputType
  match headerDepsIndexData with
  | some data =>
    if data.length ≠ 8 then .error .invalidDaoFormat
    else
      let headerDepIndex := LittleEndian.read data
      ExceptT.okOr (rtx.transaction.headerDeps[headerDepIndex]?.bind fun hash =>
        if hash ∈ rtx.transaction.headerDeps then some hash else none) .invalidOutPoint
  | none => .error .invalidDaoFormat

/-- The capacity an input may take out: the maximum withdraw of a withdrawing DAO cell, the cell's
capacity otherwise. -/
def inputMaximumWithdraw (rtx : ResolvedTransaction H) (cellMeta : CellMeta H) (i : Nat) :
    ExceptT DaoError Option Nat :=
  let output := cellMeta.cellOutput
  if (output.type.map calculator.isDaoTypeScript).getD false && calculator.isWithdrawingInput cellMeta then do
    let withdrawingHeaderHash ← liftExcept (ExceptT.okOr ((cellMeta.transactionInfo.map (·.blockHash)).filter
      fun hash => hash ∈ rtx.transaction.headerDeps) DaoError.invalidOutPoint)
    let depositHeaderHash ← liftExcept (depositHeaderHash rtx i)
    let outputDataCapacity ← liftCapacity (Capacity.bytes cellMeta.dataBytes)
    calculator.calculateMaximumWithdraw output outputDataCapacity depositHeaderHash withdrawingHeaderHash
  else pure output.capacity

def transactionMaximumWithdraw (rtx : ResolvedTransaction H) : ExceptT DaoError Option Nat :=
  rtx.resolvedInputs.zipIdx.foldlM (fun capacities (cellMeta, i) => do
    let capacity ← calculator.inputMaximumWithdraw rtx cellMeta i
    liftCapacity (safeAdd capacity capacities)) 0

def inputOccupiedCapacities (rtx : ResolvedTransaction H) : Except CapacityError Nat :=
  rtx.resolvedInputs.foldlM (fun capacities cellMeta => do
    let c ← modifiedOccupiedCapacity cellMeta calculator.consensus
    safeAdd capacities c) 0

/-- The occupied capacity of a transaction's outputs, the inner fold of `added_occupied_capacities`. -/
def outputsOccupiedCapacities (rtx : ResolvedTransaction H) : Except CapacityError Nat :=
  rtx.transaction.outputsWithData.foldlM (fun txCapacities (output, data) => do
    let c ← Capacity.bytes data.length
    let c ← output.occupiedCapacity c
    safeAdd txCapacities c) 0

def addedOccupiedCapacities (rtxs : List (ResolvedTransaction H)) : Except CapacityError Nat :=
  rtxs.foldlM (fun capacities rtx => do
    let c ← outputsOccupiedCapacities rtx
    safeAdd capacities c) 0

/-- The capacity of a transaction's inputs, the inner fold of `withdrawed_interests`. -/
def inputCapacities (rtx : ResolvedTransaction H) : Except CapacityError Nat :=
  rtx.resolvedInputs.foldlM (fun txCapacities cellMeta => safeAdd txCapacities cellMeta.cellOutput.capacity) 0

/-- `withdrawed_interests`: what the inputs may take out over what they hold. -/
def withdrawedInterests (rtxs : List (ResolvedTransaction H)) : ExceptT DaoError Option Nat := do
  let maximumWithdraws ← rtxs.foldlM (fun capacities rtx => do
    let c ← calculator.transactionMaximumWithdraw rtx
    liftCapacity (safeAdd capacities c)) 0
  let inputCapacities ← liftCapacity (rtxs.foldlM (fun capacities rtx => do
    let txInputCapacities ← inputCapacities rtx
    safeAdd capacities txInputCapacities) 0)
  liftCapacity (safeSub maximumWithdraws inputCapacities)

/-- The freed occupied capacities, the first fold of `dao_field_with_current_epoch`. -/
def freedOccupiedCapacities (rtxs : List (ResolvedTransaction H)) : Except CapacityError Nat :=
  rtxs.foldlM (fun capacities rtx => do
    let c ← calculator.inputOccupiedCapacities rtx
    safeAdd capacities c) 0

/-- `u64::try_from` of a `u128`. -/
def tryFromU128 (value : Nat) : Except DaoError Nat := if value < 2 ^ 64 then .ok value else .error .overflow

theorem tryFromU128_eq_ok {value a : Nat} : tryFromU128 value = .ok a ↔ a = value ∧ value < 2 ^ 64 := by
  unfold tryFromU128
  split_ifs with fits
  · constructor
    · intro ok
      exact ⟨(Except.ok.inj ok).symm, fits⟩
    · rintro ⟨rfl, -⟩
      rfl
  · constructor
    · intro wrong
      cases wrong
    · rintro ⟨-, small⟩
      exact absurd small fits

def daoFieldWithCurrentEpoch (rtxs : List (ResolvedTransaction H)) (parent : HeaderView H)
    (currentBlockEpoch : Extras.EpochExt H) : ExceptT DaoError Option Byte32 := do
  let freedOccupiedCapacities ← liftCapacity (calculator.freedOccupiedCapacities rtxs)
  let addedOccupiedCapacities ← liftCapacity (addedOccupiedCapacities rtxs)
  let withdrawedInterests ← calculator.withdrawedInterests rtxs
  let (parentAr, parentC, parentS, parentU) := extractDaoData parent.dao
  let currentBlockNumber := parent.number + 1
  let currentG2 ← (currentBlockEpoch.secondaryBlockIssuance currentBlockNumber
    calculator.consensus.secondaryEpochReward).adapt DaoError.ofCapacityError
  let currentG ← liftCapacity (do
    let c ← currentBlockEpoch.blockReward currentBlockNumber
    safeAdd c currentG2)
  if parentC = 0 then ExceptT.lift none else
  let minerIssuance128 := currentG2 * parentU / parentC
  let minerIssuance ← liftExcept (tryFromU128 minerIssuance128)
  let nervosdaoIssuance ← liftCapacity (safeSub currentG2 minerIssuance)
  let currentC ← liftCapacity (safeAdd parentC currentG)
  let currentU ← liftCapacity (do
    let u ← safeAdd parentU addedOccupiedCapacities
    safeSub u freedOccupiedCapacities)
  let currentS ← liftCapacity (do
    let s ← safeAdd parentS nervosdaoIssuance
    safeSub s withdrawedInterests)
  let arIncrease128 := parentAr * currentG2 / parentC
  let arIncrease ← liftExcept (tryFromU128 arIncrease128)
  let currentAr ← liftExcept (ExceptT.okOr (if parentAr + arIncrease < 2 ^ 64 then some (parentAr + arIncrease)
    else none) DaoError.overflow)
  pure (packDaoData currentAr currentC currentS currentU)

end DaoCalculator

end Ckb
