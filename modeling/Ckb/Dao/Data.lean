import Ckb.Support.LittleEndian
import Ckb.Reward.Calculator

/-!
The DAO field of a header (`ckb-dao-utils`): 32 bytes holding four little-endian `u64`s, `c` (the
total issuance), `ar` (the accumulated rate), `s` (the unissued secondary issuance) and `u` (the
occupied capacity), in that order, which is not the order `(ar, c, s, u)` of the tuple
`extract_dao_data` returns. Unpacking a packed field gives the four numbers back, and every field
is the packing of what it unpacks to.
-/

namespace Ckb

/-- `Byte32`, as a header's DAO field: its 32 bytes. -/
@[ext]
structure Byte32 where
  rawData : List UInt8
  length_eq : rawData.length = 32
deriving DecidableEq

inductive DaoError where
  | invalidHeader
  | invalidOutPoint
  | invalidDaoFormat
  | overflow
  | zeroC
deriving DecidableEq, Repr

def DaoError.ofCapacityError : CapacityError → DaoError
  | .overflow => .overflow

/-- `LittleEndian::read_u64` of the eight bytes from `start`. -/
def readU64At (data : List UInt8) (start : Nat) : Nat := LittleEndian.read ((data.drop start).take 8)

/-- `extract_dao_data`: `(ar, c, s, u)`. -/
def extractDaoData (dao : Byte32) : Nat × Nat × Nat × Nat :=
  let data := dao.rawData
  let c := readU64At data 0
  let ar := readU64At data 8
  let s := readU64At data 16
  let u := readU64At data 24
  (ar, c, s, u)

def packDaoData (ar c s u : Nat) : Byte32 :=
  ⟨LittleEndian.write 8 c ++ LittleEndian.write 8 ar ++ LittleEndian.write 8 s ++ LittleEndian.write 8 u, by simp⟩

theorem extractDaoData_packDaoData (ar c s u : Nat) :
    extractDaoData (packDaoData ar c s u) = (ar % 2 ^ 64, c % 2 ^ 64, s % 2 ^ 64, u % 2 ^ 64) := by
  simp [extractDaoData, packDaoData, readU64At, List.drop_append, LittleEndian.read_write, List.take_of_length_le,
    List.drop_of_length_le]

theorem eq_four_words (data : List UInt8) (length : data.length = 32) :
    data = (data.drop 0).take 8 ++ (data.drop 8).take 8 ++ (data.drop 16).take 8 ++ (data.drop 24).take 8 := by
  have first := (List.take_append_drop 8 data).symm
  have second := (List.take_append_drop 8 (data.drop 8)).symm
  have third := (List.take_append_drop 8 (data.drop 16)).symm
  have last : data.drop 24 = (data.drop 24).take 8 :=
    (List.take_of_length_le (by rw [List.length_drop, length])).symm
  rw [List.drop_drop] at second third
  calc data = data.take 8 ++ ((data.drop 8).take 8 ++ ((data.drop 16).take 8 ++ (data.drop 24).take 8)) := by
        rw [← last, ← third, ← second, ← first]
    _ = _ := by simp only [List.drop_zero, List.append_assoc]

theorem packDaoData_extractDaoData (dao : Byte32) :
    packDaoData (extractDaoData dao).1 (extractDaoData dao).2.1 (extractDaoData dao).2.2.1 (extractDaoData dao).2.2.2 =
      dao := by
  obtain ⟨data, length⟩ := dao
  have word : ∀ start, start + 8 ≤ 32 → ((data.drop start).take 8).length = 8 := by
    intro start fits
    rw [List.length_take, List.length_drop, length]
    omega
  ext1
  simp only [packDaoData, extractDaoData, readU64At]
  rw [LittleEndian.write_read_of_length (word 0 (by omega)), LittleEndian.write_read_of_length (word 8 (by omega)),
    LittleEndian.write_read_of_length (word 16 (by omega)), LittleEndian.write_read_of_length (word 24 (by omega))]
  exact (eq_four_words data length).symm

end Ckb
