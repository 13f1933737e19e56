import Ckb.Reward.Calculator

/-!
Occupied capacity (`ckb-occupied-capacity`, and the `occupied_capacity` methods of `ckb-gen-types`):
a cell occupies one CKByte, `10 ^ 8` shannons, for each byte it stores: the eight of its capacity
field, its lock script's 33 bytes of code hash and hash type plus its args, those of its type
script, and its data. The sums are checked; the result is the total, or an overflow exactly when
the total does not fit a `u64`.
-/

namespace Ckb

namespace Capacity

def byteShannons : Nat := 100000000

def bytes (val : Nat) : Except CapacityError Nat :=
  if val * byteShannons < 2 ^ 64 then .ok (val * byteShannons) else .error .overflow

theorem bytes_eq_ok {val c : Nat} : bytes val = .ok c ↔ c = val * byteShannons ∧ val * byteShannons < 2 ^ 64 := by
  unfold bytes
  split_ifs with fits
  · constructor
    · intro ok
      exact ⟨(Except.ok.inj ok).symm, fits⟩
    · rintro ⟨rfl, -⟩
      rfl
  · constructor
    · intro wrong
      cases wrong
    · rintro ⟨-, small⟩
      exact absurd small fits

end Capacity

open Capacity

variable {H : Type}

/-- `Script::occupied_capacity`: the code hash, the hash type and the args. -/
def Script.occupiedCapacity (script : Script H) : Except CapacityError Nat :=
  Capacity.bytes (script.args.length + 32 + 1)

/-- `CellOutput::occupied_capacity`, with the data's capacity given. -/
def CellOutput.occupiedCapacity (output : CellOutput H) (dataCapacity : Nat) : Except CapacityError Nat := do
  let x ← Capacity.bytes 8
  let x ← safeAdd x dataCapacity
  let x ← do
    let y ← output.lock.occupiedCapacity
    safeAdd y x
  let y ← match output.type with
    | none => pure none
    | some type => do
      let y ← type.occupiedCapacity
      pure (some y)
  safeAdd (y.getD 0) x

/-- The bytes a script's occupied capacity counts. -/
def Script.occupiedBytes (script : Script H) : Nat := script.args.length + 32 + 1

/-- The bytes an output's occupied capacity counts, its data apart. -/
def CellOutput.occupiedBytes (output : CellOutput H) : Nat :=
  8 + output.lock.occupiedBytes + (output.type.map Script.occupiedBytes).getD 0

namespace CellOutput

theorem occupiedCapacity_eq_ok (output : CellOutput H) (dataCapacity : Nat) {v : Nat} :
    output.occupiedCapacity dataCapacity = .ok v ↔
      v = output.occupiedBytes * byteShannons + dataCapacity ∧ output.occupiedBytes * byteShannons + dataCapacity < 2 ^ 64 := by
  obtain ⟨capacity, lock, type⟩ := output
  -- each checked sum is a partial sum of the total
  cases type with
  | none =>
    simp [occupiedCapacity, Except.bind_eq_ok, Script.occupiedCapacity, bytes_eq_ok, safeAdd_eq_ok, occupiedBytes,
      Script.occupiedBytes, pure, Except.pure, byteShannons]
    omega
  | some type =>
    simp [occupiedCapacity, Except.bind_eq_ok, Script.occupiedCapacity, bytes_eq_ok, safeAdd_eq_ok, occupiedBytes,
      Script.occupiedBytes, pure, Except.pure, byteShannons]
    omega

end CellOutput

end Ckb
