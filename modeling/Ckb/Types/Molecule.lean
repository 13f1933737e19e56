import Ckb.Types.Core

/-!
The molecule encoding of an `OutPointVec`, as `parse_dep_group_data` reads a dep group's data. A
fixed vector is a little-endian `u32` item count followed by the items. An out point takes 36
bytes: the 32 bytes of the transaction hash, then the index as a little-endian `u32`. The hash
type `H` stands for `Byte32`, and `byte32` reads a hash from its 32 bytes.
-/

namespace Ckb.Molecule

def numberSize : Nat := 4

/-- `molecule::unpack_number`: the first four bytes as a little-endian `u32`. -/
def unpackNumber (slice : List UInt8) : Nat :=
  (slice.take numberSize).foldr (fun byte acc => byte.toNat + 256 * acc) 0

/-- The errors `OutPointVecReader::verify` reports, with the sizes it expected and found. -/
inductive VerificationError where
  | headerIsBroken (expected actual : Nat)
  | totalSizeNotMatch (expected actual : Nat)
deriving DecidableEq, Repr

namespace OutPointVecReader

def itemSize : Nat := 36

/-- `OutPointVecReader::verify`: the header is there and the length matches the item count. -/
def verify (slice : List UInt8) : Except VerificationError Unit :=
  if slice.length < numberSize then .error (.headerIsBroken numberSize slice.length)
  else
    let itemCount := unpackNumber slice
    if itemCount = 0 then
      if slice.length ≠ numberSize then .error (.totalSizeNotMatch numberSize slice.length)
      else .ok ()
    else
      let totalSize := numberSize + itemSize * itemCount
      if slice.length ≠ totalSize then .error (.totalSizeNotMatch totalSize slice.length)
      else .ok ()

end OutPointVecReader

/-! The sizes of molecule's layouts. A `fixvec` is its item count and the items; a `dynvec` is its
total size, one offset per item and the items; a `table` is laid out as a `dynvec` of its fields. -/

def fixVecSize (itemSize count : Nat) : Nat := numberSize + itemSize * count

def dynVecSize (items : List Nat) : Nat := numberSize * (items.length + 1) + items.sum

def tableSize (fields : List Nat) : Nat := dynVecSize fields

/-- `Bytes`, a `fixvec` of bytes. -/
def bytesSize (bytes : List UInt8) : Nat := fixVecSize 1 bytes.length

theorem dynVecSize_eq (items : List Nat) :
    dynVecSize items = numberSize + (items.map (· + numberSize)).sum := by
  induction items with
  | nil => simp [dynVecSize]
  | cons item items ih =>
    simp only [dynVecSize, List.length_cons, List.sum_cons, List.map_cons] at ih ⊢
    rw [Nat.mul_succ]
    omega

variable {H : Type} (byte32 : List UInt8 → H)

/-- `OutPoint::new_unchecked` on 36 bytes, read by `tx_hash()` and `index()`. -/
def outPointOfSlice (slice : List UInt8) : OutPoint H :=
  ⟨byte32 (slice.take 32), unpackNumber (slice.drop 32)⟩

/-- `OutPointVec::from_slice` followed by `into_iter`: item `i` starts at
`NUMBER_SIZE + ITEM_SIZE * i`. -/
def outPointVecFromSlice (slice : List UInt8) : Except VerificationError (List (OutPoint H)) := do
  OutPointVecReader.verify slice
  pure ((List.range (unpackNumber slice)).map fun i =>
    outPointOfSlice byte32 (slice.drop (numberSize + OutPointVecReader.itemSize * i)))

/-- Why `parse_dep_group_data` rejects a dep group's data. The source reports these as the
strings "data is empty", "dep group is empty" and molecule's own message. -/
inductive DepGroupDataError where
  | dataIsEmpty
  | depGroupIsEmpty
  | invalid (err : VerificationError)
deriving DecidableEq, Repr

def parseDepGroupData (slice : List UInt8) : Except DepGroupDataError (List (OutPoint H)) :=
  if slice.isEmpty then .error .dataIsEmpty
  else
    match outPointVecFromSlice byte32 slice with
    | .ok v => if v.isEmpty then .error .depGroupIsEmpty else .ok v
    | .error err => .error (.invalid err)

end Ckb.Molecule
