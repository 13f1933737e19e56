import Ckb.Types.Molecule

/-!
`WitnessArgs`, the molecule table of a witness: three optional byte strings, `lock`, `input_type`
and `output_type`. A table is its total size, one offset per field and the fields; `from_slice`
verifies in strict mode, so a table with a field more or less, offsets out of order or a field
that is not a `BytesOpt` is rejected. An empty field is `None`; a `Bytes` field is its item count
followed by its bytes.
-/

namespace Ckb.Molecule

/-- `molecule::unpack_number` of the slice from `offset`. -/
def numberAt (slice : List UInt8) (offset : Nat) : Nat := unpackNumber (slice.drop offset)

/-- `BytesReader::verify`: a `fixvec` of single bytes. -/
def bytesVerify (slice : List UInt8) : Bool :=
  if slice.length < numberSize then false
  else
    let itemCount := unpackNumber slice
    if itemCount = 0 then slice.length = numberSize
    else slice.length = numberSize + itemCount

/-- `BytesOptReader::verify`: empty, or a `Bytes`. -/
def bytesOptVerify (slice : List UInt8) : Bool := slice.isEmpty || bytesVerify slice

/-- `BytesOpt::to_opt` followed by `unpack`: the bytes after the item count. -/
def bytesOptToOpt (slice : List UInt8) : Option (List UInt8) :=
  if slice.isEmpty then none else some (slice.drop numberSize)

structure WitnessArgs where
  lock : Option (List UInt8)
  inputType : Option (List UInt8)
  outputType : Option (List UInt8)
deriving DecidableEq, Repr

namespace WitnessArgs

def fieldCount : Nat := 3

/-- The field between two offsets. -/
def field (slice : List UInt8) (offsets : List Nat) (i : Nat) : List UInt8 :=
  (slice.take (offsets.getD (i + 1) 0)).drop (offsets.getD i 0)

/-- `WitnessArgs::from_slice`: `WitnessArgsReader::verify` in strict mode, then the three fields.
`none` is any of its verification errors, which the callers modelled here all map to one error. -/
def fromSlice (slice : List UInt8) : Option WitnessArgs :=
  let sliceLen := slice.length
  if sliceLen < numberSize then none
  else
    let totalSize := unpackNumber slice
    if sliceLen ≠ totalSize then none
    else if sliceLen < numberSize * 2 then none
    else
      let offsetFirst := numberAt slice numberSize
      if offsetFirst % numberSize ≠ 0 ∨ offsetFirst < numberSize * 2 then none
      else if sliceLen < offsetFirst then none
      else
        let fieldCount' := offsetFirst / numberSize - 1
        -- fewer fields, or more in strict mode
        if fieldCount' ≠ fieldCount then none
        else
          let offsets := (List.range fieldCount').map (fun i => numberAt slice (numberSize * (i + 1))) ++ [totalSize]
          if (offsets.zip offsets.tail).any fun pair => pair.1 > pair.2 then none
          else if bytesOptVerify (field slice offsets 0) && bytesOptVerify (field slice offsets 1) &&
              bytesOptVerify (field slice offsets 2) then
            some ⟨bytesOptToOpt (field slice offsets 0), bytesOptToOpt (field slice offsets 1),
              bytesOptToOpt (field slice offsets 2)⟩
          else none

end WitnessArgs

end Ckb.Molecule
