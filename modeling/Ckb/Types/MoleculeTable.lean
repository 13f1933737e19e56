import Ckb.Types.WitnessArgs
import Ckb.Support.LittleEndian

/-!
The molecule table layout in both directions. A table builder writes the total size, the offset of
each field and the fields; a table reader in strict mode accepts a slice whose header has the size,
as many offsets as the table has fields, the first right after the header and the others in order.
The strict reader accepts exactly what the builder writes: `tableFields_eq_some_iff` says that the
fields a slice is read into build that slice again, and that every list of fields whose table fits
a `u32` size is read back from its bytes.

The generic reader `tableFields` is the verification the generated readers share up to the checks
of their own fields: `WitnessArgs.from_slice` is an instance of it, and so are the readers of
`Script` and `CellbaseWitness` the cellbase verification parses.
-/

namespace Ckb.Molecule

/-- `molecule::pack_number`: the four little-endian bytes of a `u32`. -/
def packNumber (n : Nat) : List UInt8 := LittleEndian.write numberSize n

/-- `BytesBuilder::build`: the item count and the bytes. -/
def packBytes (bytes : List UInt8) : List UInt8 := packNumber bytes.length ++ bytes

/-- `BytesOptBuilder::build`: nothing for `None`. -/
def packBytesOpt : Option (List UInt8) → List UInt8
  | none => []
  | some bytes => packBytes bytes

/-- The offsets a table builder pushes, the first at `start`. -/
def fieldOffsets (start : Nat) : List (List UInt8) → List Nat
  | [] => []
  | field :: fields => start :: fieldOffsets (start + field.length) fields

/-- A table builder's `write`: the total size, the offsets, then the fields. -/
def packTable (fields : List (List UInt8)) : List UInt8 :=
  let headerSize := numberSize * (fields.length + 1)
  packNumber (headerSize + (fields.map List.length).sum) ++
    (fieldOffsets headerSize fields).flatMap packNumber ++ fields.flatten

/-- A table reader's `verify` in strict mode up to the checks of its fields, and the fields it reads
then: `none` is any of its verification errors. -/
def tableFields (fieldCount : Nat) (slice : List UInt8) : Option (List (List UInt8)) :=
  let sliceLen := slice.length
  if sliceLen < numberSize then none
  else
    let totalSize := unpackNumber slice
    if sliceLen ≠ totalSize then none
    else if sliceLen < numberSize * 2 then none
    else
      let offsetFirst := numberAt slice numberSize
      if offsetFirst % numberSize ≠ 0 ∨ offsetFirst < numberSize * 2 then none
      else if sliceLen < offsetFirst then none
      else
        let fieldCount' := offsetFirst / numberSize - 1
        if fieldCount' < fieldCount then none
        else if fieldCount' > fieldCount then none
        else
          let offsets := (List.range fieldCount').map (fun i => numberAt slice (numberSize * (i + 1))) ++ [totalSize]
          if (offsets.zip offsets.tail).any fun pair => pair.1 > pair.2 then none
          else some ((List.range fieldCount).map (WitnessArgs.field slice offsets))

/-! Numbers -/

theorem unpackNumber_eq_read (slice : List UInt8) :
    unpackNumber slice = LittleEndian.read (slice.take numberSize) := by
  unfold unpackNumber
  generalize slice.take numberSize = bytes
  induction bytes with
  | nil => rfl
  | cons byte bytes ih => rw [List.foldr_cons, ih, LittleEndian.read]

@[simp] theorem length_packNumber (n : Nat) : (packNumber n).length = numberSize :=
  LittleEndian.length_write _ _

theorem unpackNumber_lt (slice : List UInt8) : unpackNumber slice < 2 ^ 32 := by
  have bound := LittleEndian.read_lt (slice.take numberSize)
  have short : (slice.take numberSize).length ≤ 4 := by simp [numberSize]
  rw [unpackNumber_eq_read]
  calc LittleEndian.read (slice.take numberSize) < 256 ^ (slice.take numberSize).length := bound
    _ ≤ 256 ^ 4 := Nat.pow_le_pow_right (by decide) short
    _ = 2 ^ 32 := by norm_num

theorem unpackNumber_packNumber_append {n : Nat} (small : n < 2 ^ 32) (rest : List UInt8) :
    unpackNumber (packNumber n ++ rest) = n := by
  rw [unpackNumber_eq_read, List.take_left' (length_packNumber n)]
  exact LittleEndian.read_write_of_lt (by simpa [numberSize] using small)

theorem packNumber_unpackNumber {slice : List UInt8} (long : numberSize ≤ slice.length) :
    packNumber (unpackNumber slice) = slice.take numberSize := by
  rw [unpackNumber_eq_read, packNumber]
  exact LittleEndian.write_read_of_length (by simp [long])

theorem numberAt_packNumber_append_succ (n : Nat) (rest : List UInt8) (i : Nat) :
    numberAt (packNumber n ++ rest) (numberSize * (i + 1)) = numberAt rest (numberSize * i) := by
  rw [numberAt, numberAt, Nat.mul_succ, Nat.add_comm, ← List.drop_drop, List.drop_left' (length_packNumber n)]

theorem numberAt_succ (bytes : List UInt8) (i : Nat) :
    numberAt bytes (numberSize * (i + 1)) = numberAt (bytes.drop numberSize) (numberSize * i) := by
  rw [numberAt, numberAt, List.drop_drop, Nat.mul_succ, Nat.add_comm]

theorem numbers_flatMap_packNumber (numbers : List Nat) (small : ∀ n ∈ numbers, n < 2 ^ 32) (rest : List UInt8) :
    (List.range numbers.length).map (fun i => numberAt (numbers.flatMap packNumber ++ rest) (numberSize * i)) =
      numbers := by
  induction numbers with
  | nil => rfl
  | cons n numbers ih =>
    have first : n < 2 ^ 32 := small n (List.mem_cons_self ..)
    have others := ih fun m mem => small m (List.mem_cons_of_mem n mem)
    rw [List.length_cons, List.range_succ_eq_map, List.map_cons, List.map_map]
    simp only [Function.comp_def, List.flatMap_cons, List.append_assoc, numberAt_packNumber_append_succ]
    rw [others, numberAt, Nat.mul_zero, List.drop_zero, unpackNumber_packNumber_append first]

theorem flatMap_packNumber_numbers (bytes : List UInt8) {count : Nat} (long : numberSize * count ≤ bytes.length) :
    ((List.range count).map fun i => numberAt bytes (numberSize * i)).flatMap packNumber =
      bytes.take (numberSize * count) := by
  induction count generalizing bytes with
  | zero => rfl
  | succ count ih =>
    have rest := ih (bytes.drop numberSize) (by rw [List.length_drop]; rw [Nat.mul_succ] at long; omega)
    rw [List.range_succ_eq_map, List.map_cons, List.map_map]
    simp only [Function.comp_def, numberAt_succ, List.flatMap_cons]
    rw [rest, numberAt, Nat.mul_zero, List.drop_zero, packNumber_unpackNumber (by rw [Nat.mul_succ] at long; omega),
      Nat.mul_succ, Nat.add_comm, List.take_add]

/-! Offsets -/

@[simp] theorem length_fieldOffsets (start : Nat) (fields : List (List UInt8)) :
    (fieldOffsets start fields).length = fields.length := by
  induction fields generalizing start with
  | nil => rfl
  | cons field fields ih => simp [fieldOffsets, ih]

theorem getD_fieldOffsets (start : Nat) (fields : List (List UInt8)) {i : Nat} (within : i ≤ fields.length) :
    (fieldOffsets start fields ++ [start + (fields.map List.length).sum]).getD i 0 =
      start + ((fields.map List.length).take i).sum := by
  induction fields generalizing start i with
  | nil =>
    rw [List.length_nil, Nat.le_zero] at within
    subst within
    rfl
  | cons field fields ih =>
    cases i with
    | zero => rfl
    | succ i =>
      rw [List.length_cons, Nat.succ_le_succ_iff] at within
      simp only [fieldOffsets, List.cons_append, List.getD_cons_succ, List.map_cons, List.sum_cons,
        List.take_succ_cons]
      rw [← Nat.add_assoc, ih (start + field.length) within, Nat.add_assoc]

theorem isChain_fieldOffsets (start : Nat) (fields : List (List UInt8)) :
    (fieldOffsets start fields ++ [start + (fields.map List.length).sum]).IsChain (· ≤ ·) := by
  rw [List.isChain_iff_getElem]
  intro i within
  have count : (fieldOffsets start fields ++ [start + (fields.map List.length).sum]).length =
      fields.length + 1 := by simp
  rw [← List.getD_eq_getElem _ 0, ← List.getD_eq_getElem _ 0, getD_fieldOffsets _ _ (by omega),
    getD_fieldOffsets _ _ (by omega), List.take_add_one, List.sum_append]
  exact Nat.add_le_add_left (Nat.le_add_right _ _) start

theorem any_zip_tail_eq_false_iff (offsets : List Nat) :
    ((offsets.zip offsets.tail).any fun pair => pair.1 > pair.2) = false ↔ offsets.IsChain (· ≤ ·) := by
  induction offsets with
  | nil => simp
  | cons offset offsets ih =>
    cases offsets with
    | nil => simp
    | cons next offsets =>
      rw [List.isChain_cons_cons, ← ih]
      simp [List.zip_cons_cons]

theorem le_of_mem_fieldOffsets {start offset : Nat} {fields : List (List UInt8)}
    (mem : offset ∈ fieldOffsets start fields) : offset ≤ start + (fields.map List.length).sum := by
  induction fields generalizing start with
  | nil => simp [fieldOffsets] at mem
  | cons field fields ih =>
    rw [fieldOffsets, List.mem_cons] at mem
    rcases mem with first | later
    · rw [first]
      exact Nat.le_add_right _ _
    · have bound := ih later
      rw [List.map_cons, List.sum_cons]
      omega

theorem drop_take_append {α : Type} {header rest : List α} {size : Nat} (length : header.length = size) (a b : Nat) :
    ((header ++ rest).take (size + b)).drop (size + a) = (rest.take b).drop a := by
  subst length
  rw [List.take_length_add_append, List.drop_length_add_append]

/-! What a builder writes is read back -/

theorem length_packTable (fields : List (List UInt8)) :
    (packTable fields).length = numberSize * (fields.length + 1) + (fields.map List.length).sum := by
  simp [packTable, List.length_flatten, numberSize]
  omega

theorem unpackNumber_packTable {fields : List (List UInt8)} (small : (packTable fields).length < 2 ^ 32) :
    unpackNumber (packTable fields) = (packTable fields).length := by
  have size := length_packTable fields
  unfold packTable
  rw [List.append_assoc, unpackNumber_packNumber_append (by rw [← size]; exact small), ← size]
  rfl

theorem numberAt_packTable {fields : List (List UInt8)} (small : (packTable fields).length < 2 ^ 32) :
    (List.range fields.length).map (fun i => numberAt (packTable fields) (numberSize * (i + 1))) =
      fieldOffsets (numberSize * (fields.length + 1)) fields := by
  have offsetsSmall : ∀ offset ∈ fieldOffsets (numberSize * (fields.length + 1)) fields, offset < 2 ^ 32 := by
    intro offset mem
    have bound := le_of_mem_fieldOffsets mem
    rw [length_packTable] at small
    omega
  have numbers := numbers_flatMap_packNumber _ offsetsSmall fields.flatten
  rw [length_fieldOffsets] at numbers
  unfold packTable
  simp only [List.append_assoc, numberAt_packNumber_append_succ]
  exact numbers

theorem numberAt_packTable_first {fields : List (List UInt8)} (nonempty : fields ≠ [])
    (small : (packTable fields).length < 2 ^ 32) :
    numberAt (packTable fields) numberSize = numberSize * (fields.length + 1) := by
  have atZero := congrArg (fun offsets => offsets.getD 0 0) (numberAt_packTable small)
  obtain ⟨field, rest, cons⟩ := List.exists_cons_of_ne_nil nonempty
  simp only [cons, List.length_cons, List.range_succ_eq_map, List.map_cons, List.getD_cons_zero, fieldOffsets,
    Nat.zero_add, Nat.mul_one] at atZero
  rw [cons]
  exact atZero

theorem fields_packTable (fields : List (List UInt8)) :
    (List.range fields.length).map (WitnessArgs.field (packTable fields)
      (fieldOffsets (numberSize * (fields.length + 1)) fields ++ [(packTable fields).length])) = fields := by
  apply List.ext_getElem (by simp)
  intro i within _
  rw [List.length_map, List.length_range] at within
  have headerSize : (packNumber (numberSize * (fields.length + 1) + (fields.map List.length).sum) ++
      (fieldOffsets (numberSize * (fields.length + 1)) fields).flatMap packNumber).length =
      numberSize * (fields.length + 1) := by
    simp [numberSize]
    omega
  rw [List.getElem_map, List.getElem_range, WitnessArgs.field, length_packTable,
    getD_fieldOffsets _ _ within, getD_fieldOffsets _ _ (Nat.le_of_lt within)]
  unfold packTable
  rw [drop_take_append headerSize, List.drop_take_succ_flatten_eq_getElem]

theorem tableFields_packTable {fields : List (List UInt8)} (nonempty : fields ≠ [])
    (small : (packTable fields).length < 2 ^ 32) :
    tableFields fields.length (packTable fields) = some fields := by
  have size := length_packTable fields
  have count : 0 < fields.length := List.length_pos_of_ne_nil nonempty
  have ordered := (any_zip_tail_eq_false_iff _).mpr
    (isChain_fieldOffsets (numberSize * (fields.length + 1)) fields)
  rw [← size] at ordered
  have header : numberSize * (fields.length + 1) / numberSize - 1 = fields.length := by
    simp [numberSize]
  unfold tableFields
  simp only [unpackNumber_packTable small, numberAt_packTable_first nonempty small, header,
    numberAt_packTable small, ordered, fields_packTable]
  simp only [numberSize] at size ⊢
  split_ifs <;> first | rfl | omega

/-! What a reader accepts is what a builder writes -/

theorem getD_offsets_lt {offsetAt : Nat → Nat} {count totalSize i : Nat} (within : i < count) :
    ((List.range count).map offsetAt ++ [totalSize]).getD i 0 = offsetAt i := by
  rw [List.getD_eq_getElem _ _ (by simp; omega), List.getElem_append_left (by simpa using within),
    List.getElem_map, List.getElem_range]

theorem getD_offsets_count {offsetAt : Nat → Nat} {count totalSize : Nat} :
    ((List.range count).map offsetAt ++ [totalSize]).getD count 0 = totalSize := by
  rw [List.getD_eq_getElem _ _ (by simp), List.getElem_append_right (by simp)]
  simp

theorem getD_le_getD_of_isChain {offsets : List Nat} (ordered : offsets.IsChain (· ≤ ·)) {a b : Nat}
    (le : a ≤ b) (within : b < offsets.length) : offsets.getD a 0 ≤ offsets.getD b 0 := by
  rw [List.getD_eq_getElem _ _ (by omega), List.getD_eq_getElem _ _ within]
  rcases Nat.eq_or_lt_of_le le with same | earlier
  · subst same
    exact Nat.le_refl _
  · exact List.pairwise_iff_getElem.mp ordered.pairwise a b (by omega) within earlier

theorem drop_take_append_drop_take {α : Type} (l : List α) {a m k : Nat} (first : a ≤ m) (second : m ≤ k) :
    (l.take m).drop a ++ (l.take k).drop m = (l.take k).drop a := by
  have meet : l.drop m = (l.drop a).drop (m - a) := by
    rw [List.drop_drop, Nat.add_sub_cancel' first]
  rw [List.drop_take, List.drop_take, List.drop_take, meet, ← List.take_add]
  congr 1
  omega

section Fields

variable {slice : List UInt8} {offsets : List Nat} (ordered : offsets.IsChain (· ≤ ·))
  (bounded : ∀ i, offsets.getD i 0 ≤ slice.length)

include bounded in
theorem length_field (j : Nat) :
    (WitnessArgs.field slice offsets j).length = offsets.getD (j + 1) 0 - offsets.getD j 0 := by
  have inside := bounded (j + 1)
  simp only [WitnessArgs.field, List.length_drop, List.length_take]
  omega

include ordered in
theorem flatten_fields (j k : Nat) (within : j + k < offsets.length) :
    ((List.range' j k).map (WitnessArgs.field slice offsets)).flatten =
      (slice.take (offsets.getD (j + k) 0)).drop (offsets.getD j 0) := by
  induction k generalizing j with
  | zero => simp
  | succ k ih =>
    have first := getD_le_getD_of_isChain ordered (show j ≤ j + 1 by omega) (by omega)
    have second := getD_le_getD_of_isChain ordered (show j + 1 ≤ j + 1 + k by omega) (by omega)
    rw [List.range'_succ, List.map_cons, List.flatten_cons, ih (j + 1) (by omega), WitnessArgs.field,
      drop_take_append_drop_take slice first second, show j + 1 + k = j + (k + 1) by omega]

include ordered bounded in
theorem fieldOffsets_fields (j k : Nat) (within : j + k < offsets.length) :
    fieldOffsets (offsets.getD j 0) ((List.range' j k).map (WitnessArgs.field slice offsets)) =
      (List.range' j k).map (offsets.getD · 0) := by
  induction k generalizing j with
  | zero => rfl
  | succ k ih =>
    have step := getD_le_getD_of_isChain ordered (show j ≤ j + 1 by omega) (by omega)
    have next : offsets.getD j 0 + (WitnessArgs.field slice offsets j).length = offsets.getD (j + 1) 0 := by
      rw [length_field bounded]
      omega
    rw [List.range'_succ, List.map_cons, List.map_cons, fieldOffsets, next, ih (j + 1) (by omega)]

end Fields

theorem packTable_of_tableFields {count : Nat} {slice : List UInt8} {fields : List (List UInt8)}
    (read : tableFields count slice = some fields) :
    fields.length = count ∧ fields ≠ [] ∧ slice.length < 2 ^ 32 ∧ packTable fields = slice := by
  unfold tableFields at read
  dsimp only at read
  split_ifs at read with short sized shortHeader misaligned beyond fewer more unordered
  rw [Option.some_inj] at read
  subst read
  simp only [ne_eq, Decidable.not_not] at sized
  simp only [Bool.not_eq_true] at unordered
  -- the first offset ends a header of one size and one offset per field
  have headerSize : numberAt slice numberSize = numberSize * (count + 1) := by
    simp only [numberSize] at misaligned fewer more ⊢
    omega
  have countEq : numberAt slice numberSize / numberSize - 1 = count := by
    rw [headerSize]
    simp [numberSize]
  have counted : 0 < count := by
    simp only [numberSize] at misaligned more
    omega
  rw [countEq] at unordered ⊢
  have ordered := (any_zip_tail_eq_false_iff _).mp unordered
  set offsetAt := fun i => numberAt slice (numberSize * (i + 1))
  set offsets := (List.range count).map offsetAt ++ [unpackNumber slice]
  have length : offsets.length = count + 1 := by simp [offsets]
  have first : offsets.getD 0 0 = numberSize * (count + 1) := by
    rw [getD_offsets_lt counted, ← headerSize]
    simp only [offsetAt, Nat.zero_add, Nat.mul_one]
  have last : offsets.getD count 0 = slice.length := by rw [getD_offsets_count, sized]
  have bounded : ∀ i, offsets.getD i 0 ≤ slice.length := by
    intro i
    by_cases inside : i < offsets.length
    · rw [← last]
      exact getD_le_getD_of_isChain ordered (by omega) (by omega)
    · rw [List.getD_eq_default _ _ (by omega)]
      exact Nat.zero_le _
  -- the fields, their offsets and their total size as a builder sees them
  have flat : ((List.range count).map (WitnessArgs.field slice offsets)).flatten =
      slice.drop (numberSize * (count + 1)) := by
    rw [List.range_eq_range', flatten_fields ordered 0 count (by omega), Nat.zero_add, last, first,
      List.take_length]
  have written : fieldOffsets (numberSize * (count + 1)) ((List.range count).map (WitnessArgs.field slice offsets)) =
      (List.range count).map offsetAt := by
    rw [← first, List.range_eq_range', fieldOffsets_fields ordered bounded 0 count (by omega)]
    apply List.map_congr_left
    intro i mem
    rw [List.mem_range'_1] at mem
    exact getD_offsets_lt (by omega)
  have sizes : numberSize * (count + 1) +
      (((List.range count).map (WitnessArgs.field slice offsets)).map List.length).sum = slice.length := by
    have flatLength := congrArg List.length flat
    rw [List.length_flatten, List.length_drop] at flatLength
    simp only [numberSize] at beyond headerSize flatLength ⊢
    omega
  refine ⟨by simp, by simp; omega, by rw [sized]; exact unpackNumber_lt slice, ?_⟩
  unfold packTable
  simp only [List.length_map, List.length_range]
  have headerLong : numberSize * count ≤ (slice.drop numberSize).length := by
    rw [List.length_drop]
    simp only [numberSize] at beyond headerSize ⊢
    omega
  rw [sizes, written, flat, sized, packNumber_unpackNumber (by simp only [numberSize] at short ⊢; omega)]
  simp only [offsetAt, numberAt_succ]
  rw [flatMap_packNumber_numbers _ headerLong, ← List.take_add, Nat.mul_succ, Nat.add_comm, List.take_append_drop]

theorem tableFields_eq_some_iff {count : Nat} {slice : List UInt8} {fields : List (List UInt8)} :
    tableFields count slice = some fields ↔
      fields.length = count ∧ fields ≠ [] ∧ slice.length < 2 ^ 32 ∧ packTable fields = slice := by
  constructor
  · exact packTable_of_tableFields
  · rintro ⟨counted, nonempty, small, built⟩
    subst counted built
    exact tableFields_packTable nonempty small

/-! `Bytes` and `BytesOpt` -/

theorem length_packBytes (bytes : List UInt8) : (packBytes bytes).length = numberSize + bytes.length := by
  rw [packBytes, List.length_append, length_packNumber]

theorem drop_packBytes (bytes : List UInt8) : (packBytes bytes).drop numberSize = bytes :=
  List.drop_left' (length_packNumber _)

theorem bytesVerify_packBytes {bytes : List UInt8} (small : (packBytes bytes).length < 2 ^ 32) :
    bytesVerify (packBytes bytes) = true := by
  rw [length_packBytes] at small
  unfold bytesVerify
  rw [packBytes, unpackNumber_packNumber_append (by omega), ← packBytes, length_packBytes]
  by_cases empty : bytes.length = 0 <;> simp [empty]

theorem packBytes_of_bytesVerify {slice : List UInt8} (valid : bytesVerify slice = true) :
    packBytes (slice.drop numberSize) = slice := by
  unfold bytesVerify at valid
  dsimp only at valid
  split_ifs at valid with short empty <;> simp only [decide_eq_true_eq] at valid
  all_goals
    have count : (slice.drop numberSize).length = unpackNumber slice := by
      rw [List.length_drop]
      omega
    rw [packBytes, count, packNumber_unpackNumber (by omega), List.take_append_drop]

theorem bytesOptVerify_packBytesOpt {bytes : Option (List UInt8)} (small : (packBytesOpt bytes).length < 2 ^ 32) :
    bytesOptVerify (packBytesOpt bytes) = true := by
  cases bytes with
  | none => rfl
  | some bytes => simp [bytesOptVerify, packBytesOpt, bytesVerify_packBytes small]

theorem bytesOptToOpt_packBytesOpt (bytes : Option (List UInt8)) : bytesOptToOpt (packBytesOpt bytes) = bytes := by
  cases bytes with
  | none => rfl
  | some bytes =>
    have filled : (packBytes bytes).isEmpty = false := by
      rw [List.isEmpty_eq_false_iff_exists_mem, ← List.length_pos_iff_exists_mem, length_packBytes]
      simp [numberSize]
    rw [packBytesOpt, bytesOptToOpt, filled, if_neg Bool.false_ne_true, drop_packBytes]

theorem packBytesOpt_of_bytesOptVerify {slice : List UInt8} (valid : bytesOptVerify slice = true) :
    packBytesOpt (bytesOptToOpt slice) = slice := by
  unfold bytesOptToOpt
  by_cases empty : slice.isEmpty = true
  · rw [if_pos empty, packBytesOpt, (List.isEmpty_iff.mp empty)]
  · rw [bytesOptVerify, Bool.or_eq_true, or_iff_right empty] at valid
    rw [if_neg empty, packBytesOpt, packBytes_of_bytesVerify valid]

/-! `WitnessArgs` -/

namespace WitnessArgs

/-- The fields of a verified `WitnessArgs` table, each checked as a `BytesOpt`. -/
def ofFields : List (List UInt8) → Option WitnessArgs
  | [lock, inputType, outputType] =>
    if bytesOptVerify lock && bytesOptVerify inputType && bytesOptVerify outputType then
      some ⟨bytesOptToOpt lock, bytesOptToOpt inputType, bytesOptToOpt outputType⟩
    else none
  | _ => none

def pack (witnessArgs : WitnessArgs) : List UInt8 :=
  packTable [packBytesOpt witnessArgs.lock, packBytesOpt witnessArgs.inputType, packBytesOpt witnessArgs.outputType]

theorem fromSlice_eq_bind (slice : List UInt8) : fromSlice slice = (tableFields fieldCount slice).bind ofFields := by
  unfold fromSlice tableFields
  dsimp only
  split_ifs <;> first | rfl | omega | simp_all [ofFields, fieldCount, List.range_succ]

theorem ofFields_pack (witnessArgs : WitnessArgs) (small : witnessArgs.pack.length < 2 ^ 32) :
    ofFields [packBytesOpt witnessArgs.lock, packBytesOpt witnessArgs.inputType,
      packBytesOpt witnessArgs.outputType] = some witnessArgs := by
  simp only [pack, length_packTable, List.map_cons, List.map_nil, List.sum_cons, List.sum_nil] at small
  rw [ofFields, bytesOptVerify_packBytesOpt (by omega), bytesOptVerify_packBytesOpt (by omega),
    bytesOptVerify_packBytesOpt (by omega)]
  simp [bytesOptToOpt_packBytesOpt]

theorem pack_of_ofFields {fields : List (List UInt8)} {witnessArgs : WitnessArgs} (read : ofFields fields = some witnessArgs) :
    [packBytesOpt witnessArgs.lock, packBytesOpt witnessArgs.inputType, packBytesOpt witnessArgs.outputType] = fields := by
  unfold ofFields at read
  split at read
  · split_ifs at read with valid
    rw [Option.some_inj] at read
    subst read
    simp only [Bool.and_eq_true] at valid
    obtain ⟨⟨lockValid, inputValid⟩, outputValid⟩ := valid
    rw [packBytesOpt_of_bytesOptVerify lockValid, packBytesOpt_of_bytesOptVerify inputValid,
      packBytesOpt_of_bytesOptVerify outputValid]
  · contradiction

/-- A witness is read from a slice exactly when the slice is the witness as the builder writes it. -/
theorem witness_args_round_trip {slice : List UInt8} {witnessArgs : WitnessArgs} :
    fromSlice slice = some witnessArgs ↔ witnessArgs.pack = slice ∧ slice.length < 2 ^ 32 := by
  rw [fromSlice_eq_bind, Option.bind_eq_some_iff]
  constructor
  · rintro ⟨fields, tableRead, fieldsRead⟩
    obtain ⟨-, -, small, built⟩ := tableFields_eq_some_iff.mp tableRead
    rw [pack, pack_of_ofFields fieldsRead]
    exact ⟨built, small⟩
  · rintro ⟨built, small⟩
    subst built
    exact ⟨_, tableFields_packTable (List.cons_ne_nil _ _) small, ofFields_pack witnessArgs small⟩

example : fromSlice (pack ⟨some [7], none, some []⟩) = some ⟨some [7], none, some []⟩ := by decide

end WitnessArgs

/-! `Script` and `CellbaseWitness` -/

/-- A `Script` as its reader sees it: the bytes of the code hash, the hash type byte and the args. -/
structure ScriptFields where
  codeHash : List UInt8
  hashType : UInt8
  args : List UInt8
deriving DecidableEq, Repr

namespace ScriptFields

def fieldCount : Nat := 3

/-- The checks `ScriptReader::verify` makes of its fields: a `Byte32`, a `Byte` and a `Bytes`. -/
def ofFields : List (List UInt8) → Option ScriptFields
  | [codeHash, hashType, args] =>
    if codeHash.length = 32 && hashType.length = 1 && bytesVerify args then
      some ⟨codeHash, hashType.headD 0, args.drop numberSize⟩
    else none
  | _ => none

/-- `Script::from_slice` followed by its three getters. -/
def fromSlice (slice : List UInt8) : Option ScriptFields := (tableFields fieldCount slice).bind ofFields

def pack (script : ScriptFields) : List UInt8 := packTable [script.codeHash, [script.hashType], packBytes script.args]

theorem ofFields_pack {script : ScriptFields} (hash : script.codeHash.length = 32)
    (small : script.pack.length < 2 ^ 32) :
    ofFields [script.codeHash, [script.hashType], packBytes script.args] = some script := by
  simp only [pack, length_packTable, List.map_cons, List.map_nil, List.sum_cons, List.sum_nil] at small
  rw [ofFields, bytesVerify_packBytes (by omega)]
  simp [hash, drop_packBytes]

theorem pack_of_ofFields {fields : List (List UInt8)} {script : ScriptFields} (read : ofFields fields = some script) :
    [script.codeHash, [script.hashType], packBytes script.args] = fields ∧ script.codeHash.length = 32 := by
  unfold ofFields at read
  split at read
  · rename_i codeHash hashType args
    split_ifs at read with valid
    rw [Option.some_inj] at read
    subst read
    simp only [Bool.and_eq_true, decide_eq_true_eq] at valid
    obtain ⟨⟨hash, byte⟩, argsValid⟩ := valid
    obtain ⟨hashByte, single⟩ := List.length_eq_one_iff.mp byte
    subst single
    exact ⟨by rw [List.headD_cons, packBytes_of_bytesVerify argsValid], hash⟩
  · contradiction

theorem fromSlice_eq_some_iff {slice : List UInt8} {script : ScriptFields} :
    fromSlice slice = some script ↔ script.pack = slice ∧ script.codeHash.length = 32 ∧ slice.length < 2 ^ 32 := by
  rw [fromSlice, Option.bind_eq_some_iff]
  constructor
  · rintro ⟨fields, tableRead, fieldsRead⟩
    obtain ⟨-, -, small, built⟩ := tableFields_eq_some_iff.mp tableRead
    obtain ⟨written, hash⟩ := pack_of_ofFields fieldsRead
    rw [pack, written]
    exact ⟨built, hash, small⟩
  · rintro ⟨built, hash, small⟩
    subst built
    exact ⟨_, tableFields_packTable (List.cons_ne_nil _ _) small, ofFields_pack hash small⟩

end ScriptFields

/-- `CellbaseWitness`: the lock script of the block reward and the miner's message. -/
structure CellbaseWitness where
  lock : ScriptFields
  message : List UInt8
deriving DecidableEq, Repr

namespace CellbaseWitness

def fieldCount : Nat := 2

/-- The checks `CellbaseWitnessReader::verify` makes of its fields: a `Script` and a `Bytes`. -/
def ofFields : List (List UInt8) → Option CellbaseWitness
  | [lock, message] =>
    match ScriptFields.fromSlice lock with
    | some lock => if bytesVerify message then some ⟨lock, message.drop numberSize⟩ else none
    | none => none
  | _ => none

/-- `CellbaseWitness::from_slice` followed by its getters. -/
def fromSlice (slice : List UInt8) : Option CellbaseWitness := (tableFields fieldCount slice).bind ofFields

def pack (witness : CellbaseWitness) : List UInt8 := packTable [witness.lock.pack, packBytes witness.message]

theorem ofFields_pack {witness : CellbaseWitness} (hash : witness.lock.codeHash.length = 32)
    (small : witness.pack.length < 2 ^ 32) :
    ofFields [witness.lock.pack, packBytes witness.message] = some witness := by
  simp only [pack, length_packTable, List.map_cons, List.map_nil, List.sum_cons, List.sum_nil] at small
  have lockRead := ScriptFields.fromSlice_eq_some_iff.mpr ⟨rfl, hash, by omega⟩
  rw [ofFields, lockRead]
  simp [bytesVerify_packBytes (by omega : (packBytes witness.message).length < 2 ^ 32), drop_packBytes]

theorem pack_of_ofFields {fields : List (List UInt8)} {witness : CellbaseWitness} (read : ofFields fields = some witness) :
    [witness.lock.pack, packBytes witness.message] = fields ∧ witness.lock.codeHash.length = 32 := by
  unfold ofFields at read
  split at read
  · rename_i lockSlice message
    split at read
    · rename_i lock lockRead
      split_ifs at read with messageValid
      rw [Option.some_inj] at read
      subst read
      obtain ⟨built, hash, -⟩ := ScriptFields.fromSlice_eq_some_iff.mp lockRead
      exact ⟨by rw [built, packBytes_of_bytesVerify messageValid], hash⟩
    · contradiction
  · contradiction

/-- A cellbase witness is read from a slice exactly when the slice is the witness as the builder
writes it, with a code hash of 32 bytes. -/
theorem fromSlice_eq_some_iff {slice : List UInt8} {witness : CellbaseWitness} :
    fromSlice slice = some witness ↔
      witness.pack = slice ∧ witness.lock.codeHash.length = 32 ∧ slice.length < 2 ^ 32 := by
  rw [fromSlice, Option.bind_eq_some_iff]
  constructor
  · rintro ⟨fields, tableRead, fieldsRead⟩
    obtain ⟨-, -, small, built⟩ := tableFields_eq_some_iff.mp tableRead
    obtain ⟨written, hash⟩ := pack_of_ofFields fieldsRead
    rw [pack, written]
    exact ⟨built, hash, small⟩
  · rintro ⟨built, hash, small⟩
    subst built
    exact ⟨_, tableFields_packTable (List.cons_ne_nil _ _) small, ofFields_pack hash small⟩

end CellbaseWitness

end Ckb.Molecule
