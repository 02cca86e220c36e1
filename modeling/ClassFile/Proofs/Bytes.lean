import ClassFile.Bytes.Input
import ClassFile.Bytes.Output
import ClassFile.Proofs.Result

/-!
# Bytes written and bytes read

An output is the list of its bytes, and every operation that appends says what it appends.  An input
holds bytes at an offset (`Input.HasAt`) if they stand there, and then the reads at that offset give
the numbers that the bytes were written for.  So a proof that what was written is read back needs
only the list of bytes between the two.
-/

namespace ClassFile

/-- The bytes of a number, most significant first. -/
def bigEndian64 (value : UInt64) : List UInt8 :=
  bigEndian32 (value / 4294967296).toUInt32 ++ bigEndian32 value.toUInt32

@[simp]
theorem length_bigEndian16 (value : UInt16) : (bigEndian16 value).length = 2 :=
  rfl

@[simp]
theorem length_bigEndian32 (value : UInt32) : (bigEndian32 value).length = 4 :=
  rfl

@[simp]
theorem length_bigEndian64 (value : UInt64) : (bigEndian64 value).length = 8 :=
  rfl

/-! ### Numbers and their bytes -/

theorem bigEndian16_of_bytes (high low : UInt8) :
    bigEndian16 (high.toUInt16 * 256 + low.toUInt16) = [high, low] := by
  have highBound := high.toNat_lt
  have lowBound := low.toNat_lt
  simp only [bigEndian16, List.cons.injEq, and_true, ← UInt8.toNat_inj]
  simp
  omega

theorem number_of_bigEndian16 (value : UInt16) :
    (value / 256).toUInt8.toUInt16 * 256 + value.toUInt8.toUInt16 = value := by
  have bound := value.toNat_lt
  simp only [← UInt16.toNat_inj]
  simp
  omega

theorem bigEndian16_injective {first second : UInt16}
    (equal : bigEndian16 first = bigEndian16 second) : first = second := by
  simp only [bigEndian16, List.cons.injEq, and_true] at equal
  rw [← number_of_bigEndian16 first, ← number_of_bigEndian16 second, equal.1, equal.2]

theorem bigEndian32_of_bytes (first second third fourth : UInt8) :
    bigEndian32 (first.toUInt32 * 16777216 + second.toUInt32 * 65536 + third.toUInt32 * 256 +
      fourth.toUInt32) = [first, second, third, fourth] := by
  have firstBound := first.toNat_lt
  have secondBound := second.toNat_lt
  have thirdBound := third.toNat_lt
  have fourthBound := fourth.toNat_lt
  simp only [bigEndian32, List.cons.injEq, and_true, ← UInt8.toNat_inj]
  simp
  omega

theorem number_of_bigEndian32 (value : UInt32) :
    (value / 16777216).toUInt8.toUInt32 * 16777216 + (value / 65536).toUInt8.toUInt32 * 65536 +
      (value / 256).toUInt8.toUInt32 * 256 + value.toUInt8.toUInt32 = value := by
  have bound := value.toNat_lt
  simp only [← UInt32.toNat_inj]
  simp
  omega

theorem number_of_halves (value : UInt64) :
    (value / 4294967296).toUInt32.toUInt64 * 4294967296 + value.toUInt32.toUInt64 = value := by
  have bound := value.toNat_lt
  simp only [← UInt64.toNat_inj]
  simp
  omega

theorem halves_of_number (high low : UInt32) :
    ((high.toUInt64 * 4294967296 + low.toUInt64) / 4294967296).toUInt32 = high ∧
      (high.toUInt64 * 4294967296 + low.toUInt64).toUInt32 = low := by
  have highBound := high.toNat_lt
  have lowBound := low.toNat_lt
  simp only [← UInt32.toNat_inj]
  simp
  omega

namespace Output

@[simp]
theorem toList_empty : empty.toList = [] :=
  rfl

theorem size_eq_length (output : Output) : output.size = output.toList.length :=
  rfl

@[simp]
theorem toList_u8 (output : Output) (value : UInt8) :
    (output.u8 value).toList = output.toList ++ [value] := by
  simp [u8, toList, ByteArray.data_push]

@[simp]
theorem toList_bytes (output : Output) (values : List UInt8) :
    (output.bytes values).toList = output.toList ++ values := by
  unfold bytes
  induction values generalizing output with
  | nil => simp
  | cons value rest ih => simp [ih]

theorem bytes_append (output : Output) (first second : List UInt8) :
    output.bytes (first ++ second) = (output.bytes first).bytes second := by
  simp [bytes]

theorem eq_of_toList {first second : Output} (same : first.toList = second.toList) :
    first = second := by
  rcases first with ⟨⟨first⟩⟩
  rcases second with ⟨⟨second⟩⟩
  simpa [toList] using same

@[simp]
theorem toList_append (output other : Output) :
    (output.append other).toList = output.toList ++ other.toList := by
  simp [append, toList]

@[simp]
theorem toList_u16 (output : Output) (value : UInt16) :
    (output.u16 value).toList = output.toList ++ bigEndian16 value := by
  simp [u16, bigEndian16]

@[simp]
theorem toList_u32 (output : Output) (value : UInt32) :
    (output.u32 value).toList = output.toList ++ bigEndian32 value := by
  simp [u32, bigEndian32]

@[simp]
theorem toList_u64 (output : Output) (value : UInt64) :
    (output.u64 value).toList = output.toList ++ bigEndian64 value := by
  simp [u64, bigEndian64]

end Output

namespace Input

/-- Whether `bytes` stand in the input from `offset` on. -/
def HasAt (input : Input) (offset : Nat) (bytes : List UInt8) : Prop :=
  bytes <+: input.toList.drop offset

section HasAt

variable {input : Input} {offset : Nat}

theorem size_eq_length (input : Input) : input.size = input.toList.length :=
  rfl

theorem hasAt_append {first second : List UInt8} :
    input.HasAt offset (first ++ second) ↔
      input.HasAt offset first ∧ input.HasAt (offset + first.length) second := by
  unfold HasAt
  constructor
  · rintro ⟨rest, held⟩
    refine ⟨⟨second ++ rest, by simpa using held⟩, ⟨rest, ?_⟩⟩
    rw [← List.drop_drop, ← held]
    simp
  · rintro ⟨⟨rest, held⟩, ⟨others, heldBehind⟩⟩
    refine ⟨others, ?_⟩
    rw [← List.drop_drop, ← held, List.drop_left] at heldBehind
    rw [List.append_assoc, heldBehind, held]

theorem hasAt_cons {byte next : UInt8} {bytes : List UInt8} :
    input.HasAt offset (byte :: next :: bytes) ↔
      input.HasAt offset [byte] ∧ input.HasAt (offset + 1) (next :: bytes) :=
  @hasAt_append input offset [byte] (next :: bytes)

theorem HasAt.left {first second : List UInt8} (held : input.HasAt offset (first ++ second)) :
    input.HasAt offset first :=
  (hasAt_append.mp held).1

theorem HasAt.right {first second : List UInt8} (held : input.HasAt offset (first ++ second)) :
    input.HasAt (offset + first.length) second :=
  (hasAt_append.mp held).2

theorem HasAt.part {bytes : List UInt8} (held : input.HasAt offset bytes) (start length : Nat) :
    input.HasAt (offset + start) ((bytes.drop start).take length) := by
  rcases held with ⟨rest, held⟩
  by_cases inside : start ≤ bytes.length
  · have dropped : input.toList.drop (offset + start) = bytes.drop start ++ rest := by
      rw [← List.drop_drop, ← held, List.drop_append_of_le_length inside]
    exact (List.take_prefix length _).trans ⟨rest, dropped.symm⟩
  · rw [List.drop_of_length_le (by omega), List.take_nil]
    exact List.nil_prefix

/-- Bytes that are not none end inside the input. -/
theorem HasAt.stop_le {bytes : List UInt8} (held : input.HasAt offset bytes)
    (nonempty : bytes ≠ []) : offset + bytes.length ≤ input.size := by
  have shorter := held.length_le
  rw [List.length_drop] at shorter
  have positive := List.length_pos_iff.mpr nonempty
  rw [size_eq_length]
  omega

theorem HasAt.take_drop {bytes : List UInt8} (held : input.HasAt offset bytes) :
    (input.toList.drop offset).take bytes.length = bytes :=
  (List.prefix_iff_eq_take.mp held).symm

theorem hasAt_singleton {byte : UInt8} :
    input.HasAt offset [byte] ↔ input.toList[offset]? = some byte := by
  unfold HasAt
  rw [List.prefix_iff_eq_take]
  cases found : input.toList.drop offset with
  | nil =>
      have outside := List.drop_eq_nil_iff.mp found
      simp [List.getElem?_eq_none outside]
  | cons first rest =>
      have here : input.toList[offset]? = some first := by
        rw [← Nat.add_zero offset, ← List.getElem?_drop, found]
        rfl
      simp [here, eq_comm]

theorem u8_eq_ok {byte : UInt8} :
    input.u8 offset = .ok byte ↔ input.HasAt offset [byte] := by
  rw [hasAt_singleton, List.getElem?_eq_some_iff]
  unfold u8
  constructor
  · intro read
    split at read
    · rename_i inside
      exact ⟨inside, Except.ok.inj read⟩
    · simp at read
  · rintro ⟨inside, rfl⟩
    have inArray : offset < input.data.size := inside
    rw [dif_pos inArray]
    rfl

/-- The bytes at places inside the input, one after the other. -/
theorem hasAt_getElem (inside : offset < input.data.size) :
    input.HasAt offset [input.data[offset]] :=
  u8_eq_ok.mp (by rw [u8, dif_pos inside])

theorem u16_eq_ok {value : UInt16} :
    input.u16 offset = .ok value ↔ input.HasAt offset (bigEndian16 value) := by
  constructor
  · intro read
    unfold u16 at read
    split at read
    · cases read
      rw [bigEndian16_of_bytes, hasAt_cons]
      exact ⟨hasAt_getElem (by omega), hasAt_getElem (by omega)⟩
    · cases read
  · intro held
    have inside := held.stop_le (by simp [bigEndian16])
    rw [length_bigEndian16, size] at inside
    rw [bigEndian16, hasAt_cons, ← u8_eq_ok, ← u8_eq_ok, u8, u8,
      dif_pos (show offset < input.data.size by omega),
      dif_pos (show offset + 1 < input.data.size by omega), Except.ok.injEq,
      Except.ok.injEq] at held
    rw [u16, dif_pos inside, held.1, held.2, number_of_bigEndian16]

theorem u32_eq_ok {value : UInt32} :
    input.u32 offset = .ok value ↔ input.HasAt offset (bigEndian32 value) := by
  constructor
  · intro read
    unfold u32 at read
    split at read
    · cases read
      rw [bigEndian32_of_bytes, hasAt_cons, hasAt_cons, hasAt_cons]
      exact ⟨hasAt_getElem (by omega), hasAt_getElem (by omega), hasAt_getElem (by omega),
        hasAt_getElem (by omega)⟩
    · cases read
  · intro held
    have inside := held.stop_le (by simp [bigEndian32])
    rw [length_bigEndian32, size] at inside
    rw [bigEndian32, hasAt_cons, hasAt_cons, hasAt_cons, ← u8_eq_ok, ← u8_eq_ok, ← u8_eq_ok,
      ← u8_eq_ok, u8, u8, u8, u8, dif_pos (show offset < input.data.size by omega),
      dif_pos (show offset + 1 < input.data.size by omega),
      dif_pos (show offset + 1 + 1 < input.data.size by omega),
      dif_pos (show offset + 1 + 1 + 1 < input.data.size by omega)] at held
    simp only [Except.ok.injEq] at held
    rw [u32, dif_pos inside, held.1, held.2.1, held.2.2.1, held.2.2.2, number_of_bigEndian32]

theorem u64_eq_ok {value : UInt64} :
    input.u64 offset = .ok value ↔ input.HasAt offset (bigEndian64 value) := by
  constructor
  · intro read
    unfold u64 at read
    split at read
    · simp only [bind_eq_ok, pure_eq_ok] at read
      rcases read with ⟨high, readHigh, low, readLow, rfl⟩
      rw [bigEndian64, (halves_of_number high low).1, (halves_of_number high low).2]
      exact hasAt_append.mpr ⟨u32_eq_ok.mp readHigh, u32_eq_ok.mp readLow⟩
    · cases read
  · intro held
    have inside := held.stop_le (by simp [bigEndian64, bigEndian32])
    rw [length_bigEndian64] at inside
    rw [bigEndian64, hasAt_append, ← u32_eq_ok, length_bigEndian32, ← u32_eq_ok] at held
    rw [u64, if_pos (show offset + 8 ≤ input.data.size from inside), held.1, held.2]
    simp only [ok_bind, pure_eq_ok, number_of_halves]

/-! ### Reads of what stands there -/

theorem HasAt.u8 {byte : UInt8} (held : input.HasAt offset [byte]) :
    input.u8 offset = .ok byte :=
  u8_eq_ok.mpr held

theorem HasAt.u16 {value : UInt16} (held : input.HasAt offset (bigEndian16 value)) :
    input.u16 offset = .ok value :=
  u16_eq_ok.mpr held

theorem HasAt.u32 {value : UInt32} (held : input.HasAt offset (bigEndian32 value)) :
    input.u32 offset = .ok value :=
  u32_eq_ok.mpr held

theorem HasAt.u64 {value : UInt64} (held : input.HasAt offset (bigEndian64 value)) :
    input.u64 offset = .ok value :=
  u64_eq_ok.mpr held

theorem HasAt.i8 {value : Int8} (held : input.HasAt offset [value.toUInt8]) :
    input.i8 offset = .ok value := by
  simp [Input.i8, held.u8, Except.map]

theorem HasAt.i16 {value : Int16} (held : input.HasAt offset (bigEndian16 value.toUInt16)) :
    input.i16 offset = .ok value := by
  simp [Input.i16, held.u16, Except.map]

theorem i32_eq_ok {value : Int32} :
    input.i32 offset = .ok value ↔ input.HasAt offset (bigEndian32 value.toUInt32) := by
  rw [i32, map_eq_ok]
  constructor
  · rintro ⟨bits, read, rfl⟩
    exact u32_eq_ok.mp read
  · intro held
    exact ⟨value.toUInt32, held.u32, rfl⟩

theorem i64_eq_ok {value : Int64} :
    input.i64 offset = .ok value ↔ input.HasAt offset (bigEndian64 value.toUInt64) := by
  rw [i64, map_eq_ok]
  constructor
  · rintro ⟨bits, read, rfl⟩
    exact u64_eq_ok.mp read
  · intro held
    exact ⟨value.toUInt64, held.u64, rfl⟩

theorem HasAt.i32 {value : Int32} (held : input.HasAt offset (bigEndian32 value.toUInt32)) :
    input.i32 offset = .ok value :=
  i32_eq_ok.mpr held

theorem toList_extract (input : Input) (start stop : Nat) :
    (Input.mk (input.data.extract start stop)).toList =
      (input.toList.drop start).take (stop - start) := by
  simp [toList, Array.toList_extract, List.extract]

theorem bytes_eq_ok {length : Nat} {values : List UInt8} :
    input.bytes offset length = .ok values ↔
      offset + length ≤ input.size ∧ values.length = length ∧ input.HasAt offset values := by
  rw [Input.bytes, map_eq_ok, slice]
  constructor
  · rintro ⟨part, sliced, rfl⟩
    split at sliced
    · rename_i stop
      cases sliced
      have rest : length ≤ (input.toList.drop offset).length := by
        rw [List.length_drop, ← size_eq_length]
        omega
      rw [toList_extract, Nat.add_sub_cancel_left]
      exact ⟨stop, List.length_take_of_le rest, List.take_prefix length _⟩
    · cases sliced
  · rintro ⟨stop, rfl, held⟩
    rw [if_pos stop]
    refine ⟨_, rfl, ?_⟩
    rw [toList_extract, Nat.add_sub_cancel_left, held.take_drop]

theorem HasAt.bytes {values : List UInt8} (held : input.HasAt offset values)
    (inside : offset ≤ input.size) : input.bytes offset values.length = .ok values := by
  refine bytes_eq_ok.mpr ⟨?_, rfl, held⟩
  by_cases nonempty : values = []
  · simpa [nonempty] using inside
  · exact held.stop_le nonempty

end HasAt

end Input

end ClassFile
