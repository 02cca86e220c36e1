import ClassFile.Draft.Frames
import ClassFile.Proofs.Code.Decoding
import ClassFile.Proofs.Image.Marks
import ClassFile.Proofs.Rewriting.Slots

/-!
# The bytes of stack map frames

`Frame.Spells` says what the bytes of a frame are that stands at some distance from the one before: a
short distance is part of the first byte, a long one has two bytes of its own.  What is spelled in a file
is read (`CodeLayout.IsBounded.frameEntry_of_spells`), with the places of labels instead of the labels.
-/

namespace ClassFile

namespace FrameValue

/-- Whether bytes are a frame value in code with the given places of labels. -/
inductive Spells (pool : Pool) (places : Label → Option Nat) : FrameValue → List UInt8 → Prop where
  | object {name : Text} {index : UInt16} (named : pool.classRef index = .ok name) :
      Spells pool places (.object name) ([7] ++ bigEndian16 index)
  | uninitialized {label : Label} {place : Nat} (known : places label = some place) :
      Spells pool places (.uninitialized label) ([8] ++ bigEndian16 place.toUInt16)
  | plain {value : FrameValue} (plain : value.code < 7) : Spells pool places value [value.code]

end FrameValue

namespace Frame

/-- Whether bytes are a frame at a distance from the one before. -/
inductive Spells (pool : Pool) (places : Label → Option Nat) (distance : UInt16) :
    Frame → List UInt8 → Prop where
  | same (near : distance < 64) : Spells pool places distance .same [distance.toUInt8]
  | sameFar : Spells pool places distance .same ([251] ++ bigEndian16 distance)
  | same1 {value : FrameValue} {bytes : List UInt8} (near : distance < 64)
      (spelled : value.Spells pool places bytes) :
      Spells pool places distance (.same1 value) ([64 + distance.toUInt8] ++ bytes)
  | same1Far {value : FrameValue} {bytes : List UInt8} (spelled : value.Spells pool places bytes) :
      Spells pool places distance (.same1 value) ([247] ++ bigEndian16 distance ++ bytes)
  | chop {count : UInt8} (some : 1 ≤ count) (few : count ≤ 3) :
      Spells pool places distance (.chop count) ([251 - count] ++ bigEndian16 distance)
  | append {locals : List FrameValue} {bytes : List UInt8} (some : 1 ≤ locals.length)
      (few : locals.length ≤ 3)
      (spelled : SpellsAll (FrameValue.Spells pool places) locals bytes) :
      Spells pool places distance (.append locals)
        ([251 + locals.length.toUInt8] ++ bigEndian16 distance ++ bytes)
  | full {locals stack : List FrameValue} {localBytes stackBytes : List UInt8}
      (fewLocals : locals.length ≤ 65535) (fewStack : stack.length ≤ 65535)
      (spelledLocals : SpellsAll (FrameValue.Spells pool places) locals localBytes)
      (spelledStack : SpellsAll (FrameValue.Spells pool places) stack stackBytes) :
      Spells pool places distance (.full locals stack)
        ([255] ++ bigEndian16 distance ++ (bigEndian16 locals.length.toUInt16 ++ localBytes) ++
          (bigEndian16 stack.length.toUInt16 ++ stackBytes))

end Frame

namespace CodeLayout

/-- Whether all labels are in the code, which may be that long. -/
structure IsBounded (layout : CodeLayout) : Prop where
  place_le : ∀ {label : Label} {place : Nat}, layout.offsets.place? label = some place →
    place ≤ layout.code.size
  size_le : layout.code.size ≤ maxCodeLength

end CodeLayout

theorem CodeBody.mark_of_le {body : CodeBody} {place : Nat} (inside : place ≤ body.code.length)
    (source : Nat) : ∃ later, body.mark place source = .ok later := by
  rw [CodeBody.mark, CodeArray.place, if_neg (Nat.not_lt.mpr inside)]
  exact ⟨_, rfl⟩

namespace CodeLayout.IsBounded

open ClassImage

variable {image : ClassImage} {layout : CodeLayout} {body : CodeBody} {offset : Nat} {bytes : List UInt8}

variable (bounded : layout.IsBounded)
include bounded

theorem toNat_place {label : Label} {place : Nat} (known : layout.offsets.place? label = some place) :
    place.toUInt16.toNat = place := by
  have placeBound := bounded.place_le known
  have sizeBound := bounded.size_le
  rw [CodeLayout.maxCodeLength] at sizeBound
  rw [Nat.toUInt16_eq, UInt16.toNat_ofNat']
  omega

theorem frameValue_of_spells (fits : body.code.length = layout.code.size) {value : FrameValue}
    (spelled : value.Spells image.pool layout.offsets.place? bytes)
    (held : image.input.HasAt offset bytes) :
    ∃ later, image.frameValue offset body =
      .ok (value.relabel layout.placeOf, offset + bytes.length, later) := by
  cases spelled with
  | @object name index named =>
      have read : image.input.u16 (offset + 1) = .ok index := held.right.u16
      refine ⟨body, ?_⟩
      rw [frameValue, held.left.u8]
      simp only [ok_bind, classAt, read, named]
      rfl
  | @uninitialized label place known =>
      have read : image.input.u16 (offset + 1) = .ok place.toUInt16 := held.right.u16
      rcases body.mark_of_le (fits ▸ bounded.place_le known) offset with ⟨later, marked⟩
      refine ⟨later, ?_⟩
      rw [frameValue, held.left.u8]
      simp only [ok_bind, read, bounded.toNat_place known, marked]
      rw [FrameValue.relabel, CodeLayout.placeOf_eq known]
      rfl
  | plain plain =>
      rw [frameValue, held.u8]
      cases value with
      | object | uninitialized => simp [FrameValue.code] at plain
      | _ => exact ⟨body, rfl⟩

theorem frameValues_of_spells (fits : body.code.length = layout.code.size) {values : List FrameValue}
    (spelled : SpellsAll (FrameValue.Spells image.pool layout.offsets.place?) values bytes)
    (held : image.input.HasAt offset bytes) (found : List FrameValue) :
    ∃ later, image.frameValues offset found body values.length =
      .ok (found.reverse ++ values.map (FrameValue.relabel layout.placeOf), offset + bytes.length,
        later) := by
  induction values generalizing offset bytes body found with
  | nil =>
      rcases spelled with ⟨chunks, ⟨⟩, rfl⟩
      exact ⟨body, by simp [frameValues]⟩
  | cons value rest ih =>
      rcases spellsAll_cons.mp spelled with ⟨first, others, spelledFirst, spelledRest, rfl⟩
      rcases bounded.frameValue_of_spells fits spelledFirst held.left with ⟨next, read⟩
      have fitsNext : next.code.length = layout.code.size := by
        rw [(marks_of_frameValue read).1.code, fits]
      rcases ih fitsNext spelledRest held.right (value.relabel layout.placeOf :: found) with
        ⟨later, readRest⟩
      refine ⟨later, ?_⟩
      rw [List.length_cons, frameValues, read, ok_bind]
      simp only [readRest]
      simp [Nat.add_assoc]

theorem countedFrameValues_of_spells (fits : body.code.length = layout.code.size)
    {values : List FrameValue} (few : values.length ≤ 65535)
    (spelled : SpellsAll (FrameValue.Spells image.pool layout.offsets.place?) values bytes)
    (held : image.input.HasAt offset (bigEndian16 values.length.toUInt16 ++ bytes)) :
    ∃ later, image.countedFrameValues offset body =
      .ok (values.map (FrameValue.relabel layout.placeOf), offset + (2 + bytes.length), later) := by
  have counted : values.length.toUInt16.toNat = values.length := by
    rw [Nat.toUInt16_eq, UInt16.toNat_ofNat']
    omega
  rcases bounded.frameValues_of_spells fits spelled held.right [] with ⟨later, read⟩
  refine ⟨later, ?_⟩
  rw [countedFrameValues, held.left.u16, ok_bind, counted]
  rw [length_bigEndian16] at read
  rw [read, List.reverse_nil, List.nil_append, Nat.add_assoc]

/-- A frame is read as it is spelled, with the places of its labels. -/
theorem frameEntry_of_spells (fits : body.code.length = layout.code.size) {distance : UInt16}
    {frame : Frame} (spelled : frame.Spells image.pool layout.offsets.place? distance bytes)
    (held : image.input.HasAt offset bytes) :
    ∃ later, image.frameEntry offset body =
      .ok ⟨distance.toNat, frame.mapValues (FrameValue.relabel layout.placeOf),
        offset + bytes.length, later⟩ := by
  cases spelled with
  | same near =>
      have small : distance.toNat < 64 := UInt16.lt_iff_toNat_lt.mp near
      have number : distance.toUInt8.toNat = distance.toNat := by
        rw [UInt16.toNat_toUInt8]
        omega
      have short : distance.toUInt8 ≤ 63 :=
        UInt8.le_iff_toNat_le.mpr (show distance.toUInt8.toNat ≤ 63 by omega)
      refine ⟨body, ?_⟩
      rw [frameEntry, held.u8, ok_bind]
      dsimp only
      rw [if_pos short, number]
      rfl
  | same1 near spelledValue =>
      have small : distance.toNat < 64 := UInt16.lt_iff_toNat_lt.mp near
      have number : (64 + distance.toUInt8).toNat = 64 + distance.toNat := by
        simp only [UInt8.toNat_add, UInt16.toNat_toUInt8, UInt8.reduceToNat]
        omega
      have long : ¬64 + distance.toUInt8 ≤ 63 := fun short => by
        have bound : (64 + distance.toUInt8).toNat ≤ 63 := UInt8.le_iff_toNat_le.mp short
        omega
      have short : 64 + distance.toUInt8 ≤ 127 :=
        UInt8.le_iff_toNat_le.mpr (show (64 + distance.toUInt8).toNat ≤ 127 by omega)
      rcases bounded.frameValue_of_spells fits spelledValue held.right with ⟨later, read⟩
      refine ⟨later, ?_⟩
      rw [frameEntry, held.left.u8, ok_bind]
      dsimp only
      rw [if_neg long, if_pos short]
      rw [List.length_singleton] at read
      rw [read, ok_bind, number, Nat.add_sub_cancel_left]
      rw [List.length_append, List.length_singleton, ← Nat.add_assoc]
      rfl
  | sameFar =>
      have read : image.input.u16 (offset + 1) = .ok distance := held.right.u16
      refine ⟨body, ?_⟩
      rw [frameEntry, held.left.u8, ok_bind]
      simp only [read, ok_bind]
      rfl
  | same1Far spelledValue =>
      have read : image.input.u16 (offset + 1) = .ok distance := held.left.right.u16
      rcases bounded.frameValue_of_spells fits spelledValue held.right with ⟨later, readValue⟩
      refine ⟨later, ?_⟩
      have behind : offset + ([247] ++ bigEndian16 distance).length = offset + 1 + 2 := rfl
      rw [behind] at readValue
      simp only [frameEntry, held.left.left.u8, read, ok_bind, readValue]
      rw [List.length_append, ← Nat.add_assoc]
      rfl
  | @chop count some few =>
      have read : image.input.u16 (offset + 1) = .ok distance := held.right.u16
      refine ⟨body, ?_⟩
      rw [frameEntry, held.left.u8, ok_bind]
      simp only [read, ok_bind]
      have either : count = 1 ∨ count = 2 ∨ count = 3 := by
        have least : 1 ≤ count.toNat := UInt8.le_iff_toNat_le.mp some
        have most : count.toNat ≤ 3 := UInt8.le_iff_toNat_le.mp few
        simp only [← UInt8.toNat_inj, UInt8.reduceToNat]
        omega
      rcases either with rfl | rfl | rfl <;> rfl
  | @append locals localBytes some few spelledLocals =>
      have read : image.input.u16 (offset + 1) = .ok distance := held.left.right.u16
      rcases bounded.frameValues_of_spells fits spelledLocals held.right [] with ⟨later, readValues⟩
      refine ⟨later, ?_⟩
      have behind : offset + ([251 + locals.length.toUInt8] ++ bigEndian16 distance).length =
          offset + 1 + 2 := rfl
      rw [List.reverse_nil, List.nil_append, behind] at readValues
      rw [List.length_append, ← Nat.add_assoc, behind]
      have either : locals.length = 1 ∨ locals.length = 2 ∨ locals.length = 3 := by omega
      have tag := held.left.left.u8
      rcases either with count | count | count <;>
      · rw [count] at tag readValues
        simp only [frameEntry, tag, read, ok_bind]
        simp [readValues]
        rfl
  | full fewLocals fewStack spelledLocals spelledStack =>
      have read : image.input.u16 (offset + 1) = .ok distance := held.left.left.right.u16
      rcases bounded.countedFrameValues_of_spells fits fewLocals spelledLocals held.left.right with
        ⟨next, readLocals⟩
      have fitsNext : next.code.length = layout.code.size := by
        rw [(marks_of_countedFrameValues readLocals).1.code, fits]
      rcases bounded.countedFrameValues_of_spells fitsNext fewStack spelledStack held.right with
        ⟨later, readStack⟩
      have behind : offset + ([255] ++ bigEndian16 distance).length = offset + 1 + 2 := rfl
      have counted (values : List FrameValue) (bytes : List UInt8) :
          (bigEndian16 values.length.toUInt16 ++ bytes).length = 2 + bytes.length := by
        rw [List.length_append, length_bigEndian16]
      rw [List.length_append, counted, ← Nat.add_assoc] at readStack
      rw [behind] at readLocals readStack
      refine ⟨later, ?_⟩
      rw [List.length_append, List.length_append, counted, counted, ← Nat.add_assoc offset,
        ← Nat.add_assoc offset, behind]
      simp only [frameEntry, held.left.left.left.u8, read, ok_bind, readLocals, readStack]
      rfl

end CodeLayout.IsBounded

end ClassFile
