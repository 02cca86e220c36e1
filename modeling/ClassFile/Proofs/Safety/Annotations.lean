import ClassFile.Image.Annotations
import ClassFile.Proofs.Safety.Image
import ClassFile.TypeAnnotation

/-!
# Telling annotations and attributes is safe

Whatever is read at an offset near the file is told or is malformed, and reading goes on near the file.
Annotation values may be annotations again; the levels bound how deep.
-/

namespace ClassFile

open Input

/-! ### Places of type annotations -/

namespace TypeTarget

variable {input : Input} {offset : Nat}

theorem yields_readRanges (small : input.IsSmall) {count : Nat} (near : input.Near offset) :
    Yields (readRanges input offset count) fun _ => True := by
  induction count generalizing offset with
  | zero => exact trivial
  | succ count ih =>
      rw [readRanges]
      refine (yields_u16 (by omega)).bind fun start read => ?_
      refine (yields_u16 (by omega)).bind fun length _ => ?_
      refine (yields_u16 (by omega)).bind fun slot _ => ?_
      exact (ih (by omega)).last

theorem yields_readByteTarget (small : input.IsSmall) {target : UInt8 → TypeTarget}
    (near : input.Near offset) :
    Yields (readByteTarget input offset target) fun found => input.Near found.2.2 := by
  refine (yields_u8 (by omega)).bind fun byte read => ?_
  exact Yields.pure (by dsimp only; omega)

theorem yields_readPairTarget (small : input.IsSmall) {target : UInt8 → UInt8 → TypeTarget}
    (near : input.Near offset) :
    Yields (readPairTarget input offset target) fun found => input.Near found.2.2 := by
  refine (yields_u8 (by omega)).bind fun first read => ?_
  refine (yields_u8 (by omega)).bind fun second _ => ?_
  exact Yields.pure (by dsimp only; omega)

theorem yields_readIndexTarget (small : input.IsSmall) {target : UInt16 → TypeTarget}
    (near : input.Near offset) :
    Yields (readIndexTarget input offset target) fun found => input.Near found.2.2 := by
  refine (yields_u16 (by omega)).bind fun index read => ?_
  exact Yields.pure (by dsimp only; omega)

theorem yields_readVariableTarget (small : input.IsSmall) {target : TypeTarget}
    (near : input.Near offset) :
    Yields (readVariableTarget input offset target) fun found => input.Near found.2.2 := by
  refine (yields_u16 (by omega)).bind fun count read => ?_
  refine (yields_readRanges small (by omega)).bind fun ranges _ => ?_
  exact Yields.pure (by dsimp only; omega)

theorem yields_readInstructionTarget (small : input.IsSmall) {target : TypeTarget}
    (near : input.Near offset) :
    Yields (readInstructionTarget input offset target) fun found => input.Near found.2.2 := by
  refine (yields_u16 (by omega)).bind fun place read => ?_
  exact Yields.pure (by dsimp only; omega)

theorem yields_readArgumentTarget (small : input.IsSmall) {target : UInt8 → TypeTarget}
    (near : input.Near offset) :
    Yields (readArgumentTarget input offset target) fun found => input.Near found.2.2 := by
  refine (yields_u8 (by omega)).bind fun argument read => ?_
  refine (yields_u16 (by omega)).bind fun place _ => ?_
  exact Yields.pure (by dsimp only; omega)

theorem yields_read (small : input.IsSmall) (near : input.Near offset) :
    Yields (read input offset) fun found => input.Near found.2.2 := by
  unfold read
  refine (yields_u8 (by omega)).bind fun byte inside => ?_
  have next : input.Near (offset + 1) := by omega
  split
  case h_1 | h_2 | h_9 => exact yields_readByteTarget small next
  case h_3 | h_10 | h_13 => exact yields_readIndexTarget small next
  case h_4 | h_5 => exact yields_readPairTarget small next
  case h_6 | h_7 | h_8 => exact next
  case h_11 | h_12 => exact yields_readVariableTarget small next
  case h_14 | h_15 | h_16 | h_17 => exact yields_readInstructionTarget small next
  case h_18 | h_19 | h_20 | h_21 | h_22 => exact yields_readArgumentTarget small next
  case h_23 => exact rfl

end TypeTarget

theorem TypePath.yields_read {input : Input} {offset : Nat} (small : input.IsSmall)
    (near : input.Near offset) :
    Yields (TypePath.read input offset) fun found => input.Near found.2 := by
  unfold TypePath.read
  refine (yields_u8 (by omega)).bind fun count read => ?_
  refine (yields_bytes (by omega) _).bind fun bytes inside => ?_
  exact Yields.pure (by dsimp only; omega)

namespace ClassImage

variable {image : ClassImage} {offset : Nat}

theorem IsSafe.small (safe : image.IsSafe) : image.input.IsSmall :=
  safe.input ▸ safe.pool.small

section Safe

variable (safe : image.IsSafe)

include safe

theorem IsSafe.yields_textAt (near : image.input.Near offset) :
    Yields (image.textAt offset) fun _ => offset + 2 ≤ image.input.size := by
  rw [← safe.input]
  exact safe.pool.yields_textRefAt (safe.input ▸ near)

theorem IsSafe.yields_classAt (near : image.input.Near offset) :
    Yields (image.classAt offset) fun _ => offset + 2 ≤ image.input.size := by
  have small := safe.small
  refine (yields_u16 (by omega)).bind fun index read => ?_
  exact safe.pool.yields_named.weaken fun _ _ => read.1

theorem IsSafe.yields_attributes (near : image.input.Near offset) :
    Yields (rawAttributes image.pool offset) fun listed =>
      (∀ entry ∈ listed.1, entry.IsInside image.input) ∧ image.input.Near listed.2 := by
  rw [← safe.input]
  exact yields_rawAttributes safe.pool (safe.input ▸ near)

/-! ### Annotations -/

theorem IsSafe.yields_tellElements {value : Option Text → Nat → Emit Nat}
    (values : ∀ name? offset, image.input.Near offset →
      (value name? offset).Yields fun next => image.input.Near next)
    {named : Bool} {count : Nat} (near : image.input.Near offset) :
    (image.tellElements value named offset count).Yields fun next => image.input.Near next := by
  induction count generalizing offset with
  | zero => exact .pure near
  | succ count ih =>
      rw [tellElements]
      cases named
      · exact (values none offset near).bind fun next nearNext => ih nearNext
      · refine .bind_lift (safe.yields_textAt near) fun name read => ?_
        exact (values (some name) (offset + 2) (by omega)).bind fun next nearNext => ih nearNext

theorem IsSafe.yields_tellCounted {value : Option Text → Nat → Emit Nat}
    (values : ∀ name? offset, image.input.Near offset →
      (value name? offset).Yields fun next => image.input.Near next)
    {named : Bool} (near : image.input.Near offset) :
    (image.tellCounted value named offset).Yields fun next => image.input.Near next := by
  have small := safe.small
  refine .bind_lift (yields_u16 (by omega)) fun count read => ?_
  exact safe.yields_tellElements values (by omega)

theorem IsSafe.yields_elementConstant? {tag : UInt8} (near : image.input.Near offset) :
    Yields (image.elementConstant? tag offset) fun _ => True := by
  have small := safe.small
  have index : ∀ {α : Type} {look : UInt16 → Except ClassError α} {change : α → AnnotationConstant},
      (∀ index, Yields (look index) fun _ => True) →
        Yields (do return some (change (← look (← image.input.u16 offset)))) fun _ => True :=
    fun looks => (yields_u16 (by omega)).bind fun index _ => (looks index).last
  unfold elementConstant?
  split
  · exact index fun _ => safe.pool.yields_integer
  split
  · exact index fun _ => safe.pool.yields_integer
  split
  · exact index fun _ => safe.pool.yields_double
  split
  · exact index fun _ => safe.pool.yields_float
  split
  · exact index fun _ => safe.pool.yields_integer
  split
  · exact index fun _ => safe.pool.yields_long
  split
  · exact index fun _ => safe.pool.yields_integer
  split
  · exact index fun _ => safe.pool.yields_integer
  split
  · exact (safe.yields_textAt near).last
  split
  · exact (safe.yields_textAt near).last
  · exact trivial

theorem IsSafe.yields_tellElement {levels : Nat} {name? : Option Text}
    (near : image.input.Near offset) :
    (image.tellElement levels name? offset).Yields fun next => image.input.Near next := by
  have small := safe.small
  induction levels generalizing name? offset with
  | zero => exact .throw rfl
  | succ levels ih =>
      rw [tellElement]
      refine .bind_lift (yields_u8 (by omega)) fun tag read => ?_
      refine .bind_lift (safe.yields_elementConstant? (by omega)) fun constant? _ => ?_
      split
      · exact (Emit.yields_tell _).bind fun _ _ => .pure (by omega)
      split
      · refine .bind_lift (safe.yields_textAt (by omega)) fun descriptor _ => ?_
        refine .bind_lift (safe.yields_textAt (by omega)) fun value _ => ?_
        exact (Emit.yields_tell _).bind fun _ _ => .pure (by omega)
      split
      · refine .bind_lift (safe.yields_textAt (by omega)) fun descriptor _ => ?_
        exact .eager (safe.yields_tellCounted (fun _ _ => ih) (by omega))
      split
      · exact .eager (safe.yields_tellCounted (fun _ _ => ih) (by omega))
      · exact .throw rfl

theorem IsSafe.yields_tellValues (near : image.input.Near offset) :
    (image.tellValues offset).Yields fun next => image.input.Near next :=
  safe.yields_tellCounted (fun _ _ => safe.yields_tellElement) near

theorem IsSafe.yields_skipValues (near : image.input.Near offset) :
    Yields (image.skipValues offset) fun next => image.input.Near next :=
  (safe.yields_tellValues near).silently

theorem IsSafe.yields_tellAnnotationList {opening : Text → Opening} {count : Nat}
    (near : image.input.Near offset) :
    (image.tellAnnotationList opening offset count).Yields fun next => image.input.Near next := by
  induction count generalizing offset with
  | zero => exact .pure near
  | succ count ih =>
      rw [tellAnnotationList]
      refine .bind_lift (safe.yields_textAt near) fun descriptor read => ?_
      exact (Emit.Yields.eager (safe.yields_tellValues (by omega))).bind fun next nearNext =>
        ih nearNext

theorem IsSafe.yields_tellAnnotationTable {opening : Text → Opening}
    (near : image.input.Near offset) :
    (image.tellAnnotationTable opening offset).Yields fun next => image.input.Near next := by
  have small := safe.small
  refine .bind_lift (yields_u16 (by omega)) fun count read => ?_
  exact safe.yields_tellAnnotationList (by omega)

theorem IsSafe.yields_typeAnnotationHead {visible : Bool} (near : image.input.Near offset) :
    Yields (image.typeAnnotationHead visible offset) fun head =>
      image.input.Near head.valuesOffset := by
  have small := safe.small
  refine (TypeTarget.yields_read small near).bind fun ⟨target, location, next⟩ nearNext => ?_
  refine (TypePath.yields_read small nearNext).bind fun ⟨path, next⟩ nearNext => ?_
  refine (safe.yields_textAt nearNext).bind fun descriptor read => ?_
  exact Yields.pure (by dsimp only; omega)

theorem IsSafe.yields_tellTypeAnnotationList {visible : Bool} {count : Nat}
    (near : image.input.Near offset) :
    (image.tellTypeAnnotationList visible offset count).Yields fun _ => True := by
  induction count generalizing offset with
  | zero => exact .pure trivial
  | succ count ih =>
      rw [tellTypeAnnotationList]
      refine .bind_lift (safe.yields_typeAnnotationHead near) fun head nearHead => ?_
      exact (Emit.Yields.eager (safe.yields_tellValues nearHead)).bind fun next nearNext =>
        ih nearNext

theorem IsSafe.yields_tellTypeAnnotationTable {visible : Bool} (near : image.input.Near offset) :
    (image.tellTypeAnnotationTable visible offset).Yields fun _ => True := by
  have small := safe.small
  refine .bind_lift (yields_u16 (by omega)) fun count read => ?_
  exact safe.yields_tellTypeAnnotationList (by omega)

omit safe in
theorem yields_tellIfPresent {place? : Option Nat} {tell : Nat → Emit Unit}
    (tells : ∀ offset ∈ place?, (tell offset).Yields fun _ => True) :
    (tellIfPresent place? tell).Yields fun _ => True := by
  cases place? with
  | none => exact .pure trivial
  | some offset => exact tells offset rfl

end Safe

end ClassImage

/-! ### Attributes -/

/-- Whether the contents of attributes start inside a file. -/
structure CommonAttributes.AreInside (common : CommonAttributes) (input : Input) : Prop where
  signature : ∀ offset ∈ common.signature?, offset ≤ input.size
  visible : ∀ offset ∈ common.visibleAnnotations?, offset ≤ input.size
  invisible : ∀ offset ∈ common.invisibleAnnotations?, offset ≤ input.size
  visibleTypes : ∀ offset ∈ common.visibleTypeAnnotations?, offset ≤ input.size
  invisibleTypes : ∀ offset ∈ common.invisibleTypeAnnotations?, offset ≤ input.size
  others : ∀ entry ∈ common.others, entry.IsInside input

theorem RawAttribute.IsInside.starts {entry : RawAttribute} {input : Input}
    (inside : entry.IsInside input) : ∀ offset ∈ some entry.offset, offset ≤ input.size := by
  rintro offset ⟨⟩
  exact Nat.le_trans (Nat.le_add_right ..) inside

namespace CommonAttributes

variable {input : Input}

theorem areInside_empty : ({} : CommonAttributes).AreInside input := by
  constructor <;> simp

theorem AreInside.add {common : CommonAttributes} (inside : common.AreInside input)
    {entry : RawAttribute} (entryInside : entry.IsInside input) :
    (common.add entry).AreInside input := by
  unfold CommonAttributes.add
  split
  · exact { inside with signature := entryInside.starts }
  · exact ⟨inside.1, inside.2, inside.3, inside.4, inside.5, inside.6⟩
  · exact ⟨inside.1, inside.2, inside.3, inside.4, inside.5, inside.6⟩
  · exact { inside with visible := entryInside.starts }
  · exact { inside with invisible := entryInside.starts }
  · exact { inside with visibleTypes := entryInside.starts }
  · exact { inside with invisibleTypes := entryInside.starts }
  · exact { inside with others := List.forall_mem_cons.mpr ⟨entryInside, inside.others⟩ }

end CommonAttributes

/-- Whether the decoder of attributes blames only the bytes. -/
def ReadOptions.DecodesSafely (options : ReadOptions) : Prop :=
  ∀ name pool data, Yields (options.decoder name pool data) fun _ => True

namespace ClassImage

variable {image : ClassImage} {options : ReadOptions} {common : CommonAttributes} (safe : image.IsSafe)

include safe

theorem IsSafe.yields_tellAnnotations (inside : common.AreInside image.input) :
    (image.tellAnnotations options common).Yields fun _ => True := by
  unfold tellAnnotations
  refine (yields_tellIfPresent fun offset present => ?_).bind fun _ _ => ?_
  · have place := inside.visible offset present
    exact (safe.yields_tellAnnotationTable (by omega)).discard
  refine (yields_tellIfPresent fun offset present => ?_).bind fun _ _ => ?_
  · have place := inside.invisible offset present
    exact (safe.yields_tellAnnotationTable (by omega)).discard
  split
  · refine (yields_tellIfPresent fun offset present => ?_).bind fun _ _ => ?_
    · have place := inside.visibleTypes offset present
      exact safe.yields_tellTypeAnnotationTable (by omega)
    · refine yields_tellIfPresent fun offset present => ?_
      have place := inside.invisibleTypes offset present
      exact safe.yields_tellTypeAnnotationTable (by omega)
  · exact .pure trivial

theorem IsSafe.yields_attributeOf {inCode : Bool} {entry : RawAttribute}
    (decodes : options.DecodesSafely) (inside : entry.IsInside image.input) :
    Yields (image.attributeOf options inCode entry) fun _ => True := by
  have small := safe.small
  unfold RawAttribute.IsInside at inside
  refine safe.pool.yields_text.bind fun name _ => ?_
  refine (yields_slice (by omega) _).bind fun data _ => ?_
  refine (decodes name image.pool data).bind fun decoded? _ => ?_
  cases decoded? <;> exact trivial

theorem IsSafe.yields_tellOthers {inCode : Bool} (decodes : options.DecodesSafely)
    (inside : common.AreInside image.input) :
    (image.tellOthers options inCode common).Yields fun _ => True := by
  refine .forM fun entry member => ?_
  have entryInside := inside.others entry (List.mem_reverse.mp member)
  exact .bind_lift (safe.yields_attributeOf decodes entryInside) fun decoded _ =>
    Emit.yields_tell _

end ClassImage

end ClassFile
