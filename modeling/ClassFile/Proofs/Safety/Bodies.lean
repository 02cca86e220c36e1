import ClassFile.Proofs.Image.Marks
import ClassFile.Proofs.Safety.Instructions

/-!
# Telling method bodies is safe

The first pass over a body knows only places near the file (`CodeBody.IsSafe`), and the second goes by
what the first has found.
-/

namespace ClassFile

open Input

/-- Whether a body knows only places near a file. -/
structure CodeBody.IsSafe (body : CodeBody) (input : Input) : Prop where
  code : body.code.stop ≤ input.size
  handlers : body.handlers < 65536
  locals : ∀ offset ∈ body.localVariables?, offset ≤ input.size
  types : ∀ offset ∈ body.variableTypes?, offset ≤ input.size
  annotations : ∀ note ∈ body.annotations, input.Near note.valuesOffset
  common : body.common.AreInside input

namespace CodeBody

variable {body : CodeBody} {input : Input}

/-- Marking a place changes only the labels. -/
theorem IsSafe.yields_mark (safe : body.IsSafe input) {target source : Nat} :
    Yields (body.mark target source) fun next =>
      next.IsSafe input ∧ next.code = body.code := by
  refine CodeArray.yields_place.bind fun label _ => ?_
  exact ⟨⟨safe.1, safe.2, safe.3, safe.4, safe.5, safe.6⟩, rfl⟩

end CodeBody

namespace ClassImage

variable {image : ClassImage} {offset : Nat} (safe : image.IsSafe) {body : CodeBody}

include safe

/-! ### The first pass -/

theorem IsSafe.yields_markHandlers {count : Nat} (bodySafe : body.IsSafe image.input)
    (near : image.input.Near offset) :
    Yields (image.markHandlers offset body count) fun next => next.IsSafe image.input := by
  have small := safe.small
  induction count generalizing offset body with
  | zero => exact bodySafe
  | succ count ih =>
      rw [markHandlers]
      refine (yields_u16 (by omega)).bind fun start read => ?_
      refine bodySafe.yields_mark.bind fun one marked => ?_
      have oneSafe := marked.1
      refine (yields_u16 (by omega)).bind fun stop _ => ?_
      refine oneSafe.yields_mark.bind fun two marked => ?_
      have twoSafe := marked.1
      refine (yields_u16 (by omega)).bind fun handler _ => ?_
      exact twoSafe.yields_mark.bind fun three marked => ih marked.1 (by omega)

theorem IsSafe.yields_markLines {count : Nat} (bodySafe : body.IsSafe image.input)
    (near : image.input.Near offset) :
    Yields (image.markLines offset body count) fun next => next.IsSafe image.input := by
  have small := safe.small
  induction count generalizing offset body with
  | zero => exact bodySafe
  | succ count ih =>
      rw [markLines]
      refine (yields_u16 (by omega)).bind fun start read => ?_
      refine bodySafe.yields_mark.bind fun one marked => ?_
      have oneSafe := marked.1
      refine (yields_u16 (by omega)).bind fun line _ => ?_
      exact ih ⟨oneSafe.1, oneSafe.2, oneSafe.3, oneSafe.4, oneSafe.5, oneSafe.6⟩ (by omega)

theorem IsSafe.yields_markVariables {count : Nat} (bodySafe : body.IsSafe image.input)
    (near : image.input.Near offset) :
    Yields (image.markVariables offset body count) fun next => next.IsSafe image.input := by
  have small := safe.small
  induction count generalizing offset body with
  | zero => exact bodySafe
  | succ count ih =>
      rw [markVariables]
      refine (yields_u16 (by omega)).bind fun start read => ?_
      refine bodySafe.yields_mark.bind fun one marked => ?_
      have oneSafe := marked.1
      refine (yields_u16 (by omega)).bind fun length _ => ?_
      exact oneSafe.yields_mark.bind fun two marked => ih marked.1 (by omega)

theorem IsSafe.yields_frameValue (bodySafe : body.IsSafe image.input)
    (near : image.input.Near offset) :
    Yields (image.frameValue offset body) fun (_, next, nextBody) =>
      image.input.Near next ∧ nextBody.IsSafe image.input ∧ nextBody.code = body.code := by
  have small := safe.small
  unfold frameValue
  refine (yields_u8 (by omega)).bind fun tag read => ?_
  have next : image.input.Near (offset + 1) := by omega
  split
  case h_8 =>
    refine (safe.yields_classAt next).bind fun name inside => ?_
    exact ⟨by omega, bodySafe, rfl⟩
  case h_9 =>
    refine (yields_u16 (by omega)).bind fun label inside => ?_
    refine bodySafe.yields_mark.bind fun marked ⟨markedSafe, same⟩ => ?_
    exact ⟨by omega, markedSafe, same⟩
  case h_10 => exact rfl
  all_goals exact ⟨next, bodySafe, rfl⟩

theorem IsSafe.yields_frameValues {found : List FrameValue} {count : Nat}
    (bodySafe : body.IsSafe image.input) (near : image.input.Near offset) :
    Yields (image.frameValues offset found body count) fun (_, next, nextBody) =>
      image.input.Near next ∧ nextBody.IsSafe image.input ∧ nextBody.code = body.code := by
  induction count generalizing offset found body with
  | zero => exact ⟨near, bodySafe, rfl⟩
  | succ count ih =>
      rw [frameValues]
      refine (safe.yields_frameValue bodySafe near).bind ?_
      rintro ⟨value, next, nextBody⟩ ⟨nearNext, nextSafe, same⟩
      refine (ih nextSafe nearNext).weaken ?_
      rintro ⟨_, last, lastBody⟩ ⟨nearLast, lastSafe, sameLast⟩
      exact ⟨nearLast, lastSafe, sameLast.trans same⟩

theorem IsSafe.yields_countedFrameValues (bodySafe : body.IsSafe image.input)
    (near : image.input.Near offset) :
    Yields (image.countedFrameValues offset body) fun (_, next, nextBody) =>
      image.input.Near next ∧ nextBody.IsSafe image.input ∧ nextBody.code = body.code := by
  have small := safe.small
  refine (yields_u16 (by omega)).bind fun count read => ?_
  exact safe.yields_frameValues bodySafe (by omega)

theorem IsSafe.yields_frameEntry (bodySafe : body.IsSafe image.input)
    (near : image.input.Near offset) :
    Yields (image.frameEntry offset body) fun entry =>
      entry.delta < 65536 ∧ image.input.Near entry.next ∧ entry.body.IsSafe image.input ∧
        entry.body.code = body.code := by
  have small := safe.small
  unfold frameEntry
  refine (yields_u8 (by omega)).bind fun frameType ⟨read, bound⟩ => ?_
  have next : image.input.Near (offset + 1) := by omega
  split
  · exact ⟨by dsimp only; omega, next, bodySafe, rfl⟩
  split
  · refine (safe.yields_frameValue bodySafe next).bind
      fun ⟨value, next, nextBody⟩ ⟨nearNext, nextSafe, same⟩ => ?_
    exact ⟨by dsimp only; omega, nearNext, nextSafe, same⟩
  split
  · exact rfl
  refine (yields_u16 (by omega)).bind fun delta ⟨readDelta, small16⟩ => ?_
  have behind : image.input.Near (offset + 1 + 2) := by omega
  dsimp only
  split
  · refine (safe.yields_frameValue bodySafe behind).bind
      fun ⟨value, next, nextBody⟩ ⟨nearNext, nextSafe, same⟩ => ?_
    exact ⟨by dsimp only; omega, nearNext, nextSafe, same⟩
  split
  · exact ⟨by dsimp only; omega, behind, bodySafe, rfl⟩
  split
  · exact ⟨by dsimp only; omega, behind, bodySafe, rfl⟩
  split
  · -- The difference must not be evaluated.
    generalize frameType.toNat - 251 = few
    refine (safe.yields_frameValues bodySafe behind).bind
      fun ⟨locals, next, nextBody⟩ ⟨nearNext, nextSafe, same⟩ => ?_
    exact ⟨by dsimp only; omega, nearNext, nextSafe, same⟩
  · refine (safe.yields_countedFrameValues bodySafe behind).bind
      fun ⟨locals, next, nextBody⟩ ⟨nearNext, nextSafe, same⟩ => ?_
    refine (safe.yields_countedFrameValues nextSafe nearNext).bind
      fun ⟨stack, last, lastBody⟩ ⟨nearLast, lastSafe, sameLast⟩ => ?_
    exact ⟨by dsimp only; omega, nearLast, lastSafe, sameLast.trans same⟩

theorem IsSafe.yields_readFrames {previous? : Option Nat} {found : List (Label × Frame)} {count : Nat}
    (bodySafe : body.IsSafe image.input) (near : image.input.Near offset)
    (inside : ∀ previous ∈ previous?, previous < body.code.length) :
    Yields (image.readFrames offset previous? found body count) fun (_, next) =>
      next.IsSafe image.input := by
  have small := safe.small
  induction count generalizing offset previous? found body with
  | zero => exact bodySafe
  | succ count ih =>
      rw [readFrames]
      refine (safe.yields_frameEntry bodySafe near).bind ?_
      rintro entry ⟨short, nearNext, entrySafe, same⟩
      have code := entrySafe.code
      unfold CodeArray.stop at code
      have goesOn {place : Nat} (known : place ≤ 18446744073709551615) :
          Yields (do
            if entry.body.code.length ≤ place then
              throw ((ClassError.badBranchTarget place offset).orOverflow Input.maxOffset place)
            let body ← entry.body.mark place offset
            image.readFrames entry.next (some place) ((place, entry.frame) :: found) body count)
            fun (_, next) => next.IsSafe image.input := by
        split
        · exact isMalformed_orOverflow rfl known
        · rename_i fits
          refine entrySafe.yields_mark.bind ?_
          rintro marked ⟨markedSafe, sameMarked⟩
          refine ih markedSafe nearNext ?_
          rintro _ ⟨⟩
          rw [sameMarked]
          exact Nat.not_le.mp fits
      cases previous? with
      | none => exact @goesOn entry.delta (by omega)
      | some previous =>
          have before := inside previous rfl
          rw [← same] at before
          exact @goesOn (previous + entry.delta + 1) (by omega)

omit safe in
theorem yields_markRanges {source : Nat} {input : Input} {ranges : List CodeRange}
    (bodySafe : body.IsSafe input) :
    Yields (markRanges source body ranges) fun next => next.IsSafe input := by
  refine Yields.foldlM bodySafe fun state stateSafe range _ => ?_
  refine stateSafe.yields_mark.bind fun one ⟨oneSafe, _⟩ => ?_
  exact oneSafe.yields_mark.weaken fun _ marked => marked.1

theorem IsSafe.yields_markAnnotations {visible : Bool} {count : Nat}
    (bodySafe : body.IsSafe image.input) (near : image.input.Near offset) :
    Yields (image.markAnnotations visible offset body count) fun next =>
      next.IsSafe image.input := by
  induction count generalizing offset body with
  | zero => exact bodySafe
  | succ count ih =>
      rw [markAnnotations]
      refine (safe.yields_typeAnnotationHead near).bind fun head nearHead => ?_
      refine (safe.yields_skipValues nearHead).bind fun next nearNext => ?_
      refine (yields_markRanges bodySafe).bind fun marked markedSafe => ih ?_ nearNext
      refine { markedSafe with annotations := fun note member => ?_ }
      rcases Array.mem_push.mp member with before | rfl
      · exact markedSafe.annotations note before
      · exact nearHead

theorem IsSafe.yields_markAttribute {options : ReadOptions} {entry : RawAttribute}
    (bodySafe : body.IsSafe image.input) (inside : entry.IsInside image.input) :
    Yields (image.markAttribute options body entry) fun next => next.IsSafe image.input := by
  have small := safe.small
  have starts := inside.starts
  have start : entry.offset ≤ image.input.size := starts _ rfl
  unfold markAttribute
  split
  · split
    · exact bodySafe
    · refine (yields_u16 (by omega)).bind fun count read => ?_
      exact safe.yields_markLines bodySafe (by omega)
  · split
    · exact bodySafe
    · refine (yields_u16 (by omega)).bind fun count read => ?_
      refine (safe.yields_markVariables bodySafe (by omega)).bind fun marked markedSafe => ?_
      exact { markedSafe with locals := starts }
  · split
    · exact bodySafe
    · exact { bodySafe with types := starts }
  · split
    · exact bodySafe
    · refine (yields_u16 (by omega)).bind fun count read => ?_
      refine (safe.yields_readFrames bodySafe (by omega) (by simp)).bind
        fun ⟨frames, marked⟩ markedSafe => ?_
      exact ⟨markedSafe.1, markedSafe.2, markedSafe.3, markedSafe.4, markedSafe.5, markedSafe.6⟩
  · split
    · exact bodySafe
    · refine (yields_u16 (by omega)).bind fun count read => ?_
      exact safe.yields_markAnnotations bodySafe (by omega)
  · split
    · exact bodySafe
    · refine (yields_u16 (by omega)).bind fun count read => ?_
      exact safe.yields_markAnnotations bodySafe (by omega)
  · have common := bodySafe.common
    refine { bodySafe with common := { common with others := ?_ } }
    exact List.forall_mem_cons.mpr ⟨inside, common.others⟩

theorem IsSafe.yields_codeBody {options : ReadOptions} {entry : RawAttribute}
    (inside : entry.IsInside image.input) :
    Yields (image.codeBody options entry) fun body => body.IsSafe image.input := by
  have small := safe.small
  have bound : entry.offset + entry.length ≤ image.input.size := inside
  unfold codeBody
  refine (yields_u16 (by omega)).bind fun maxStack read => ?_
  refine (yields_u16 (by omega)).bind fun maxLocals _ => ?_
  refine (yields_u32 (by omega)).bind fun length ⟨readLength, short⟩ => ?_
  dsimp only
  split
  · refine isMalformed_orOverflow rfl ?_
    show entry.offset + 8 + length.toNat ≤ 18446744073709551615
    omega
  rename_i fits
  rw [not_or] at fits
  have code : (⟨entry.offset + 8, length.toNat⟩ : CodeArray).stop ≤ image.input.size :=
    Nat.le_trans (Nat.not_lt.mp fits.2) bound
  refine (safe.yields_markInstructions code (Nat.le_refl _) (by dsimp only; omega)
    (Nat.le_refl _)).bind fun ⟨labels, stop⟩ nearStop => ?_
  dsimp only at nearStop ⊢
  split
  · exact isMalformed_orOverflow rfl (show stop ≤ 18446744073709551615 by omega)
  refine (yields_u16 (show entry.offset + 8 + length.toNat ≤ _ by omega)).bind
    fun handlers ⟨readHandlers, few⟩ => ?_
  refine (safe.yields_markHandlers (CodeBody.IsSafe.mk code few (by simp) (by simp) (by simp)
    CommonAttributes.areInside_empty) ?_).bind fun body bodySafe => ?_
  · show entry.offset + 8 + length.toNat + 2 ≤ _
    omega
  have bodyCode := bodySafe.code
  refine (safe.yields_attributes ?_).bind fun ⟨entries, _⟩ ⟨entriesInside, _⟩ => ?_
  · show body.code.stop + 2 + handlers.toNat * 8 ≤ _
    omega
  · exact Yields.foldlM bodySafe fun state stateSafe other member =>
      safe.yields_markAttribute stateSafe (entriesInside other member)

/-! ### The second pass -/

omit safe in
theorem yields_tellItem (item : MethodItem) : (tellItem item).Yields fun _ => True :=
  Emit.yields_tell _

omit safe in
theorem yields_tellInstruction (instruction : Instruction) :
    (tellInstruction instruction).Yields fun _ => True :=
  Emit.yields_tell _

theorem IsSafe.yields_tellCodeAnnotation {opening : Opening} {note : CodeAnnotation}
    (near : image.input.Near note.valuesOffset) :
    (image.tellCodeAnnotation opening note).Yields fun _ => True :=
  (Emit.Yields.eager (safe.yields_tellValues near)).discard

theorem IsSafe.yields_tellHandlers {code : CodeArray} {count : Nat}
    (near : image.input.Near offset) :
    (image.tellHandlers code offset count).Yields fun _ => True := by
  have small := safe.small
  induction count generalizing offset with
  | zero => exact .pure trivial
  | succ count ih =>
      rw [tellHandlers]
      refine .bind_lift (yields_u16 (by omega)) fun start read => ?_
      refine .bind_lift CodeArray.yields_place fun _ _ => ?_
      refine .bind_lift (yields_u16 (by omega)) fun stop _ => ?_
      refine .bind_lift CodeArray.yields_place fun _ _ => ?_
      refine .bind_lift (yields_u16 (by omega)) fun handler _ => ?_
      refine .bind_lift CodeArray.yields_place fun _ _ => ?_
      refine .bind_lift (yields_u16 (by omega)) fun type _ => ?_
      refine .bind_lift (Pool.yields_optional safe.pool.yields_named) fun _ _ => ?_
      exact (yields_tellItem _).bind fun _ _ => ih (by omega)

theorem IsSafe.yields_tellHandlerAnnotations (bodySafe : body.IsSafe image.input) :
    (image.tellHandlerAnnotations body).Yields fun _ => True := by
  refine .forM fun note member => ?_
  have near := bodySafe.annotations note (Array.mem_toList_iff.mp member)
  split
  · exact safe.yields_tellCodeAnnotation near
  · exact .pure trivial

omit safe in
theorem yields_tellFrames {position : Label} {frames : List (Label × Frame)} :
    (tellFrames position frames).Yields fun _ => True := by
  induction frames with
  | nil => exact .pure trivial
  | cons entry rest ih =>
      rw [tellFrames]
      split
      · exact (yields_tellInstruction _).bind fun _ _ => ih
      · exact .pure trivial

omit safe in
theorem yields_tellLabel {position : Label} : (tellLabel body position).Yields fun _ => True := by
  unfold tellLabel
  split
  · exact (yields_tellInstruction _).bind fun _ _ => .forM fun line _ => yields_tellInstruction _
  · exact .pure trivial

/-- Whether annotations by place hold their values near a file. -/
def AreNear (annotations : Std.HashMap Label (Array CodeAnnotation)) (input : Input) : Prop :=
  ∀ place, ∀ note ∈ annotations.getD place #[], input.Near note.valuesOffset

omit safe in
theorem areNear_instructionAnnotations (bodySafe : body.IsSafe image.input) :
    AreNear (instructionAnnotations body) image.input :=
  forall_instructionAnnotations bodySafe.annotations

theorem IsSafe.yields_tellInstructions {api : Api} (supports : api.supports .v7 = true)
    {annotations : Std.HashMap Label (Array CodeAnnotation)} {pc : Nat}
    {frames : List (Label × Frame)} {fuel : Nat} (bodySafe : body.IsSafe image.input)
    (near : AreNear annotations image.input) (begun : body.code.start ≤ pc)
    (enough : body.code.stop ≤ pc + fuel) :
    (image.tellInstructions api body annotations pc frames fuel).Yields fun _ => True := by
  induction fuel generalizing pc frames with
  | zero =>
      rw [tellInstructions, if_neg (by omega)]
      exact .pure trivial
  | succ fuel ih =>
      rw [tellInstructions]
      split
      · rename_i inside
        refine .bind_lift (CodeArray.yields_position begun) fun position _ => ?_
        refine yields_tellLabel.bind fun _ _ => ?_
        refine yields_tellFrames.bind fun rest _ => ?_
        refine .bind_lift (safe.yields_readInstruction bodySafe.code supports inside).eq
          fun ⟨instruction, next⟩ ⟨read, _⟩ => ?_
        have forward := lt_of_readInstruction read
        refine (yields_tellInstruction _).bind fun _ _ => ?_
        refine (Emit.Yields.forM fun note member => ?_).bind fun _ _ => ?_
        · exact safe.yields_tellCodeAnnotation (near position note (Array.mem_toList_iff.mp member))
        · exact ih (by omega) (by omega)
      · exact .pure trivial

theorem IsSafe.yields_variableTypes {types : VariableTypes} {count : Nat}
    (near : image.input.Near offset) :
    Yields (image.variableTypes offset types count) fun _ => True := by
  have small := safe.small
  induction count generalizing offset types with
  | zero => exact trivial
  | succ count ih =>
      rw [variableTypes]
      refine (yields_u16 (by omega)).bind fun start read => ?_
      refine (yields_u16 (by omega)).bind fun length _ => ?_
      refine (yields_u16 (by omega)).bind fun slot _ => ?_
      exact (safe.yields_textAt (by omega)).bind fun signature _ => ih (by omega)

theorem IsSafe.yields_tellVariables {code : CodeArray} {types : VariableTypes} {count : Nat}
    (near : image.input.Near offset) :
    (image.tellVariables code types offset count).Yields fun _ => True := by
  have small := safe.small
  induction count generalizing offset with
  | zero => exact .pure trivial
  | succ count ih =>
      rw [tellVariables]
      refine .bind_lift (yields_u16 (by omega)) fun start read => ?_
      refine .bind_lift (yields_u16 (by omega)) fun length _ => ?_
      refine .bind_lift (safe.yields_textAt (by omega)) fun name _ => ?_
      refine .bind_lift (safe.yields_textAt (by omega)) fun descriptor _ => ?_
      refine .bind_lift (yields_u16 (by omega)) fun slot _ => ?_
      refine .bind_lift CodeArray.yields_place fun first _ => ?_
      refine .bind_lift CodeArray.yields_place fun stop _ => ?_
      exact (yields_tellItem _).bind fun _ _ => ih (by omega)

theorem IsSafe.yields_tellVariableTable (bodySafe : body.IsSafe image.input) :
    (image.tellVariableTable body).Yields fun _ => True := by
  have small := safe.small
  unfold tellVariableTable
  split
  · exact .pure trivial
  · rename_i offset present
    have inside := bodySafe.locals offset present
    have tells (types : VariableTypes) : (do
        let count ← image.input.u16 offset
        image.tellVariables body.code types (offset + 2) count.toNat : Emit Unit).Yields
          fun _ => True := by
      refine .bind_lift (yields_u16 (by omega)) fun count read => ?_
      exact safe.yields_tellVariables (by omega)
    split
    · exact tells ∅
    · rename_i place typed
      have placeInside := bodySafe.types place typed
      refine .bind_lift (yields_u16 (by omega)) fun count read => ?_
      exact .bind_lift (safe.yields_variableTypes (by omega)) fun types _ => tells types

theorem IsSafe.yields_tellVariableAnnotations {source : Nat} (bodySafe : body.IsSafe image.input) :
    (image.tellVariableAnnotations body source).Yields fun _ => True := by
  refine .forM fun note member => ?_
  have near := bodySafe.annotations note (Array.mem_toList_iff.mp member)
  split
  · refine (Emit.Yields.mapM fun range _ => ?_).bind fun places _ => ?_
    · refine .bind_lift CodeArray.yields_place fun start _ => ?_
      exact .bind_lift CodeArray.yields_place fun stop _ => .pure trivial
    · exact safe.yields_tellCodeAnnotation near
  · exact .pure trivial

theorem IsSafe.yields_tellCode {options : ReadOptions} {entry : RawAttribute}
    (supports : options.api.supports .v7 = true) (decodes : options.DecodesSafely)
    (inside : entry.IsInside image.input) :
    (image.tellCode options entry).Yields fun _ => True := by
  have small := safe.small
  refine .bind_lift (safe.yields_codeBody inside) fun body bodySafe => ?_
  have code := bodySafe.code
  refine (yields_tellItem _).bind fun _ _ => ?_
  refine (safe.yields_tellHandlers (by unfold CodeBody.handlersOffset; omega)).bind fun _ _ => ?_
  refine (safe.yields_tellHandlerAnnotations bodySafe).bind fun _ _ => ?_
  refine (safe.yields_tellInstructions supports bodySafe (areNear_instructionAnnotations bodySafe)
    (Nat.le_refl _) (Nat.le_refl _)).bind fun _ _ => ?_
  have rest : (do
      image.tellVariableTable body
      image.tellVariableAnnotations body entry.offset
      image.tellOthers options true body.common
      tellItem (.maxs body.maxStack body.maxLocals)).Yields fun _ => True := by
    refine (safe.yields_tellVariableTable bodySafe).bind fun _ _ => ?_
    refine (safe.yields_tellVariableAnnotations bodySafe).bind fun _ _ => ?_
    refine (safe.yields_tellOthers decodes bodySafe.common).bind fun _ _ => ?_
    exact yields_tellItem _
  split
  · exact (yields_tellInstruction _).bind fun _ _ => rest
  · exact rest

end ClassImage

end ClassFile
