import ClassFile.Event.Labels
import ClassFile.Image.Code
import ClassFile.Proofs.Result
import ClassFile.Proofs.Story.Fitting
import Std.Data.HashSet.Lemmas

/-!
# What the first pass marks

Whatever the second pass over a body may tell as a place, the first pass has marked: the targets of
instructions, what the tables of exception handlers and local variables hold, what frames and type
annotations mention (`ClassImage.codeBody_marks`).  The frames and the heads of type annotations that it
reads can be written.
-/

namespace ClassFile

namespace ClassImage

/-- Whether the places in `count` exception handlers, the first of them at `offset`, are marked. -/
def HandlersMarked (image : ClassImage) (labels : LabelSet) (offset : Nat) :
    (count : Nat) → Prop
  | 0 => True
  | count + 1 =>
      (∀ field ∈ [0, 2, 4], ∀ target : UInt16, image.input.u16 (offset + field) = .ok target →
        target.toNat ∈ labels) ∧ HandlersMarked image labels (offset + 8) count

/-- Whether the bounds of `count` local variables, the first of them at `offset`, are marked. -/
def VariablesMarked (image : ClassImage) (labels : LabelSet) (offset : Nat) :
    (count : Nat) → Prop
  | 0 => True
  | count + 1 =>
      (∀ start length : UInt16, image.input.u16 offset = .ok start →
        image.input.u16 (offset + 2) = .ok length →
          start.toNat ∈ labels ∧ start.toNat + length.toNat ∈ labels) ∧
        VariablesMarked image labels (offset + 10) count

theorem HandlersMarked.mono {image : ClassImage} {labels later : LabelSet}
    (grows : ∀ label ∈ labels, label ∈ later) {offset count : Nat}
    (marked : image.HandlersMarked labels offset count) :
    image.HandlersMarked later offset count := by
  induction count generalizing offset with
  | zero => trivial
  | succ count ih =>
      exact ⟨fun field member target read => grows _ (marked.1 field member target read),
        ih marked.2⟩

theorem VariablesMarked.mono {image : ClassImage} {labels later : LabelSet}
    (grows : ∀ label ∈ labels, label ∈ later) {offset count : Nat}
    (marked : image.VariablesMarked labels offset count) :
    image.VariablesMarked later offset count := by
  induction count generalizing offset with
  | zero => trivial
  | succ count ih =>
      refine ⟨fun start length readStart readLength => ?_, ih marked.2⟩
      rcases marked.1 start length readStart readLength with ⟨first, stop⟩
      exact ⟨grows _ first, grows _ stop⟩

/-- Whether the names in frame values survive, and their labels are marked. -/
def ValuesMarked (labels : LabelSet) (values : List FrameValue) : Prop :=
  ∀ value ∈ values, value.Survives ∧ ∀ label ∈ value.labels, label ∈ labels

/-- Whether the names in frames survive, and their labels are marked. -/
def FramesMarked (labels : LabelSet) (frames : List (Label × Frame)) : Prop :=
  ∀ entry ∈ frames, ValuesMarked labels entry.2.values

theorem FramesMarked.mono {labels later : LabelSet} (grows : ∀ label ∈ labels, label ∈ later)
    {frames : List (Label × Frame)} (marked : FramesMarked labels frames) :
    FramesMarked later frames :=
  fun entry member value inside => (marked entry member value inside).imp id
    fun marked label mentioned => grows label (marked label mentioned)

end ClassImage

/-- Whether a later label map has the labels of an earlier one, and others only for places in the code. -/
structure CodeArray.Adds (code : CodeArray) (labels later : LabelSet) : Prop where
  keeps : ∀ label ∈ labels, label ∈ later
  places : ∀ label ∈ later, label ∈ labels ∨ label ≤ code.length

namespace CodeArray.Adds

variable {code : CodeArray} {labels between later : LabelSet}

theorem refl (labels : LabelSet) : code.Adds labels labels :=
  ⟨fun _ => id, fun _ => .inl⟩

theorem trans (left : code.Adds labels between) (right : code.Adds between later) :
    code.Adds labels later where
  keeps := fun label member => right.keeps label (left.keeps label member)
  places := fun label member => (right.places label member).elim (left.places label) .inr

theorem insert {target : Label} (inside : target ≤ code.length) (labels : LabelSet) :
    code.Adds labels (labels.insert target) := by
  refine ⟨fun label member => Std.HashSet.mem_insert.mpr (.inr member), fun label member => ?_⟩
  rcases Std.HashSet.mem_insert.mp member with same | before
  · rw [beq_iff_eq] at same
    exact .inr (same ▸ inside)
  · exact .inl before

end CodeArray.Adds

namespace CodeBody

/-- Whether a later state of the first pass belongs to the same code and has at least as many
labels, the new ones for places in the code. -/
structure Continues (body later : CodeBody) : Prop where
  code : later.code = body.code
  handlers : later.handlers = body.handlers
  adds : body.code.Adds body.labels later.labels

theorem Continues.refl (body : CodeBody) : body.Continues body :=
  ⟨rfl, rfl, .refl _⟩

theorem Continues.labels {body later : CodeBody} (continues : body.Continues later) :
    ∀ label ∈ body.labels, label ∈ later.labels :=
  continues.adds.keeps

theorem Continues.trans {first second third : CodeBody} (left : first.Continues second)
    (right : second.Continues third) : first.Continues third where
  code := right.code.trans left.code
  handlers := right.handlers.trans left.handlers
  adds := left.adds.trans (left.code ▸ right.adds)

/-- Whether a later state differs in nothing that is told but in that more places have a label. -/
structure Marks (body later : CodeBody) : Prop extends Continues body later where
  frames : later.frames = body.frames
  localVariables? : later.localVariables? = body.localVariables?
  annotations : later.annotations = body.annotations

theorem Marks.refl (body : CodeBody) : body.Marks body :=
  ⟨.refl body, rfl, rfl, rfl⟩

theorem Marks.trans {first second third : CodeBody} (left : first.Marks second)
    (right : second.Marks third) : first.Marks third where
  toContinues := left.toContinues.trans right.toContinues
  frames := right.frames.trans left.frames
  localVariables? := right.localVariables?.trans left.localVariables?
  annotations := right.annotations.trans left.annotations

theorem marks_of_mark {body later : CodeBody} {target source : Nat}
    (marked : body.mark target source = .ok later) :
    body.Marks later ∧ target ∈ later.labels := by
  simp only [mark, CodeArray.place, bind_eq_ok, pure_eq_ok] at marked
  rcases marked with ⟨label, placed, rfl⟩
  split at placed
  · cases placed
  · rename_i inside
    cases placed
    exact ⟨⟨⟨rfl, rfl, .insert (Nat.not_lt.mp inside) _⟩, rfl, rfl, rfl⟩, Std.HashSet.mem_insert_self⟩

/-- Whether all places that the parts of a body mention are marked. -/
structure IsMarked (image : ClassImage) (body : CodeBody) : Prop where
  frames : ClassImage.FramesMarked body.labels body.frames
  locals : ∀ offset, body.localVariables? = some offset → ∀ count : UInt16,
    image.input.u16 offset = .ok count →
      image.VariablesMarked body.labels (offset + 2) count.toNat
  annotations : ∀ note ∈ body.annotations, note.use.Fits ∧ ∀ range ∈ note.location.rangeList,
    range.start.toNat ∈ body.labels ∧ range.start.toNat + range.length.toNat ∈ body.labels

theorem Marks.isMarked {image : ClassImage} {body later : CodeBody} (marks : body.Marks later)
    (isMarked : body.IsMarked image) : later.IsMarked image where
  frames := marks.frames ▸ isMarked.frames.mono marks.labels
  locals := fun offset same count read =>
    (isMarked.locals offset (marks.localVariables? ▸ same) count read).mono marks.labels
  annotations := fun note member =>
    (isMarked.annotations note (marks.annotations ▸ member)).imp id fun marked range inside =>
      (marked range inside).imp (marks.labels _) (marks.labels _)

end CodeBody

namespace ClassImage

open CodeBody

variable {image : ClassImage} {body later : CodeBody} {offset count : Nat}

theorem marks_of_markHandlers (marked : image.markHandlers offset body count = .ok later) :
    body.Marks later ∧ image.HandlersMarked later.labels offset count := by
  induction count generalizing offset body with
  | zero =>
      cases marked
      exact ⟨.refl _, trivial⟩
  | succ count ih =>
      simp only [markHandlers, bind_eq_ok] at marked
      rcases marked with ⟨start, readStart, one, markedStart, stop, readStop, two, markedStop,
        handler, readHandler, three, markedHandler, others⟩
      rcases marks_of_mark markedStart with ⟨first, startIn⟩
      rcases marks_of_mark markedStop with ⟨second, stopIn⟩
      rcases marks_of_mark markedHandler with ⟨third, handlerIn⟩
      rcases ih others with ⟨rest, marked⟩
      refine ⟨first.trans (second.trans (third.trans rest)), ?_, marked⟩
      intro field member target read
      simp only [List.mem_cons, List.not_mem_nil, or_false] at member
      rcases member with rfl | rfl | rfl
      · rw [Nat.add_zero, readStart, Except.ok.injEq] at read
        exact read ▸ rest.labels _ (third.labels _ (second.labels _ startIn))
      · rw [readStop, Except.ok.injEq] at read
        exact read ▸ rest.labels _ (third.labels _ stopIn)
      · rw [readHandler, Except.ok.injEq] at read
        exact read ▸ rest.labels _ handlerIn

theorem marks_of_markLines (marked : image.markLines offset body count = .ok later) :
    body.Marks later := by
  induction count generalizing offset body with
  | zero =>
      cases marked
      exact .refl _
  | succ count ih =>
      simp only [markLines, bind_eq_ok] at marked
      rcases marked with ⟨start, -, one, markedStart, line, -, others⟩
      have rest := ih others
      exact (marks_of_mark markedStart).1.trans { rest with }

theorem marks_of_markVariables (marked : image.markVariables offset body count = .ok later) :
    body.Marks later ∧ image.VariablesMarked later.labels offset count := by
  induction count generalizing offset body with
  | zero =>
      cases marked
      exact ⟨.refl _, trivial⟩
  | succ count ih =>
      simp only [markVariables, bind_eq_ok] at marked
      rcases marked with ⟨start, readStart, one, markedStart, length, readLength, two, markedStop,
        others⟩
      rcases marks_of_mark markedStart with ⟨first, startIn⟩
      rcases marks_of_mark markedStop with ⟨second, stopIn⟩
      rcases ih others with ⟨rest, marked⟩
      refine ⟨first.trans (second.trans rest), ?_, marked⟩
      intro start' length' readStart' readLength'
      rw [readStart, Except.ok.injEq] at readStart'
      rw [readLength, Except.ok.injEq] at readLength'
      subst readStart' readLength'
      exact ⟨rest.labels _ (second.labels _ startIn), rest.labels _ stopIn⟩

theorem marks_of_frameValue {value : FrameValue} {next : Nat}
    (read : image.frameValue offset body = .ok (value, next, later)) :
    body.Marks later ∧ value.Survives ∧ ∀ label ∈ value.labels, label ∈ later.labels := by
  simp only [frameValue, bind_eq_ok] at read
  rcases read with ⟨tag, -, read⟩
  split at read
  case h_8 =>
    simp only [bind_eq_ok, pure_eq_ok] at read
    rcases read with ⟨name, found, same⟩
    cases same
    exact ⟨.refl _, survives_of_classAt found, by simp [FrameValue.labels]⟩
  case h_9 =>
    simp only [bind_eq_ok, pure_eq_ok] at read
    rcases read with ⟨target, -, one, marked, same⟩
    cases same
    rcases marks_of_mark marked with ⟨marks, inside⟩
    exact ⟨marks, trivial, by simpa [FrameValue.labels] using inside⟩
  case h_10 => cases read
  all_goals
    cases read
    exact ⟨.refl _, trivial, by simp [FrameValue.labels]⟩

theorem marks_of_frameValues {found values : List FrameValue} {next : Nat}
    (foundMarked : ValuesMarked body.labels found)
    (read : image.frameValues offset found body count = .ok (values, next, later)) :
    body.Marks later ∧ ValuesMarked later.labels values := by
  induction count generalizing offset found body with
  | zero =>
      cases read
      exact ⟨.refl _, fun value member => foundMarked value (List.mem_reverse.mp member)⟩
  | succ count ih =>
      simp only [frameValues, bind_eq_ok] at read
      rcases read with ⟨⟨value, middle, one⟩, readValue, others⟩
      rcases marks_of_frameValue readValue with ⟨first, valueMarked⟩
      have both : ValuesMarked one.labels (value :: found) :=
        List.forall_mem_cons.mpr ⟨valueMarked, fun other member =>
          (foundMarked other member).imp id fun marked label mentioned =>
            first.labels label (marked label mentioned)⟩
      rcases ih both others with ⟨rest, marked⟩
      exact ⟨first.trans rest, marked⟩

theorem marks_of_countedFrameValues {values : List FrameValue} {next : Nat}
    (read : image.countedFrameValues offset body = .ok (values, next, later)) :
    body.Marks later ∧ ValuesMarked later.labels values := by
  simp only [countedFrameValues, bind_eq_ok] at read
  rcases read with ⟨count, -, read⟩
  exact marks_of_frameValues (by simp [ValuesMarked]) read

theorem marks_of_frameEntry {entry : FrameEntry} (read : image.frameEntry offset body = .ok entry) :
    body.Marks entry.body ∧ ValuesMarked entry.body.labels entry.frame.values := by
  simp only [frameEntry, bind_eq_ok] at read
  rcases read with ⟨frameType, -, read⟩
  have none (labels : LabelSet) : ValuesMarked labels [] := by simp [ValuesMarked]
  have single {value : FrameValue} {labels : LabelSet}
      (marked : value.Survives ∧ ∀ label ∈ value.labels, label ∈ labels) : ValuesMarked labels [value] := by
    simpa [ValuesMarked] using marked
  split at read
  · cases read
    exact ⟨.refl _, none _⟩
  split at read
  · simp only [bind_eq_ok, pure_eq_ok] at read
    rcases read with ⟨⟨value, next, one⟩, readValue, rfl⟩
    exact (marks_of_frameValue readValue).imp id single
  split at read
  · cases read
  simp only [bind_eq_ok] at read
  rcases read with ⟨delta, -, read⟩
  split at read
  · simp only [bind_eq_ok, pure_eq_ok] at read
    rcases read with ⟨⟨value, next, one⟩, readValue, rfl⟩
    exact (marks_of_frameValue readValue).imp id single
  split at read
  · cases read
    exact ⟨.refl _, none _⟩
  split at read
  · cases read
    exact ⟨.refl _, none _⟩
  split at read
  · simp only [bind_eq_ok, pure_eq_ok] at read
    rcases read with ⟨⟨values, next, one⟩, readValues, rfl⟩
    exact marks_of_frameValues (none _) readValues
  · simp only [bind_eq_ok, pure_eq_ok] at read
    rcases read with ⟨⟨locals, next, one⟩, readLocals, ⟨stack, last, two⟩, readStack, rfl⟩
    rcases marks_of_countedFrameValues readLocals with ⟨first, localsMarked⟩
    rcases marks_of_countedFrameValues readStack with ⟨second, stackMarked⟩
    refine ⟨first.trans second, List.forall_mem_append.mpr ⟨?_, stackMarked⟩⟩
    exact fun value member => (localsMarked value member).imp id fun marked label mentioned =>
      second.labels label (marked label mentioned)

theorem marks_of_readFrames {previous? : Option Nat} {found frames : List (Label × Frame)}
    (foundMarked : FramesMarked body.labels found)
    (read : image.readFrames offset previous? found body count = .ok (frames, later)) :
    body.Marks later ∧ FramesMarked later.labels frames := by
  induction count generalizing offset previous? found body with
  | zero =>
      cases read
      exact ⟨.refl _, fun entry member => foundMarked entry (List.mem_reverse.mp member)⟩
  | succ count ih =>
      simp only [readFrames, bind_eq_ok] at read
      rcases read with ⟨entry, readEntry, read⟩
      cases previous?
      all_goals
        simp only [] at read
        split at read
        · cases read
        simp only [bind_eq_ok] at read
        rcases read with ⟨one, marked, others⟩
        rcases marks_of_frameEntry readEntry with ⟨first, valuesMarked⟩
        rcases marks_of_mark marked with ⟨second, -⟩
        have both (place : Label) : FramesMarked one.labels ((place, entry.frame) :: found) :=
          List.forall_mem_cons.mpr ⟨fun value member => (valuesMarked value member).imp id
            fun marked label mentioned => second.labels label (marked label mentioned),
            (foundMarked.mono first.labels).mono second.labels⟩
        rcases ih (both _) others with ⟨rest, framesMarked⟩
        exact ⟨(first.trans second).trans rest, framesMarked⟩

theorem marks_of_markRanges {source : Nat} {ranges : List CodeRange}
    (marked : markRanges source body ranges = .ok later) :
    body.Marks later ∧ ∀ range ∈ ranges,
      range.start.toNat ∈ later.labels ∧ range.start.toNat + range.length.toNat ∈ later.labels := by
  induction ranges generalizing body with
  | nil =>
      cases marked
      exact ⟨.refl _, by simp⟩
  | cons range ranges ih =>
      simp only [markRanges, List.foldlM_cons, bind_eq_ok] at marked
      rcases marked with ⟨two, ⟨one, markedStart, markedStop⟩, others⟩
      rcases marks_of_mark markedStart with ⟨first, startIn⟩
      rcases marks_of_mark markedStop with ⟨second, stopIn⟩
      rcases ih others with ⟨rest, rangesMarked⟩
      refine ⟨first.trans (second.trans rest), List.forall_mem_cons.mpr ⟨⟨?_, ?_⟩, rangesMarked⟩⟩
      · exact rest.labels _ (second.labels _ startIn)
      · exact rest.labels _ stopIn

theorem continues_of_markAnnotations {visible : Bool} (isMarked : body.IsMarked image)
    (marked : image.markAnnotations visible offset body count = .ok later) :
    body.Continues later ∧ later.IsMarked image := by
  induction count generalizing offset body with
  | zero =>
      cases marked
      exact ⟨.refl _, isMarked⟩
  | succ count ih =>
      simp only [markAnnotations, bind_eq_ok] at marked
      rcases marked with ⟨head, readHead, next, -, one, markedRanges, others⟩
      rcases marks_of_markRanges markedRanges with ⟨marks, rangesMarked⟩
      have before := marks.isMarked isMarked
      have after : ({ one with annotations := one.annotations.push head } : CodeBody).IsMarked image := by
        refine { before with annotations := fun note member => ?_ }
        rw [Array.mem_push] at member
        rcases member with old | rfl
        · exact before.annotations note old
        · exact ⟨(fits_of_typeAnnotationHead readHead).1, rangesMarked⟩
      rcases ih after others with ⟨rest, restMarked⟩
      exact ⟨marks.toContinues.trans { rest with }, restMarked⟩

theorem continues_of_markAttribute {options : ReadOptions} {entry : RawAttribute}
    (isMarked : body.IsMarked image) (marked : image.markAttribute options body entry = .ok later) :
    body.Continues later ∧ later.IsMarked image := by
  unfold markAttribute at marked
  split at marked
  · split at marked
    · cases marked
      exact ⟨.refl _, isMarked⟩
    · simp only [bind_eq_ok] at marked
      rcases marked with ⟨count, -, marked⟩
      have marks := marks_of_markLines marked
      exact ⟨marks.toContinues, marks.isMarked isMarked⟩
  · split at marked
    · cases marked
      exact ⟨.refl _, isMarked⟩
    · simp only [bind_eq_ok, pure_eq_ok] at marked
      rcases marked with ⟨count, readCount, one, marked, rfl⟩
      rcases marks_of_markVariables marked with ⟨marks, variablesMarked⟩
      refine ⟨{ marks.toContinues with }, { marks.isMarked isMarked with locals := ?_ }⟩
      rintro offset ⟨⟩ other read
      rw [readCount, Except.ok.injEq] at read
      exact read ▸ variablesMarked
  · split at marked
    · cases marked
      exact ⟨.refl _, isMarked⟩
    · cases marked
      exact ⟨⟨rfl, rfl, .refl _⟩, { isMarked with }⟩
  · split at marked
    · cases marked
      exact ⟨.refl _, isMarked⟩
    · simp only [bind_eq_ok, pure_eq_ok] at marked
      rcases marked with ⟨count, -, ⟨frames, one⟩, read, rfl⟩
      rcases marks_of_readFrames (by simp [FramesMarked]) read with ⟨marks, framesMarked⟩
      exact ⟨{ marks.toContinues with }, { marks.isMarked isMarked with frames := framesMarked }⟩
  · split at marked
    · cases marked
      exact ⟨.refl _, isMarked⟩
    · simp only [bind_eq_ok] at marked
      rcases marked with ⟨count, -, marked⟩
      exact continues_of_markAnnotations isMarked marked
  · split at marked
    · cases marked
      exact ⟨.refl _, isMarked⟩
    · simp only [bind_eq_ok] at marked
      rcases marked with ⟨count, -, marked⟩
      exact continues_of_markAnnotations isMarked marked
  · cases marked
    exact ⟨⟨rfl, rfl, .refl _⟩, { isMarked with }⟩

theorem continues_of_markAttributes {options : ReadOptions} {entries : List RawAttribute}
    (isMarked : body.IsMarked image)
    (marked : entries.foldlM (image.markAttribute options) body = .ok later) :
    body.Continues later ∧ later.IsMarked image := by
  induction entries generalizing body with
  | nil =>
      cases marked
      exact ⟨.refl _, isMarked⟩
  | cons entry entries ih =>
      simp only [List.foldlM_cons, bind_eq_ok] at marked
      rcases marked with ⟨one, first, others⟩
      rcases continues_of_markAttribute isMarked first with ⟨continues, oneMarked⟩
      rcases ih oneMarked others with ⟨rest, lastMarked⟩
      exact ⟨continues.trans rest, lastMarked⟩

/-- The first pass steps over the instructions, and then only adds labels. -/
theorem continues_of_codeBody {options : ReadOptions} {entry : RawAttribute}
    (found : image.codeBody options entry = .ok body) :
    ∃ start : CodeBody, image.markInstructions start.code start.code.start ∅ start.code.length =
        .ok (start.labels, start.code.stop) ∧ start.Continues body ∧ body.IsMarked image ∧
      image.HandlersMarked body.labels start.handlersOffset start.handlers := by
  simp only [codeBody, bind_eq_ok] at found
  rcases found with ⟨maxStack, -, maxLocals, -, length, -, found⟩
  split at found
  · cases found
  simp only [bind_eq_ok] at found
  rcases found with ⟨⟨labels, stop⟩, marksInstructions, found⟩
  split at found
  · cases found
  rename_i ends
  rw [not_not] at ends
  simp only [bind_eq_ok] at found
  rcases found with ⟨handlers, -, one, marksHandlers, ⟨attributes, last⟩, -, marked⟩
  rcases marks_of_markHandlers marksHandlers with ⟨marks, handlersMarked⟩
  have start : CodeBody.IsMarked image
      { maxStack, maxLocals, code := ⟨entry.offset + 8, length.toNat⟩, labels, handlers := handlers.toNat } :=
    ⟨by simp [FramesMarked], by simp, by simp⟩
  rcases continues_of_markAttributes (marks.isMarked start) marked with ⟨continues, isMarked⟩
  exact ⟨_, ends ▸ marksInstructions, marks.toContinues.trans continues, isMarked,
    handlersMarked.mono continues.labels⟩

/-- The first pass marks whatever is told as a place. -/
theorem codeBody_marks {options : ReadOptions} {entry : RawAttribute}
    (found : image.codeBody options entry = .ok body) :
    body.IsMarked image ∧ image.HandlersMarked body.labels body.handlersOffset body.handlers ∧
      ∃ labels, image.markInstructions body.code body.code.start ∅ body.code.length =
        .ok (labels, body.code.stop) ∧ ∀ label ∈ labels, label ∈ body.labels := by
  rcases continues_of_codeBody found with ⟨start, marks, continues, isMarked, handlersMarked⟩
  refine ⟨isMarked, ?_, start.labels, ?_, continues.labels⟩
  · rw [handlersOffset, continues.code, continues.handlers]
    exact handlersMarked
  · rw [continues.code]
    exact marks

/-- The annotations of instructions are those that the first pass finds. -/
theorem forall_instructionAnnotations {P : CodeAnnotation → Prop}
    (holds : ∀ note ∈ body.annotations, P note) :
    ∀ place, ∀ note ∈ (instructionAnnotations body).getD place #[], P note := by
  unfold instructionAnnotations
  rw [← Array.foldl_toList]
  simp only [← Array.mem_toList_iff] at holds
  generalize body.annotations.toList = list at holds
  have start : ∀ place, ∀ note ∈ (∅ : Std.HashMap Label (Array CodeAnnotation)).getD place #[],
      P note := by
    intro place note member
    rw [Std.HashMap.getD_empty] at member
    exact absurd member (Array.not_mem_empty _)
  generalize (∅ : Std.HashMap Label (Array CodeAnnotation)) = found at start
  induction list generalizing found with
  | nil => exact start
  | cons note rest ih =>
      rw [List.forall_mem_cons] at holds
      apply ih holds.2
      dsimp only
      split
      · split
        · intro place other member
          rw [Std.HashMap.getD_alter] at member
          split at member
          · rw [Option.getD_some] at member
            rcases Array.mem_push.mp member with before | rfl
            · exact start _ other (by rwa [Std.HashMap.getD_eq_getD_getElem?])
            · exact holds.1
          · exact start place other member
        · exact start
      · exact start

end ClassImage

end ClassFile
