import ClassFile.Proofs.Gating.Constructs
import ClassFile.Proofs.Image.Marks

/-!
# The first pass for less

What the first pass over a body adds at each of its steps depends on the code and on the file, and not on
what it has found before (`CodeBody.Adds`).  So a pass that is asked for less finds less, and the same of
what it is asked for (`ClassImage.codeBody_of_within`).
-/

namespace ClassFile

/-- Whether one reader is asked for no more than another one. -/
structure ReadOptions.Within (less more : ReadOptions) : Prop where
  api : less.api.number ≤ more.api.number
  skipCode : more.skipCode = true → less.skipCode = true
  skipDebug : more.skipDebug = true → less.skipDebug = true
  skipFrames : more.skipFrames = true → less.skipFrames = true
  decoder : less.decoder = more.decoder

theorem ReadOptions.Within.supports {less more : ReadOptions} (within : less.Within more)
    {required : Api} (known : less.api.supports required = true) : more.api.supports required = true := by
  have below := of_decide_eq_true known
  exact decide_eq_true (Nat.le_trans below within.api)

namespace CodeBody

/-! ### What is added -/

/-- What the first pass adds to what it has found: labels, lines at some of them, and annotations. -/
structure Addition where
  labels : List Label := []
  lines : List (Label × UInt16) := []
  annotations : List CodeAnnotation := []
  marked : ∀ entry ∈ lines, entry.1 ∈ labels := by simp

/-- The line numbers with one more. -/
def addLine (lines : Std.HashMap Label (Array UInt16)) (entry : Label × UInt16) :
    Std.HashMap Label (Array UInt16) :=
  lines.alter entry.1 fun known => some ((known.getD #[]).push entry.2)

/-- A body with something added. -/
def extend (body : CodeBody) (added : Addition) : CodeBody :=
  { body with
    labels := body.labels.insertMany added.labels
    lines := added.lines.foldl addLine body.lines
    annotations := body.annotations ++ added.annotations.toArray }

/-- One addition after another. -/
def Addition.append (first second : Addition) : Addition where
  labels := first.labels ++ second.labels
  lines := first.lines ++ second.lines
  annotations := first.annotations ++ second.annotations
  marked := fun entry member => (List.mem_append.mp member).elim
    (fun member => List.mem_append_left _ (first.marked entry member))
    (fun member => List.mem_append_right _ (second.marked entry member))

theorem extend_nothing (body : CodeBody) : body.extend {} = body := by
  simp [extend]

theorem extend_extend (body : CodeBody) (first second : Addition) :
    (body.extend first).extend second = body.extend (first.append second) := by
  simp [extend, Addition.append, Std.HashSet.insertMany_append]

/-- Whether a step of the first pass adds the same to every body with the given code.  Lines and
annotations are added only if the conditions hold. -/
def Adds (lines notes : Prop) {α : Type} (code : CodeArray) (run : CodeBody → Except ClassError α)
    (result : CodeBody → α) : Prop :=
  ∃ added : Addition, (added.lines ≠ [] → lines) ∧ (added.annotations ≠ [] → notes) ∧
    ∀ body, body.code = code → run body = .ok (result (body.extend added))

section Adds

variable {lines notes : Prop} {α β : Type} {code : CodeArray} {run : CodeBody → Except ClassError α}
  {result : CodeBody → α}

theorem Adds.pure (result : CodeBody → α) :
    Adds lines notes code (fun body => .ok (result body)) result :=
  ⟨{}, by simp, by simp, fun body _ => by rw [extend_nothing]⟩

theorem Adds.bind {first : CodeBody → Except ClassError α} {second : α → Except ClassError β}
    {last : CodeBody → β} (adds : Adds lines notes code first result)
    (next : Adds lines notes code (fun body => second (result body)) last) :
    Adds lines notes code (fun body => first body >>= second) last := by
  rcases adds with ⟨added, hasLines, hasNotes, ran⟩
  rcases next with ⟨more, moreLines, moreNotes, goesOn⟩
  refine ⟨added.append more, ?_, ?_, fun body same => ?_⟩
  · intro some
    by_cases none : added.lines = []
    · exact moreLines (by simpa [Addition.append, none] using some)
    · exact hasLines none
  · intro some
    by_cases none : added.annotations = []
    · exact moreNotes (by simpa [Addition.append, none] using some)
    · exact hasNotes none
  · show first body >>= second = _
    rw [ran body same, ok_bind, ← extend_extend]
    exact goesOn (body.extend added) same

/-- A step may look at the code. -/
theorem Adds.congr {other : CodeBody → Except ClassError α}
    (same : ∀ body, body.code = code → run body = other body)
    (adds : Adds lines notes code other result) : Adds lines notes code run result := by
  rcases adds with ⟨added, hasLines, hasNotes, ran⟩
  exact ⟨added, hasLines, hasNotes, fun body isCode => (same body isCode).trans (ran body isCode)⟩

/-- A step that does not look at the body. -/
theorem Adds.read {computed : Except ClassError β} {value : β}
    {second : CodeBody → β → Except ClassError α} (found : computed = .ok value)
    (next : Adds lines notes code (fun body => second body value) result) :
    Adds lines notes code (fun body => computed >>= second body) result := by
  subst found
  exact next

theorem mark_of_mark {body later other : CodeBody} {target source : Nat}
    (marked : body.mark target source = .ok later) (same : other.code = body.code) :
    other.mark target source = .ok (other.extend { labels := [target] }) := by
  simp only [mark, CodeArray.place, bind_eq_ok] at marked
  rcases marked with ⟨label, placed, -⟩
  split at placed
  · cases placed
  · rename_i inside
    rw [mark, CodeArray.place, same, if_neg inside]
    simp [extend, same, pure, Except.pure]

theorem adds_mark {body later : CodeBody} {target source : Nat}
    (marked : body.mark target source = .ok later) (isCode : body.code = code) :
    Adds lines notes code (fun other => other.mark target source) id :=
  ⟨{ labels := [target] }, by simp, by simp, fun _ same => mark_of_mark marked (same.trans isCode.symm)⟩

end Adds

end CodeBody

namespace ClassImage

open CodeBody

variable {image : ClassImage} {code : CodeArray} {body later : CodeBody} {offset count : Nat}
  {lines notes : Prop}

theorem adds_markHandlers (marked : image.markHandlers offset body count = .ok later)
    (isCode : body.code = code) :
    Adds lines notes code (fun other => image.markHandlers offset other count) id := by
  induction count generalizing offset body with
  | zero => exact .pure id
  | succ count ih =>
      simp only [markHandlers, bind_eq_ok] at marked
      rcases marked with ⟨start, readStart, one, markedStart, stop, readStop, two, markedStop,
        handler, readHandler, three, markedHandler, others⟩
      have first := (marks_of_mark markedStart).1.code.trans isCode
      have second := (marks_of_mark markedStop).1.code.trans first
      have third := (marks_of_mark markedHandler).1.code.trans second
      simp only [markHandlers]
      refine .read readStart ((adds_mark markedStart isCode).bind ?_)
      refine .read readStop ((adds_mark markedStop first).bind ?_)
      exact .read readHandler ((adds_mark markedHandler second).bind (ih others third))

theorem adds_markLines (marked : image.markLines offset body count = .ok later)
    (isCode : body.code = code) :
    Adds True notes code (fun other => image.markLines offset other count) id := by
  induction count generalizing offset body with
  | zero => exact .pure id
  | succ count ih =>
      simp only [markLines, bind_eq_ok] at marked
      rcases marked with ⟨start, readStart, one, markedStart, line, readLine, others⟩
      have first := (marks_of_mark markedStart).1.code.trans isCode
      have step (other : CodeBody) : image.markLines offset other (count + 1) =
          (do
            let one ← other.mark start.toNat offset
            .ok { one with lines := addLine one.lines (start.toNat, line) }) >>=
            fun next => image.markLines (offset + 4) next count := by
        rw [markLines, readStart, ok_bind]
        dsimp only
        cases other.mark start.toNat offset with
        | error cause => rfl
        | ok one => simp [readLine, addLine]
      have both : Adds True notes code (fun other => do
          let one ← other.mark start.toNat offset
          .ok { one with lines := addLine one.lines (start.toNat, line) }) id := by
        refine ⟨{ labels := [start.toNat], lines := [(start.toNat, line)] }, by simp, by simp, ?_⟩
        intro other same
        show other.mark start.toNat offset >>= _ = _
        rw [mark_of_mark markedStart (same.trans isCode.symm), ok_bind]
        rfl
      simp only [step]
      exact both.bind (ih others first)

theorem adds_markVariables (marked : image.markVariables offset body count = .ok later)
    (isCode : body.code = code) :
    Adds lines notes code (fun other => image.markVariables offset other count) id := by
  induction count generalizing offset body with
  | zero => exact .pure id
  | succ count ih =>
      simp only [markVariables, bind_eq_ok] at marked
      rcases marked with ⟨start, readStart, one, markedStart, length, readLength, two, markedStop,
        others⟩
      have first := (marks_of_mark markedStart).1.code.trans isCode
      have second := (marks_of_mark markedStop).1.code.trans first
      simp only [markVariables]
      refine .read readStart ((adds_mark markedStart isCode).bind ?_)
      exact .read readLength ((adds_mark markedStop first).bind (ih others second))

theorem adds_frameValue {value : FrameValue} {next : Nat}
    (read : image.frameValue offset body = .ok (value, next, later)) (isCode : body.code = code) :
    Adds lines notes code (fun other => image.frameValue offset other)
      (fun other => (value, next, other)) := by
  simp only [frameValue, bind_eq_ok] at read
  rcases read with ⟨tag, readTag, read⟩
  simp only [frameValue]
  refine .read readTag ?_
  split at read
  case h_8 =>
    simp only [bind_eq_ok, pure_eq_ok] at read
    rcases read with ⟨name, found, same⟩
    cases same
    exact .read found (.pure _)
  case h_9 =>
    simp only [bind_eq_ok, pure_eq_ok] at read
    rcases read with ⟨target, readTarget, one, marked, same⟩
    cases same
    exact .read readTarget ((adds_mark marked isCode).bind (.pure _))
  case h_10 => cases read
  all_goals
    cases read
    exact .pure _

theorem adds_frameValues {found values : List FrameValue} {next : Nat}
    (read : image.frameValues offset found body count = .ok (values, next, later))
    (isCode : body.code = code) :
    Adds lines notes code (fun other => image.frameValues offset found other count)
      (fun other => (values, next, other)) := by
  induction count generalizing offset found body with
  | zero =>
      cases read
      exact .pure _
  | succ count ih =>
      simp only [frameValues, bind_eq_ok] at read
      rcases read with ⟨⟨value, middle, one⟩, readValue, others⟩
      have first := (marks_of_frameValue readValue).1.code.trans isCode
      simp only [frameValues]
      exact (adds_frameValue readValue isCode).bind (ih others first)

theorem adds_countedFrameValues {values : List FrameValue} {next : Nat}
    (read : image.countedFrameValues offset body = .ok (values, next, later))
    (isCode : body.code = code) :
    Adds lines notes code (fun other => image.countedFrameValues offset other)
      (fun other => (values, next, other)) := by
  simp only [countedFrameValues, bind_eq_ok] at read
  rcases read with ⟨count, readCount, read⟩
  simp only [countedFrameValues]
  exact .read readCount (adds_frameValues read isCode)

theorem adds_frameEntry {entry : FrameEntry} (read : image.frameEntry offset body = .ok entry)
    (isCode : body.code = code) :
    Adds lines notes code (fun other => image.frameEntry offset other)
      (fun other => { entry with body := other }) := by
  simp only [frameEntry, bind_eq_ok] at read
  rcases read with ⟨frameType, readType, read⟩
  simp only [frameEntry]
  refine .read readType ?_
  split at read
  · rename_i same
    simp only [same, if_true]
    cases read
    exact .pure _
  rename_i notSame
  simp only [notSame, if_false]
  split at read
  · rename_i sameOne
    simp only [sameOne, if_true]
    simp only [bind_eq_ok, pure_eq_ok] at read
    rcases read with ⟨⟨value, next, one⟩, readValue, rfl⟩
    exact (adds_frameValue readValue isCode).bind (.pure _)
  rename_i notSameOne
  simp only [notSameOne, if_false]
  split at read
  · cases read
  rename_i wide
  simp only [wide, if_false]
  simp only [bind_eq_ok] at read
  rcases read with ⟨delta, readDelta, read⟩
  refine .read readDelta ?_
  split at read
  · rename_i sameOneWide
    simp only [sameOneWide, if_true]
    simp only [bind_eq_ok, pure_eq_ok] at read
    rcases read with ⟨⟨value, next, one⟩, readValue, rfl⟩
    exact (adds_frameValue readValue isCode).bind (.pure _)
  rename_i notSameOneWide
  simp only [notSameOneWide, if_false]
  split at read
  · rename_i chop
    simp only [chop, if_true]
    cases read
    exact .pure _
  rename_i notChop
  simp only [notChop, if_false]
  split at read
  · rename_i sameWide
    simp only [sameWide, if_true]
    cases read
    exact .pure _
  rename_i notSameWide
  simp only [notSameWide, if_false]
  split at read
  · rename_i append
    simp only [append, if_true]
    simp only [bind_eq_ok, pure_eq_ok] at read
    rcases read with ⟨⟨values, next, one⟩, readValues, rfl⟩
    exact (adds_frameValues readValues isCode).bind (.pure _)
  · rename_i full
    simp only [full, if_false]
    simp only [bind_eq_ok, pure_eq_ok] at read
    rcases read with ⟨⟨locals, next, one⟩, readLocals, ⟨stack, last, two⟩, readStack, rfl⟩
    have first := (marks_of_countedFrameValues readLocals).1.code.trans isCode
    refine (adds_countedFrameValues readLocals isCode).bind ?_
    dsimp only
    exact (adds_countedFrameValues readStack first).bind (.pure _)

theorem adds_readFrames {previous? : Option Nat} {found frames : List (Label × Frame)}
    (read : image.readFrames offset previous? found body count = .ok (frames, later))
    (isCode : body.code = code) :
    Adds lines notes code (fun other => image.readFrames offset previous? found other count)
      (fun other => (frames, other)) := by
  induction count generalizing offset previous? found body with
  | zero =>
      cases read
      exact .pure _
  | succ count ih =>
      simp only [readFrames, bind_eq_ok] at read
      rcases read with ⟨entry, readEntry, read⟩
      have first := (marks_of_frameEntry readEntry).1.code.trans isCode
      simp only [readFrames]
      refine (adds_frameEntry readEntry isCode).bind ?_
      have rest (position : Nat) {one : CodeBody} (marked : entry.body.mark position offset = .ok one)
          (others : image.readFrames entry.next (some position) ((position, entry.frame) :: found) one
            count = .ok (frames, later)) : Adds lines notes code (fun other : CodeBody => do
              let one ← other.mark position offset
              image.readFrames entry.next (some position) ((position, entry.frame) :: found) one count)
            (fun other => (frames, other)) :=
        (adds_mark marked first).bind (ih others ((marks_of_mark marked).1.code.trans first))
      cases previous?
      all_goals
        simp only [] at read ⊢
        split at read
        · cases read
        rename_i inside
        rw [first] at inside
        simp only [bind_eq_ok] at read
        rcases read with ⟨one, marked, others⟩
        exact (rest _ marked others).congr fun other same => by rw [same, if_neg inside]

theorem adds_markRanges {source : Nat} {ranges : List CodeRange}
    (marked : markRanges source body ranges = .ok later) (isCode : body.code = code) :
    Adds lines notes code (fun other => markRanges source other ranges) id := by
  induction ranges generalizing body with
  | nil =>
      cases marked
      exact .pure id
  | cons range ranges ih =>
      simp only [markRanges, List.foldlM_cons, bind_eq_ok] at marked
      rcases marked with ⟨two, ⟨one, markedStart, markedStop⟩, others⟩
      have first := (marks_of_mark markedStart).1.code.trans isCode
      have second := (marks_of_mark markedStop).1.code.trans first
      simp only [markRanges, List.foldlM_cons]
      refine ((adds_mark markedStart isCode).bind (adds_mark markedStop first)).bind ?_
      exact ih others second

theorem adds_markAnnotations {visible : Bool}
    (marked : image.markAnnotations visible offset body count = .ok later) (isCode : body.code = code) :
    Adds lines True code (fun other => image.markAnnotations visible offset other count) id := by
  induction count generalizing offset body with
  | zero => exact .pure id
  | succ count ih =>
      simp only [markAnnotations, bind_eq_ok] at marked
      rcases marked with ⟨head, readHead, next, skipped, one, markedRanges, others⟩
      have first := (marks_of_markRanges markedRanges).1.code.trans isCode
      simp only [markAnnotations]
      refine .read readHead (.read skipped ((adds_markRanges markedRanges isCode).bind ?_))
      have noted : Adds lines True code (fun other : CodeBody =>
          .ok { other with annotations := other.annotations.push head }) id :=
        ⟨{ annotations := [head] }, by simp, by simp, fun other _ => by simp [extend]⟩
      show Adds lines True code (fun other : CodeBody => (.ok { other with annotations := other.annotations.push head } : Except ClassError CodeBody) >>= fun last =>
        image.markAnnotations visible next last count) id
      exact noted.bind (ih others first)

end ClassImage

/-! ### Bodies with less -/

namespace CodeBody

/-- Whether a body is what is found in place of another one when less is asked for. -/
structure IsLeft (options : ReadOptions) (more less : CodeBody) : Prop where
  maxStack : less.maxStack = more.maxStack
  maxLocals : less.maxLocals = more.maxLocals
  code : less.code = more.code
  handlers : less.handlers = more.handlers
  common : less.common = more.common
  lines : less.lines = if options.skipDebug then ∅ else more.lines
  localVariables? : less.localVariables? = if options.skipDebug then none else more.localVariables?
  variableTypes? : less.variableTypes? = if options.skipDebug then none else more.variableTypes?
  frames : less.frames = if options.skipFrames then [] else more.frames
  annotations : less.annotations = if options.api.supports .v5 then more.annotations else #[]
  labels : ∀ label ∈ less.labels, label ∈ more.labels
  lined : ∀ label ∉ less.labels, less.lines[label]? = none

variable {options : ReadOptions} {more less later : CodeBody} {lines notes : Prop}

theorem getElem?_foldl_addLine {lines : Std.HashMap Label (Array UInt16)}
    {added : List (Label × UInt16)} {label : Label} (absent : ∀ entry ∈ added, entry.1 ≠ label) :
    (added.foldl addLine lines)[label]? = lines[label]? := by
  induction added generalizing lines with
  | nil => rfl
  | cons entry rest ih =>
      rw [List.forall_mem_cons] at absent
      rw [List.foldl_cons, ih absent.2, addLine, Std.HashMap.getElem?_alter,
        if_neg (by simpa using absent.1)]

/-- Both find the same more, where it is asked for. -/
theorem IsLeft.extend_both (left : more.IsLeft options less) {added : Addition}
    (hasLines : added.lines ≠ [] → options.skipDebug = false)
    (hasNotes : added.annotations ≠ [] → options.api.supports .v5 = true) :
    (more.extend added).IsLeft options (less.extend added) := by
  refine { left with
    lines := ?_, annotations := ?_, labels := fun label member => ?_, lined := fun label absent => ?_ }
  · by_cases none : added.lines = []
    · simpa [extend, none] using left.lines
    · simp [extend, left.lines, hasLines none]
  · by_cases none : added.annotations = []
    · simpa [extend, none] using left.annotations
    · simp [extend, left.annotations, hasNotes none]
  · simp only [extend, Std.HashSet.mem_insertMany_list] at member ⊢
    exact member.imp (left.labels label) id
  · simp only [extend, Std.HashSet.mem_insertMany_list, not_or] at absent
    have notAdded : ∀ entry ∈ added.lines, entry.1 ≠ label := by
      rintro entry member rfl
      exact absent.2 (by simpa using added.marked entry member)
    rw [extend, getElem?_foldl_addLine notAdded]
    exact left.lined label absent.1

/-- Only one finds more, where the other one is not asked for it. -/
theorem IsLeft.extend_more (left : more.IsLeft options less) {added : Addition}
    (hasLines : added.lines ≠ [] → options.skipDebug = true)
    (hasNotes : added.annotations ≠ [] → options.api.supports .v5 = false) :
    (more.extend added).IsLeft options less := by
  refine { left with lines := ?_, annotations := ?_, labels := fun label member => ?_ }
  · by_cases none : added.lines = []
    · simpa [extend, none] using left.lines
    · simp [left.lines, hasLines none]
  · by_cases none : added.annotations = []
    · simpa [extend, none] using left.annotations
    · simp [left.annotations, hasNotes none]
  · simp only [extend, Std.HashSet.mem_insertMany_list]
    exact .inl (left.labels label member)

theorem IsLeft.adds_both {α : Type} {run : CodeBody → Except ClassError α} {result : CodeBody → α}
    {value : α} (left : more.IsLeft options less) (adds : Adds lines notes more.code run result)
    (ran : run more = .ok value) (hasLines : lines → options.skipDebug = false)
    (hasNotes : notes → options.api.supports .v5 = true) :
    ∃ moreLater lessLater, value = result moreLater ∧ run less = .ok (result lessLater) ∧
      moreLater.IsLeft options lessLater := by
  rcases adds with ⟨added, linesAdded, notesAdded, goesOn⟩
  refine ⟨_, _, ?_, goesOn less left.code, left.extend_both (fun some => hasLines (linesAdded some))
    fun some => hasNotes (notesAdded some)⟩
  rw [goesOn more rfl] at ran
  exact (Except.ok.inj ran).symm

theorem IsLeft.adds_more {α : Type} {run : CodeBody → Except ClassError α} {result : CodeBody → α}
    {value : α} (left : more.IsLeft options less) (adds : Adds lines notes more.code run result)
    (ran : run more = .ok value) (hasLines : lines → options.skipDebug = true)
    (hasNotes : notes → options.api.supports .v5 = false) :
    ∃ moreLater, value = result moreLater ∧ moreLater.IsLeft options less := by
  rcases adds with ⟨added, linesAdded, notesAdded, goesOn⟩
  refine ⟨_, ?_, left.extend_more (fun some => hasLines (linesAdded some))
    fun some => hasNotes (notesAdded some)⟩
  rw [goesOn more rfl] at ran
  exact (Except.ok.inj ran).symm

end CodeBody

namespace ClassImage

open CodeBody

variable {image : ClassImage} {weak strong : ReadOptions} {more less later : CodeBody}
  {entry : RawAttribute}

theorem isLeft_of_markTypeAnnotations (within : weak.Within strong) (left : more.IsLeft weak less)
    {visible : Bool} {offset : Nat} (marked : (do
      if ! strong.api.supports .v5 then return more
      let count ← image.input.u16 offset
      image.markAnnotations visible (offset + 2) more count.toNat) = .ok later) :
    ∃ lessLater, (do
      if ! weak.api.supports .v5 then return less
      let count ← image.input.u16 offset
      image.markAnnotations visible (offset + 2) less count.toNat) = .ok lessLater ∧
        later.IsLeft weak lessLater := by
  cases asked : weak.api.supports .v5 with
  | true =>
      rw [within.supports asked] at marked
      simp only [Bool.not_true, Bool.false_eq_true, if_false, bind_eq_ok] at marked ⊢
      rcases marked with ⟨count, readCount, marked⟩
      have adds : Adds False True more.code (fun other =>
          image.markAnnotations visible (offset + 2) other count.toNat) id :=
        adds_markAnnotations marked rfl
      rcases left.adds_both adds marked False.elim fun _ => asked
        with ⟨_, lessLater, rfl, ran, isLeft⟩
      exact ⟨lessLater, ⟨count, readCount, ran⟩, isLeft⟩
  | false =>
      simp only [Bool.not_false, if_true, pure_eq_ok]
      refine ⟨less, rfl, ?_⟩
      split at marked
      · cases marked
        exact left
      · simp only [bind_eq_ok] at marked
        rcases marked with ⟨count, -, marked⟩
        have adds : Adds False True more.code (fun other =>
            image.markAnnotations visible (offset + 2) other count.toNat) id :=
          adds_markAnnotations marked rfl
        rcases left.adds_more adds marked False.elim fun _ => asked with ⟨_, rfl, isLeft⟩
        exact isLeft

theorem isLeft_of_markLines (within : weak.Within strong) (left : more.IsLeft weak less) {offset : Nat}
    (marked : (do
      if strong.skipDebug then return more
      let count ← image.input.u16 offset
      image.markLines (offset + 2) more count.toNat) = .ok later) :
    ∃ lessLater, (do
      if weak.skipDebug then return less
      let count ← image.input.u16 offset
      image.markLines (offset + 2) less count.toNat) = .ok lessLater ∧
        later.IsLeft weak lessLater := by
  have adds {count : UInt16} (marked : image.markLines (offset + 2) more count.toNat = .ok later) :
      Adds True False more.code (fun other => image.markLines (offset + 2) other count.toNat) id :=
    adds_markLines marked rfl
  cases asked : weak.skipDebug with
  | false =>
      rw [Bool.eq_false_iff.mpr (mt within.skipDebug (by simp [asked]))] at marked
      simp only [Bool.false_eq_true, if_false, bind_eq_ok] at marked ⊢
      rcases marked with ⟨count, readCount, marked⟩
      rcases left.adds_both (adds marked) marked (fun _ => asked) False.elim
        with ⟨_, lessLater, rfl, ran, isLeft⟩
      exact ⟨lessLater, ⟨count, readCount, ran⟩, isLeft⟩
  | true =>
      simp only [if_true, pure_eq_ok]
      refine ⟨less, rfl, ?_⟩
      split at marked
      · cases marked
        exact left
      · simp only [bind_eq_ok] at marked
        rcases marked with ⟨count, -, marked⟩
        rcases left.adds_more (adds marked) marked (fun _ => asked) False.elim with ⟨_, rfl, isLeft⟩
        exact isLeft

theorem isLeft_of_markVariables (within : weak.Within strong) (left : more.IsLeft weak less)
    {offset : Nat} (marked : (do
      if strong.skipDebug then return more
      let count ← image.input.u16 offset
      let body ← image.markVariables (offset + 2) more count.toNat
      return { body with localVariables? := some offset }) = .ok later) :
    ∃ lessLater, (do
      if weak.skipDebug then return less
      let count ← image.input.u16 offset
      let body ← image.markVariables (offset + 2) less count.toNat
      return { body with localVariables? := some offset }) = .ok lessLater ∧
        later.IsLeft weak lessLater := by
  have adds {count : UInt16} {body : CodeBody}
      (marked : image.markVariables (offset + 2) more count.toNat = .ok body) :
      Adds False False more.code (fun other => image.markVariables (offset + 2) other count.toNat) id :=
    adds_markVariables marked rfl
  cases asked : weak.skipDebug with
  | false =>
      rw [Bool.eq_false_iff.mpr (mt within.skipDebug (by simp [asked]))] at marked
      simp only [Bool.false_eq_true, if_false, bind_eq_ok, pure_eq_ok] at marked ⊢
      rcases marked with ⟨count, readCount, one, marked, rfl⟩
      rcases left.adds_both (adds marked) marked False.elim False.elim
        with ⟨_, lessLater, rfl, ran, isLeft⟩
      refine ⟨_, ⟨count, readCount, lessLater, ran, rfl⟩, { isLeft with localVariables? := ?_ }⟩
      simp [asked]
  | true =>
      simp only [if_true, pure_eq_ok]
      refine ⟨less, rfl, ?_⟩
      split at marked
      · cases marked
        exact left
      · simp only [bind_eq_ok, pure_eq_ok] at marked
        rcases marked with ⟨count, -, one, marked, rfl⟩
        rcases left.adds_more (adds marked) marked False.elim False.elim with ⟨_, rfl, isLeft⟩
        exact { isLeft with localVariables? := by simpa [asked] using isLeft.localVariables? }

theorem isLeft_of_readFrames (within : weak.Within strong) (left : more.IsLeft weak less)
    {offset : Nat} (marked : (do
      if strong.skipFrames then return more
      let count ← image.input.u16 offset
      let found ← image.readFrames (offset + 2) none [] more count.toNat
      return { found.2 with frames := found.1 }) = .ok later) :
    ∃ lessLater, (do
      if weak.skipFrames then return less
      let count ← image.input.u16 offset
      let found ← image.readFrames (offset + 2) none [] less count.toNat
      return { found.2 with frames := found.1 }) = .ok lessLater ∧ later.IsLeft weak lessLater := by
  have adds {count : UInt16} {frames : List (Label × Frame)} {body : CodeBody}
      (marked : image.readFrames (offset + 2) none [] more count.toNat = .ok (frames, body)) :
      Adds False False more.code (fun other => image.readFrames (offset + 2) none [] other count.toNat)
        (fun other => (frames, other)) :=
    adds_readFrames marked rfl
  cases asked : weak.skipFrames with
  | false =>
      rw [Bool.eq_false_iff.mpr (mt within.skipFrames (by simp [asked]))] at marked
      simp only [Bool.false_eq_true, if_false, bind_eq_ok, pure_eq_ok] at marked ⊢
      rcases marked with ⟨count, readCount, ⟨frames, one⟩, marked, rfl⟩
      rcases left.adds_both (adds marked) marked False.elim False.elim
        with ⟨_, lessLater, same, ran, isLeft⟩
      cases same
      refine ⟨_, ⟨count, readCount, _, ran, rfl⟩, { isLeft with frames := ?_ }⟩
      simp [asked]
  | true =>
      simp only [if_true, pure_eq_ok]
      refine ⟨less, rfl, ?_⟩
      split at marked
      · cases marked
        exact left
      · simp only [bind_eq_ok, pure_eq_ok] at marked
        rcases marked with ⟨count, -, ⟨frames, one⟩, marked, rfl⟩
        rcases left.adds_more (adds marked) marked False.elim False.elim with ⟨_, same, isLeft⟩
        cases same
        exact { isLeft with frames := by simpa [asked] using isLeft.frames }

theorem isLeft_of_markAttribute (within : weak.Within strong) (left : more.IsLeft weak less)
    (marked : image.markAttribute strong more entry = .ok later) :
    ∃ lessLater, image.markAttribute weak less entry = .ok lessLater ∧
      later.IsLeft weak lessLater := by
  unfold markAttribute at marked ⊢
  split at marked
  · exact isLeft_of_markLines within left marked
  · exact isLeft_of_markVariables within left marked
  · cases asked : weak.skipDebug with
    | false =>
        rw [Bool.eq_false_iff.mpr (mt within.skipDebug (by simp [asked]))] at marked
        cases marked
        exact ⟨_, rfl, { left with variableTypes? := by simp [asked] }⟩
    | true =>
        refine ⟨less, rfl, ?_⟩
        split at marked
        all_goals
          cases marked
          exact { left with variableTypes? := by simpa [asked] using left.variableTypes? }
  · exact isLeft_of_readFrames within left marked
  · exact isLeft_of_markTypeAnnotations within left marked
  · exact isLeft_of_markTypeAnnotations within left marked
  · cases marked
    exact ⟨_, rfl, { left with common := by rw [left.common] }⟩

theorem isLeft_of_markAttributes (within : weak.Within strong) {entries : List RawAttribute}
    (left : more.IsLeft weak less)
    (marked : entries.foldlM (image.markAttribute strong) more = .ok later) :
    ∃ lessLater, entries.foldlM (image.markAttribute weak) less = .ok lessLater ∧
      later.IsLeft weak lessLater := by
  induction entries generalizing more less with
  | nil =>
      cases marked
      exact ⟨less, rfl, left⟩
  | cons entry entries ih =>
      simp only [List.foldlM_cons, bind_eq_ok] at marked ⊢
      rcases marked with ⟨one, first, others⟩
      rcases isLeft_of_markAttribute within left first with ⟨oneLess, firstLess, oneLeft⟩
      rcases ih oneLeft others with ⟨lessLater, othersLess, isLeft⟩
      exact ⟨lessLater, ⟨oneLess, firstLess, othersLess⟩, isLeft⟩

/-- A first pass that is asked for less finds what is left of a body. -/
theorem codeBody_of_within (within : weak.Within strong)
    (found : image.codeBody strong entry = .ok more) :
    ∃ less, image.codeBody weak entry = .ok less ∧ more.IsLeft weak less := by
  simp only [codeBody, bind_eq_ok] at found
  rcases found with ⟨maxStack, readStack, maxLocals, readLocals, length, readLength, found⟩
  split at found
  · cases found
  rename_i fits
  simp only [bind_eq_ok] at found
  rcases found with ⟨⟨labels, stop⟩, marksInstructions, found⟩
  split at found
  · cases found
  rename_i ends
  simp only [bind_eq_ok] at found
  rcases found with ⟨handlers, readHandlers, one, marksHandlers, ⟨attributes, last⟩, readAttributes,
    marked⟩
  obtain ⟨first, isFirst⟩ : ∃ first : CodeBody, first =
      { maxStack, maxLocals, code := ⟨entry.offset + 8, length.toNat⟩, labels,
        handlers := handlers.toNat } := ⟨_, rfl⟩
  rw [← isFirst] at marksHandlers
  have nothing : first.IsLeft weak first := by
    subst isFirst
    constructor <;> simp
  have adds : Adds False False first.code
      (fun other => image.markHandlers first.handlersOffset other handlers.toNat) id :=
    adds_markHandlers marksHandlers rfl
  rcases nothing.adds_both adds marksHandlers False.elim False.elim
    with ⟨_, oneLess, rfl, marksLess, oneLeft⟩
  rcases isLeft_of_markAttributes within oneLeft marked with ⟨less, markedLess, isLeft⟩
  have same : oneLess.handlersOffset = one.handlersOffset := by
    rw [handlersOffset, handlersOffset, oneLeft.code]
  refine ⟨less, ?_, isLeft⟩
  simp only [codeBody, readStack, readLocals, readLength, ok_bind, if_neg fits, marksInstructions,
    if_neg ends, readHandlers, ← isFirst, marksLess, id, same, readAttributes, markedLess]

end ClassImage

end ClassFile
