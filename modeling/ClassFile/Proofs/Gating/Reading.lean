import ClassFile.Proofs.Gating.Bodies

/-!
# What a reader tells is asked for

Whatever a reader tells, to its end or up to a fault, is something that it is asked to tell
(`ClassImage.tells_script`): it came with the version of the listener or with one before, and it is none
of what the reader leaves out.
-/

namespace ClassFile

open Item

namespace Item

/-- Whether a reader is asked to tell all that an item tells. -/
def IsAskedOf (options : ReadOptions) (item : Item) : Prop :=
  ∀ event ∈ item.events, options.tells event = true

variable {options : ReadOptions}

theorem isAskedOf_event {event : Event} (told : options.tells event = true) :
    (Item.event event).IsAskedOf options := by
  simpa [IsAskedOf, events] using told

theorem isAskedOf_scope {opening : Opening} {body : List Item}
    (told : options.tells (.enter opening) = true) (inside : ∀ item ∈ body, item.IsAskedOf options) :
    (Item.scope opening body).IsAskedOf options := by
  rw [IsAskedOf, events, List.forall_mem_cons, List.forall_mem_append, forall_mem_allEvents]
  exact ⟨told, inside, by simpa using ReadOptions.tells_first rfl rfl⟩

theorem isAskedOf_fault (cause : ClassError) : (Item.fault cause).IsAskedOf options := by
  simp [IsAskedOf, events]

theorem allows_isAskedOf (options : ReadOptions) :
    Allows options (fun _ => True) (IsAskedOf options) where
  event := fun _ _ _ told => isAskedOf_event told
  scope := fun _ _ _ _ told inside => isAskedOf_scope told inside
  fault := isAskedOf_fault

theorem Allows.mono {options : ReadOptions} {known other : Label → Prop} {P : Item → Prop}
    (allows : Allows options known P) (weaker : ∀ label, other label → known label) :
    Allows options other P where
  event := fun event noVisit inside =>
    allows.event event noVisit fun label mentioned => weaker label (inside label mentioned)
  scope := fun opening body notMethod inside =>
    allows.scope opening body notMethod fun label mentioned => weaker label (inside label mentioned)
  fault := allows.fault

end Item

namespace ClassImage

open Emit ReadOptions

variable {image : ClassImage} {options : ReadOptions} {P : Item → Prop}

/-- A body has nothing that was not asked for. -/
theorem isLeft_of_codeBody {entry : RawAttribute} {body : CodeBody}
    (found : image.codeBody options entry = .ok body) : body.IsLeft options body := by
  have within : options.Within options := ⟨Nat.le_refl _, id, id, id, rfl⟩
  rcases codeBody_of_within within found with ⟨less, foundLess, left⟩
  obtain rfl : body = less := Except.ok.inj (found.symm.trans foundLess)
  exact left

section Body

variable (allows : Allows options (fun _ => True) P)
  (visit : ∀ label, P (instructionItem (.label label)))
include allows

theorem allows_lines {body : CodeBody} (left : body.IsLeft options body) {position : Label}
    {line : UInt16} (member : line ∈ (body.lines.getD position #[]).toList) :
    P (instructionItem (.line line position)) := by
  cases asked : options.skipDebug with
  | true =>
      have none := left.lines
      rw [asked, if_pos rfl] at none
      rw [none, Std.HashMap.getD_empty] at member
      simp at member
  | false =>
      have told : options.tells (.methodItem (.instruction (.line line position))) = true :=
        tells_first rfl asked
      exact allows.event _ rfl (fun _ _ => trivial) told

theorem allows_frame {body : CodeBody} (left : body.IsLeft options body) {entry : Label × Frame}
    (member : entry ∈ body.frames) : P (instructionItem (.frame entry.2)) := by
  cases asked : options.skipFrames with
  | true =>
      have none := left.frames
      rw [asked, if_pos rfl] at none
      simp [none] at member
  | false =>
      have told : options.tells (.methodItem (.instruction (.frame entry.2))) = true :=
        tells_first rfl asked
      exact allows.event _ rfl (fun _ _ => trivial) told

theorem allows_note {body : CodeBody} (left : body.IsLeft options body) {note : CodeAnnotation}
    (member : note ∈ body.annotations) {opening : Opening} (notMethod : opening.isMethod = false)
    (came : opening.since = .v5) :
    P (.scope opening (image.tellValues note.valuesOffset).collect.1) := by
  cases known : options.api.supports .v5 with
  | true =>
      exact allows_values allows notMethod (fun _ _ => trivial) (tells_of_supports known came rfl) _
  | false =>
      have none := left.annotations
      rw [known, if_neg Bool.false_ne_true] at none
      simp [none] at member

theorem allows_instruction {code : CodeArray} {pc : Nat} {found : Instruction × Nat}
    (read : image.readInstruction options.api code pc = .ok found) : P (instructionItem found.1) := by
  have accepted := readInstruction_of_readInstruction read options.api
  cases refused : (found.1.usesDynamicConstant && ! options.api.supports .v7) with
  | true =>
      rw [read, refused, if_pos rfl] at accepted
      cases accepted
  | false =>
      exact allows.event _ (visit?_of_readInstruction read) (fun _ _ => trivial)
        (tells_of_readInstruction read refused)

include visit

theorem only_tellInstructions {body : CodeBody} (left : body.IsLeft options body) {pc fuel : Nat}
    {frames : List (Label × Frame)} (inside : ∀ entry ∈ frames, entry ∈ body.frames) :
    Only P (image.tellInstructions options.api body (instructionAnnotations body) pc frames fuel) := by
  induction fuel generalizing pc frames with
  | zero =>
      unfold tellInstructions
      split
      · exact Only.throw _
      · exact Only.pure _
  | succ fuel ih =>
      unfold tellInstructions
      split
      · refine (Only.lift _).bind fun position => Only.bind ?_ fun _ => ?_
        · unfold tellLabel
          split
          · exact (Only.tell (visit position)).bind fun _ => Only.forM fun line member =>
              Only.tell (allows_lines allows left member)
          · exact Only.pure _
        have framesTold := emits_tellFrames position frames
        refine (framesTold.only fun item member => ?_).bind_tells fun before rest after told => ?_
        · rcases List.mem_map.mp member with ⟨entry, isFrame, rfl⟩
          exact allows_frame allows left (inside entry ((List.takeWhile_prefix _).subset isFrame))
        rcases framesTold.tells_iff.mp told with ⟨rfl, -⟩
        refine Only.bind_lift fun found read => ?_
        refine (Only.tell (allows_instruction allows read)).bind fun _ => Only.bind ?_ fun _ => ?_
        · refine Only.forM fun note member => only_tellCodeNote ?_
          have each := @forall_instructionAnnotations body
            (fun note => P (.scope (.annotateInstruction note.use)
              (image.tellValues note.valuesOffset).collect.1))
            (fun note isNote => allows_note allows left isNote rfl rfl)
          exact each position note (Array.mem_toList_iff.mp member)
        · exact ih fun entry member => inside entry ((List.dropWhile_suffix _).subset member)
      · exact Only.pure _

/-- The body of a method is told by what a reader is asked for and by visits of labels. -/
theorem only_tellCode (asked : options.skipCode = false) (entry : RawAttribute) :
    Only P (image.tellCode options entry) := by
  have start : options.tells (.methodItem .code) = true := tells_first rfl asked
  refine Only.bind_lift fun body found => ?_
  have left := isLeft_of_codeBody found
  rcases codeBody_marks found with ⟨isMarked, handlersMarked, -⟩
  have inBody : Allows options (· ∈ body.labels) P := allows.mono fun _ _ => trivial
  refine (Only.tell (allows.plain rfl start)).bind fun _ => ?_
  refine (only_tellHandlers inBody handlersMarked).bind fun _ => ?_
  refine (only_tellHandlerAnnotations fun note isNote =>
    allows_note allows left isNote rfl rfl).bind fun _ => ?_
  refine (only_tellInstructions allows visit left fun _ => id).bind fun _ => ?_
  refine Only.guarded (fun _ => Only.tell (visit _)) ?_
  refine (only_tellVariableTable (fun some => ?_) isMarked).bind fun _ => ?_
  · refine allows_localVariable inBody ?_
    have locals := left.localVariables?
    by_contra skipped
    rw [Bool.not_eq_false] at skipped
    rw [skipped, if_pos rfl] at locals
    simp [locals] at some
  refine (only_tellVariableAnnotations (fun note isNote _ _ =>
    allows_note allows left isNote rfl rfl) isMarked _).bind fun _ => ?_
  refine (only_tellOthers allows true body.common).bind fun _ => ?_
  exact Only.tell (allows.plain rfl (tells_first rfl rfl))

theorem only_tellMethodBody (attributes : MethodAttributes) :
    Only P (image.tellMethodBody options attributes) := by
  rw [tellMethodBody_eq]
  refine Only.bind ?_ fun _ => ?_
  · unfold tellMethodFront
    refine Only.guarded (fun asked => only_tellIfPresent fun _ => (Only.lift _).bind fun _ => ?_) ?_
    · rw [Bool.and_eq_true, Bool.not_eq_true'] at asked
      exact only_tellParameters (allows_parameter allows asked.1 asked.2) _ _
    refine (only_tellDefault allows _).bind fun _ => ?_
    refine (only_tellAnnotations allows _).bind fun _ => ?_
    refine (only_tellIfPresent (only_tellParameterAnnotations allows true)).bind fun _ => ?_
    refine (only_tellIfPresent (only_tellParameterAnnotations allows false)).bind fun _ => ?_
    exact only_tellOthers allows false attributes.common
  · cases asked : options.skipCode with
    | true => exact Only.pure ()
    | false =>
        cases attributes.code? with
        | none => exact Only.pure ()
        | some entry => exact only_tellCode allows visit asked entry

end Body

theorem isAskedOf_label (label : Label) : (instructionItem (.label label)).IsAskedOf options :=
  isAskedOf_event (tells_first rfl rfl)

/-- Whatever a reader tells is something that it is asked to tell. -/
theorem tells_script (image : ClassImage) (options : ReadOptions) :
    ∀ event ∈ allEvents (image.script options), options.tells event = true := by
  rw [forall_mem_allEvents]
  have allows := allows_isAskedOf options
  refine allowed_collect allows (only_tell allows fun header attributes => ?_)
  refine isAskedOf_scope (tells_first rfl rfl) (allowed_collect allows ?_)
  exact only_tellMethodBody allows isAskedOf_label attributes

end ClassImage

end ClassFile
