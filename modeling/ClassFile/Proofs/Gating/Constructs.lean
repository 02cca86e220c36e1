import ClassFile.Image.Annotations

/-!
# What a listener asks for

Every event came with a version of the protocol.  A consumer knows the events that came with its version
or with one before (`Event.IsKnownTo`).  What a reader is asked to tell leaves out, besides what is not
known, debug information, frames and bodies if they are not wanted (`ReadOptions.tells`).
-/

namespace ClassFile

/-- The version that a scope came with. -/
def Opening.since : Opening → Api
  | .moduleScope _ => .v6
  | .component _ => .v8
  | .annotateType _ | .annotateInstruction _ | .annotateTryCatch _ | .annotateLocal .. => .v5
  | .field _ | .method _ | .annotate .. | .annotationDefault | .annotateParameter .. | .nested ..
  | .array _ => .v4

/-- The version that an event of the class scope came with. -/
def ClassItem.since : ClassItem → Api
  | .nestHost _ | .nestMember _ => .v7
  | .permittedSubclass _ => .v9
  | .header _ | .source .. | .outerClass .. | .innerClass _ => .v4

/-- The version that an instruction needs. -/
def Instruction.since (instruction : Instruction) : Api :=
  if instruction.usesDynamicConstant then .v7 else .v4

/-- The version that an event of the method scope came with. -/
def MethodItem.since : MethodItem → Api
  | .parameter _ => .v5
  | .instruction content => content.since
  | .annotableParameterCount .. | .code | .tryCatch _ | .localVariable _ | .maxs .. => .v4

namespace Event

/-- The version that an event came with. -/
def since : Event → Api
  | .enter opening => opening.since
  | .classItem item => item.since
  | .moduleItem _ => .v6
  | .methodItem item => item.since
  | .element _ | .attribute _ | .finish | .leave => .v4

/-- Whether a consumer of a version knows an event. -/
def IsKnownTo (api : Api) (event : Event) : Prop :=
  api.supports event.since = true

instance (api : Api) (event : Event) : Decidable (event.IsKnownTo api) :=
  inferInstanceAs (Decidable (_ = true))

variable {api : Api} {event : Event}

theorem isKnownTo_first (first : event.since = .v4) : event.IsKnownTo api := by
  rw [IsKnownTo, first]
  cases api <;> rfl

theorem isKnownTo_of_supports {required : Api} (came : event.since = required)
    (supports : api.supports required = true) : event.IsKnownTo api := by
  rwa [IsKnownTo, came]

theorem isKnownTo_latest (event : Event) : event.IsKnownTo .latest := by
  rw [IsKnownTo]
  cases event.since <;> rfl

/-- An instruction is known if it needs no dynamic constant or dynamic constants are known. -/
theorem isKnownTo_instruction {instruction : Instruction}
    (allowed : instruction.usesDynamicConstant = true → api.supports .v7 = true) :
    (Event.methodItem (.instruction instruction)).IsKnownTo api := by
  cases uses : instruction.usesDynamicConstant with
  | false => exact isKnownTo_first (by simp [since, MethodItem.since, Instruction.since, uses])
  | true =>
      exact isKnownTo_of_supports (by simp [since, MethodItem.since, Instruction.since, uses])
        (allowed uses)

end Event

namespace ReadOptions

/-- Whether an event is one of those that a reader is asked to leave out, whatever the version. -/
def skips (options : ReadOptions) : Event → Bool
  | .classItem (.source ..) | .methodItem (.parameter _) | .methodItem (.instruction (.line ..))
  | .methodItem (.localVariable _) => options.skipDebug
  | .methodItem (.instruction (.frame _)) => options.skipFrames
  | .methodItem .code => options.skipCode
  | _ => false

/-- Whether a reader is asked to tell an event. -/
def tells (options : ReadOptions) (event : Event) : Bool :=
  options.api.supports event.since && ! options.skips event

/-- What is asked for by a listener of a version that wants to be told everything. -/
def upTo (api : Api) : ReadOptions :=
  { api }

theorem upTo_skips (api : Api) (event : Event) : (upTo api).skips event = false := by
  unfold skips
  split <;> rfl

theorem upTo_tells {api : Api} {event : Event} :
    (upTo api).tells event = true ↔ event.IsKnownTo api := by
  rw [tells, upTo_skips, Bool.not_false, Bool.and_true]
  rfl

variable {options : ReadOptions} {event : Event} {required : Api}

theorem isKnownTo_of_tells (told : options.tells event = true) : event.IsKnownTo options.api := by
  rw [tells, Bool.and_eq_true] at told
  exact told.1

theorem tells_of_supports (supports : options.api.supports required = true)
    (came : event.since = required) (asked : options.skips event = false) :
    options.tells event = true := by
  simp [tells, came, supports, asked]

theorem tells_first (first : event.since = .v4) (asked : options.skips event = false) :
    options.tells event = true :=
  tells_of_supports (first ▸ Event.isKnownTo_first first) first asked

end ReadOptions

end ClassFile
