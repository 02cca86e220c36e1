import ClassFile.Proofs.Gating.Classes
import ClassFile.Proofs.Streams.Deleting
import ClassFile.Proofs.Tree.Recordings

/-!
# Flags that filter

Flags of a reader change what it looks for in front of the instructions of a body, and with it the labels
that it knows there.  What it tells is the same all the same: the story that is told without flags, without
what the flags name, and but for visits of labels that nothing refers to (`Consumer.decode_skipping`).

Most of what is told of a class is plain: it mentions no label.  The parts of a body do, but none of them
has anything but values inside it.
-/

namespace ClassFile

open Event Item

/-! ### Values -/

/-- Whether an event is told of a value of an annotation. -/
def Event.isOfValue : Event → Bool
  | .element _ | .enter (.nested ..) | .enter (.array _) | .finish => true
  | _ => false

theorem Event.isPlain_of_value {event : Event} (ofValue : event.isOfValue = true) : event.IsPlain := by
  unfold isOfValue at ofValue
  split at ofValue
  case h_5 => cases ofValue
  all_goals exact ⟨⟨rfl, rfl⟩, by simp⟩

mutual

theorem Element.isOfValue_events (element : Element) :
    ∀ event ∈ element.item.events, event.isOfValue = true := by
  match element with
  | .constant .. | .enumeration .. => simp [Element.item, events, isOfValue]
  | .nested name? descriptor elements | .array name? elements =>
      have inside := Element.isOfValue_allEvents elements
      simpa [Element.item, events, or_imp, forall_and, isOfValue] using inside

theorem Element.isOfValue_allEvents (elements : List Element) :
    ∀ event ∈ allEvents (elements.map Element.item), event.isOfValue = true := by
  match elements with
  | [] => simp [allEvents]
  | first :: rest =>
      rw [List.map_cons, allEvents, List.forall_mem_append]
      exact ⟨first.isOfValue_events, Element.isOfValue_allEvents rest⟩

end

/-- The turns of methods, of what mentions labels, and of what has no turn. -/
def Turn.ofLabels : List Turn :=
  [.method, .code, .handler, .step, .variable, .variableAnnotations, .maxs, .other]

namespace Item

variable {item : Item} {opening : Opening} {body items : List Item}

/-- Inside of annotations there are only values. -/
theorem Keeps.isOfValue (keeps : (Item.scope opening body).Keeps) :
    ∀ event ∈ allEvents body, event.isOfValue = true := by
  have ofElements (named : Bool) (elements : ∀ item ∈ body, item.IsElement named) :
      ∀ event ∈ allEvents body, event.isOfValue = true := by
    refine forall_mem_allEvents.mpr fun item member => ?_
    rcases elements item member with ⟨value, -, rfl⟩
    exact value.isOfValue_events
  cases opening
  case annotationDefault =>
    rcases keeps with ⟨value, rfl, isElement⟩
    exact ofElements false (by simpa using isElement)
  case annotateTryCatch => exact ofElements true keeps.2
  all_goals exact ofElements true keeps

/-- What is told on its own turn, but for methods and bodies, is plain. -/
theorem Keeps.isPlain (keeps : item.Keeps) (apart : item.turn ∉ Turn.ofLabels) :
    ∀ event ∈ item.events, event.IsPlain := by
  rcases item with told | ⟨opening, body⟩ | cause
  · rw [events, List.forall_mem_singleton]
    cases told with
    | enter opening => exact absurd (by simp [turn, Turn.ofLabels]) apart
    | methodItem part =>
        cases part
        case parameter | annotableParameterCount => exact ⟨⟨rfl, rfl⟩, by simp⟩
        all_goals exact absurd (by simp [turn, MethodItem.turn, Turn.ofLabels]) apart
    | _ => exact ⟨⟨rfl, rfl⟩, by simp⟩
  · rw [events, List.forall_mem_cons, List.forall_mem_append, List.forall_mem_singleton]
    refine ⟨?_, fun event member => isPlain_of_value (keeps.isOfValue event member), isPlain_finish⟩
    cases opening
    case method | annotateLocal => exact absurd (by simp [turn, Opening.turn, Turn.ofLabels]) apart
    all_goals exact ⟨⟨rfl, rfl⟩, by simp⟩
  · simp [events]

theorem isPlain_of_inTurn {turns : List Turn} (inTurn : InTurn Keeps turns items)
    (apart : ∀ turn ∈ turns, turn ∉ Turn.ofLabels) :
    ∀ item ∈ items, ∀ event ∈ item.events, event.IsPlain := fun item member =>
  Keeps.isPlain (inTurn.all_good item member) (apart _ (inTurn.turn_mem item member))

/-- The parts of a body, from its start to its end. -/
theorem Keeps.isInside (keeps : item.Keeps) (inBody : item.turn ∈ Turn.ofBody) :
    item.IsMethodPart ∧ ∀ event ∈ item.events, event.endsBody = false := by
  have apart : item.turn ∉ [.maxs, .method, .other] := by
    have each : ∀ turn ∈ Turn.ofBody, turn ∉ [.maxs, .method, .other] := by decide
    exact each _ inBody
  have ofValue {event : Event} (isOfValue : event.isOfValue = true) :
      event.startsMethod = false ∧ event.endsBody = false := by
    refine ⟨(isPlain_of_value isOfValue).starts, ?_⟩
    unfold endsBody
    split
    · cases isOfValue
    · rfl
  rcases item with told | ⟨opening, body⟩ | cause
  · have single : told.startsMethod = false ∧ told.endsBody = false := by
      cases told with
      | enter opening => exact absurd (by simp [turn]) apart
      | methodItem part =>
          cases part
          case maxs => exact absurd (by simp [turn, MethodItem.turn]) apart
          all_goals exact ⟨rfl, rfl⟩
      | _ => exact ⟨rfl, rfl⟩
    rw [events, List.forall_mem_singleton]
    exact ⟨⟨by simpa [events] using single.1, by simp⟩, single.2⟩
  · have start : opening.isMethod = false := by
      cases opening
      case method => exact absurd (by simp [turn, Opening.turn]) apart
      all_goals rfl
    have inside := keeps.isOfValue
    refine ⟨⟨?_, ?_⟩, ?_⟩
    · rw [events, List.forall_mem_cons, List.forall_mem_append, List.forall_mem_singleton]
      exact ⟨start, fun event member => (ofValue (inside event member)).1, rfl⟩
    · rintro _ _ ⟨⟩ event member
      exact (isPlain_of_value (inside event member)).visit?_eq_none
    · rw [events, List.forall_mem_cons, List.forall_mem_append, List.forall_mem_singleton]
      exact ⟨rfl, fun event member => (ofValue (inside event member)).2, rfl⟩
  · exact ⟨⟨by simp [events], by simp⟩, by simp [events]⟩

/-! ### The parts of a class -/

theorem isPlain_scope {kinds : List AttributeKind} {turns : List Turn} (silent : opening.labels = [])
    (notMethod : opening.isMethod = false) (inTurn : InTurn (Fits kinds) turns body)
    (apart : ∀ turn ∈ turns, turn ∉ Turn.ofLabels) :
    ∀ event ∈ (Item.scope opening body).events, event.IsPlain := by
  have inside := isPlain_of_inTurn (inTurn.weaken fun _ _ fits => fits.keeps) apart
  rw [events, List.forall_mem_cons, List.forall_mem_append, List.forall_mem_singleton]
  exact ⟨⟨⟨notMethod, silent⟩, by simp⟩, forall_mem_allEvents.mpr inside, isPlain_finish⟩

theorem isStoryPart_method (header : MethodHeader) (story : IsMethodStory body) :
    (Item.scope (.method header) body).IsStoryPart := by
  rcases story.inTurn with ⟨front, rest, rfl, inTurn, rfl | ⟨inside, stack, locals, rfl, inBody, -, -⟩⟩
  all_goals
    have isPlain := isPlain_of_inTurn (inTurn.weaken fun _ _ fits => fits.keeps) (by decide)
  · rw [List.append_nil]
    exact .bodiless header isPlain
  · exact .method header stack locals isPlain fun part member =>
      (inBody.all_good part member).keeps.isInside (inBody.turn_mem part member)

theorem IsTold.isStoryPart (told : item.IsTold) (whole : item.IsWhole) (ofClass : item.turn ∈ Turn.ofClass) :
    item.IsStoryPart := by
  unfold IsTold at told
  split at told
  · exact .plain (isPlain_scope rfl rfl (told.2 whole) (by decide))
  · exact .plain (isPlain_scope rfl rfl (told.2 whole) (by decide))
  · exact .plain (isPlain_scope rfl rfl (told.2 whole) (by decide))
  · exact isStoryPart_method _ (told.2 whole)
  · rename_i notModule notComponent notField notMethod
    refine .plain (told.keeps.isPlain fun ofLabels => ?_)
    have onlyMethod : ∀ turn ∈ Turn.ofClass, turn ∈ Turn.ofLabels → turn = .method := by decide
    cases at_of_turn (onlyMethod _ ofClass ofLabels) with
    | method header body => exact notMethod header body rfl

end Item

/-- A class that is told whole is told in parts. -/
theorem IsClassStory.areStoryParts {items : List Item} (story : IsClassStory items) (whole : AreWhole items) :
    ∀ item ∈ items, item.IsStoryPart := by
  rcases story.exists_eq with ⟨header, inside, rfl, -, inTurn⟩
  rw [areWhole_iff, List.forall_mem_cons, List.forall_mem_append] at whole
  rw [List.forall_mem_cons, List.forall_mem_append, List.forall_mem_singleton]
  refine ⟨.plain ?_, fun item member => ?_, .plain ?_⟩
  · rw [events, List.forall_mem_singleton]
    exact ⟨⟨rfl, rfl⟩, by simp⟩
  · exact (inTurn.all_good item member).isStoryPart (whole.2.1 item member) (inTurn.turn_mem item member)
  · rw [events, List.forall_mem_singleton]
    exact isPlain_finish

namespace Item

mutual

theorem isWhole_of_faults {item : Item} (none : item.faults = []) : item.IsWhole := by
  match item, none with
  | .event _, _ => trivial
  | .scope _ body, none => exact areWhole_of_allFaults none

/-- Items without faults are whole. -/
theorem areWhole_of_allFaults {items : List Item} (none : allFaults items = []) : AreWhole items := by
  match items, none with
  | [], _ => trivial
  | item :: rest, none =>
      rw [allFaults, List.append_eq_nil_iff] at none
      exact ⟨isWhole_of_faults none.1, areWhole_of_allFaults none.2⟩

end

end Item

namespace ClassImage

variable {image : ClassImage} {options : ReadOptions}

/-- With flags a class is told whole if it is without. -/
theorem areWhole_of_settled (latest : options.api = .latest) {told whole : Script}
    (same : told.map Item.settled = (options.pruneAll whole).map Item.settled) (isWhole : AreWhole whole) :
    AreWhole told := by
  apply areWhole_of_allFaults
  rw [← allFaults_map_settled, same, allFaults_map_settled]
  exact (ReadOptions.areWhole_pruneAll latest isWhole).allFaults_eq_nil

end ClassImage

/-- Flags of a reader only filter.  Let a class be told to its end to a listener without flags: with any flags
it is told to its end too.  What is told then is, but for visits of labels that nothing else in their method
mentions, what was told without flags after deleting what the flags name.  Where bodies are told, nothing
else changes: of whatever the flags don't name, and is no visit of a label, the same is told. -/
theorem Consumer.decode_skipping {input : Input} {full : List Event}
    (decoded : (listener.decode input {}).run.run [] = (.ok (), full))
    (skipCode skipDebug skipFrames : Bool) :
    let options : ReadOptions := { skipCode, skipDebug, skipFrames }
    ∃ told, (listener.decode input options).run.run [] = (.ok (), told) ∧
      Event.settled told = Event.settled (options.delete full) ∧
      (skipCode = false → ∀ kept : Event → Bool,
        (∀ event, kept event = true → options.skips event = false ∧ event.visit? = none) →
          told.filter kept = full.filter kept) := by
  intro options
  unfold Consumer.decode at decoded ⊢
  cases read : ClassImage.ofInput? input with
  | error cause =>
      rw [read] at decoded
      cases decoded
  | ok image =>
      rw [read] at decoded
      rcases tell_listener_eq_ok.mp decoded with ⟨whole, rfl⟩
      have within : options.Within {} := ⟨Nat.le_refl _, nofun, nofun, nofun, rfl⟩
      have settled := image.settled_script within whole
      have wholeTold : AreWhole (image.script options) := ClassImage.areWhole_of_settled rfl settled whole
      have parts := (ClassImage.isClassStory_script (fun _ _ _ => rfl) whole).areStoryParts whole
      have partsTold := (ClassImage.isClassStory_script (fun _ _ _ => rfl) wholeTold).areStoryParts wholeTold
      have partsLeft := @ReadOptions.areClassParts_pruneAll options (image.script {}) fun part member =>
        (parts part member).isClassPart
      have same : Event.settled (allEvents (image.script options)) =
          Event.settled (options.delete (allEvents (image.script {}))) := by
        calc Event.settled (allEvents (image.script options))
            = allEvents ((image.script options).map Item.settled) :=
              settled_allEvents fun part member => (partsTold part member).isClassPart
          _ = allEvents ((options.pruneAll (image.script {})).map Item.settled) := by rw [settled]
          _ = Event.settled (allEvents (options.pruneAll (image.script {}))) :=
              (settled_allEvents partsLeft).symm
          _ = Event.settled (options.delete (allEvents (image.script {}))) := by
              rw [ReadOptions.delete_allEvents rfl parts]
      refine ⟨allEvents (image.script options), tell_listener_eq_ok.mpr ⟨wholeTold, rfl⟩, same, ?_⟩
      intro withCode kept unnamed
      have noVisit : ∀ event, kept event = true → event.visit? = none := fun event isKept =>
        (unnamed event isKept).2
      rw [← filter_settled noVisit, same, filter_settled noVisit]
      exact ReadOptions.filter_delete (fun event isKept => (unnamed event isKept).1) withCode _

open ClassImage in
/-- Without bodies nothing is left of the method but its start and its end. -/
theorem Consumer.decode_skipping_twoJumps :
    ∃ told, (listener.decode twoJumps { skipCode := true }).run.run [] = (.ok (), told) ∧
      Event.settled told =
        [.classItem (.header ⟨.standard, 33, .ofString "A", none, none, []⟩),
          .enter (.method twoJumpsHeader), .finish, .finish] := by
  rcases decode_skipping decode_listener_twoJumps true false false with ⟨told, ran, settled, -⟩
  refine ⟨told, ran, ?_⟩
  rw [settled, script_twoJumps]
  rfl

end ClassFile
