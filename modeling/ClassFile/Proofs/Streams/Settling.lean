import ClassFile.Proofs.Gating.Pruning
import Mathlib.Data.List.SplitBy

/-!
# Labels that nothing refers to

Labels belong to methods, so a story falls into parts, each from the start of a method to the start of the
next one.  `Event.settled` leaves out of each part the visits of labels that no other event of the part
mentions.  In the story of a class that comes to the same as settling the scope of each method
(`Item.settled_allEvents`), for outside of methods no label is mentioned.
-/

namespace ClassFile

namespace Event

/-- The label that an event visits. -/
def visit? : Event → Option Label
  | .methodItem (.instruction (.label place)) => some place
  | _ => none

/-- The labels that events mention, but for the visits of labels. -/
def mentioned (part : List Event) : List Label :=
  part.flatMap fun event => if event.visit?.isSome then [] else event.labels

/-- Events without the visits of labels that no other of them mentions. -/
def settledPart (part : List Event) : List Event :=
  part.filter fun event => event.visit?.all fun label => decide (label ∈ mentioned part)

/-- The parts of a story, which start with its methods, the first with the class. -/
def parts (events : List Event) : List (List Event) :=
  events.splitBy fun _ next => !next.startsMethod

/-- A story without the visits of labels that nothing else in their methods mentions. -/
def settled (events : List Event) : List Event :=
  (parts events).flatMap settledPart

/-- Whether an event starts no method and mentions no label. -/
structure IsSilent (event : Event) : Prop where
  starts : event.startsMethod = false
  labels : event.labels = []

variable {event : Event} {events front silent rest : List Event}

theorem IsSilent.visit?_eq_none (isSilent : event.IsSilent) : event.visit? = none := by
  have noLabels := isSilent.labels
  unfold visit?
  split
  · cases noLabels
  · rfl

theorem mentioned_append (events others : List Event) :
    mentioned (events ++ others) = mentioned events ++ mentioned others :=
  List.flatMap_append

theorem mentioned_of_silent (isSilent : ∀ event ∈ events, event.IsSilent) : mentioned events = [] := by
  rw [mentioned, List.flatMap_eq_nil_iff]
  intro event member
  rw [(isSilent event member).labels, ite_self]

/-- Silent events do not matter to the settling of what is in front of them. -/
theorem settledPart_append_silent (isSilent : ∀ event ∈ silent, event.IsSilent) (events : List Event) :
    settledPart (events ++ silent) = settledPart events ++ silent := by
  rw [settledPart, mentioned_append, mentioned_of_silent isSilent, List.append_nil, List.filter_append,
    settledPart, List.append_cancel_left_eq, List.filter_eq_self]
  intro event member
  rw [(isSilent event member).visit?_eq_none]
  rfl

/-- Events of which none but the first may start a method are one part. -/
theorem parts_of_not_starts (event : Event) (inside : ∀ event ∈ events, event.startsMethod = false) :
    parts (event :: events) = [event :: events] := by
  refine List.splitBy_of_isChain (List.cons_ne_nil _ _) ?_
  induction events generalizing event with
  | nil => exact List.isChain_singleton event
  | cons next rest ih =>
      rw [List.forall_mem_cons] at inside
      refine .cons_cons ?_ (ih next inside.2)
      rw [inside.1, Bool.not_false]

/-- A new part starts with the start of a method. -/
theorem parts_append (starts : ∀ event ∈ rest.head?, event.startsMethod = true) :
    parts (events ++ rest) = parts events ++ parts rest := by
  refine List.splitBy_append fun _ _ next isNext => ?_
  rw [starts next isNext, Bool.not_true]

/-- The part of a method goes on with silent events behind the method. -/
theorem settled_method (event : Event) (inside : ∀ event ∈ events, event.startsMethod = false)
    (isSilent : ∀ event ∈ silent, event.IsSilent) (starts : ∀ event ∈ rest.head?, event.startsMethod = true) :
    settled (event :: events ++ (silent ++ rest)) =
      settledPart (event :: events) ++ (silent ++ settled rest) := by
  have onePart : parts (event :: events ++ silent) = [event :: events ++ silent] :=
    parts_of_not_starts event (List.forall_mem_append.mpr ⟨inside, fun event member => (isSilent event member).starts⟩)
  rw [settled, ← List.append_assoc, parts_append starts, onePart, List.flatMap_append, List.flatMap_cons,
    List.flatMap_nil, List.append_nil, settledPart_append_silent isSilent, List.append_assoc]
  rfl

theorem settled_silent (isSilent : ∀ event ∈ silent, event.IsSilent)
    (starts : ∀ event ∈ rest.head?, event.startsMethod = true) :
    settled (silent ++ rest) = silent ++ settled rest := by
  have same := settledPart_append_silent isSilent []
  rw [List.nil_append] at same
  cases silent with
  | nil => rfl
  | cons event others =>
      rw [settled, parts_append starts, parts_of_not_starts event fun event member =>
        (isSilent event (List.mem_cons_of_mem _ member)).starts, List.flatMap_append, List.flatMap_cons,
        List.flatMap_nil, List.append_nil, same]
      rfl

/-- Settling changes nothing but which labels are visited. -/
theorem filter_settled {kept : Event → Bool} (noVisit : ∀ event, kept event = true → event.visit? = none)
    (events : List Event) : (settled events).filter kept = events.filter kept := by
  have each (part : List Event) : (settledPart part).filter kept = part.filter kept := by
    rw [settledPart, List.filter_filter]
    refine List.filter_congr fun event _ => ?_
    cases isKept : kept event with
    | false => rfl
    | true =>
        rw [noVisit event isKept]
        rfl
  calc (settled events).filter kept = (parts events).flatMap fun part => part.filter kept := by
        rw [settled, List.filter_flatMap]
        exact List.flatMap_congr fun part _ => each part
    _ = (parts events).flatten.filter kept := by rw [List.filter_flatten, List.flatMap_def]
    _ = events.filter kept := by rw [parts, List.flatten_splitBy]

end Event

open Event

namespace Item

/-- Whether a part of the scope of a method starts no method, and visits labels only in the scope of the
method itself. -/
structure IsMethodPart (item : Item) : Prop where
  starts : ∀ event ∈ item.events, event.startsMethod = false
  visits : ∀ opening body, item = .scope opening body → ∀ event ∈ allEvents body, event.visit? = none

/-- Whether an item is silent, or a method. -/
def IsClassPart (item : Item) : Prop :=
  (∀ event ∈ item.events, event.IsSilent) ∨
    ∃ header body, item = .scope (.method header) body ∧ ∀ part ∈ body, part.IsMethodPart

variable {item : Item} {items : List Item}

theorem isMethodPart_of_silent (isSilent : ∀ event ∈ item.events, event.IsSilent) : item.IsMethodPart where
  starts := fun event member => (isSilent event member).starts
  visits := by
    rintro opening body rfl event member
    refine (isSilent event ?_).visit?_eq_none
    rw [events]
    exact List.mem_cons_of_mem _ (List.mem_append_left _ member)

/-- An event of a part of a method is a visit if and only if the part is. -/
theorem IsMethodPart.events_visit (isPart : item.IsMethodPart) :
    ∀ event ∈ item.events, event.visit? = item.visit? := by
  cases item with
  | event told =>
      rw [events]
      simp only [List.mem_singleton, forall_eq]
      unfold Event.visit? Item.visit?
      cases told with
      | methodItem item =>
          cases item with
          | instruction content => cases content <;> rfl
          | _ => rfl
      | _ => rfl
  | fault cause => simp [events]
  | scope opening body =>
      have inside := isPart.visits opening body rfl
      rw [events, List.forall_mem_cons, List.forall_mem_append]
      exact ⟨rfl, inside, by simp [Event.visit?, Item.visit?]⟩

theorem mentioned_allEvents (areParts : ∀ item ∈ items, item.IsMethodPart) :
    Event.mentioned (allEvents items) = Script.mentioned items := by
  induction items with
  | nil => rfl
  | cons item rest ih =>
      rw [List.forall_mem_cons] at areParts
      rw [allEvents, Event.mentioned_append, ih areParts.2, Script.mentioned_cons, List.append_cancel_right_eq]
      have same := areParts.1.events_visit
      cases visits : item.visit? with
      | none =>
          refine List.flatMap_congr fun event member => ?_
          rw [same event member, visits]
          rfl
      | some label =>
          rw [Event.mentioned, Option.isSome_some, if_pos rfl, List.flatMap_eq_nil_iff]
          intro event member
          rw [same event member, visits]
          rfl

theorem allEvents_filter (areParts : ∀ item ∈ items, item.IsMethodPart) (known : Label → Bool) :
    allEvents (items.filter fun item => item.visit?.all known) =
      (allEvents items).filter fun event => event.visit?.all known := by
  induction items with
  | nil => rfl
  | cons item rest ih =>
      rw [List.forall_mem_cons] at areParts
      have here : item.events.filter (fun event => event.visit?.all known) =
          if item.visit?.all known then item.events else [] := by
        split
        · rename_i kept
          rw [List.filter_eq_self]
          intro event member
          rwa [areParts.1.events_visit event member]
        · rename_i dropped
          rw [List.filter_eq_nil_iff]
          intro event member
          rwa [areParts.1.events_visit event member]
      rw [List.filter_cons, allEvents, List.filter_append, here, ← ih areParts.2]
      split <;> rfl

/-- The part of a method is settled as its scope is. -/
theorem settledPart_method (header : MethodHeader) {body : List Item}
    (areParts : ∀ part ∈ body, part.IsMethodPart) :
    settledPart (.enter (.method header) :: (allEvents body ++ [.finish])) =
      events (.scope (.method header) (Script.settled body)) := by
  have finishSilent : ∀ event ∈ [Event.finish], event.IsSilent := by
    rintro event member
    rw [List.mem_singleton] at member
    subst member
    exact ⟨rfl, rfl⟩
  have same : Event.mentioned (.enter (.method header) :: allEvents body) = Script.mentioned body := by
    rw [← mentioned_allEvents areParts]
    rfl
  rw [← List.cons_append, settledPart_append_silent finishSilent, settledPart, same, List.filter_cons,
    ← allEvents_filter areParts]
  rfl

/-- The events of a class part from the front up to the start of a method are silent. -/
theorem exists_silent_front (areParts : ∀ item ∈ items, item.IsClassPart) :
    ∃ silent rest, allEvents items = silent ++ rest ∧ (∀ event ∈ silent, event.IsSilent) ∧
      ∀ event ∈ rest.head?, event.startsMethod = true := by
  induction items with
  | nil => exact ⟨[], [], rfl, by simp, by simp⟩
  | cons item others ih =>
      rw [List.forall_mem_cons] at areParts
      rcases areParts.1 with isSilent | ⟨header, body, rfl, -⟩
      · rcases ih areParts.2 with ⟨silent, rest, same, isSilentBehind, starts⟩
        refine ⟨item.events ++ silent, rest, ?_, List.forall_mem_append.mpr ⟨isSilent, isSilentBehind⟩, starts⟩
        rw [allEvents, same, List.append_assoc]
      · refine ⟨[], allEvents (.scope (.method header) body :: others), rfl, by simp, ?_⟩
        rw [allEvents, events]
        simp [Event.startsMethod, Opening.isMethod]

theorem mem_allEvents (member : item ∈ items) {event : Event} (isEvent : event ∈ item.events) :
    event ∈ allEvents items := by
  have all : ∀ event ∈ allEvents items, event ∈ allEvents items := fun _ => id
  exact forall_mem_allEvents.mp all item member event isEvent

theorem visit?_of_silent (isSilent : ∀ event ∈ item.events, event.IsSilent) : item.visit? = none := by
  cases item with
  | event told =>
      have same := (isMethodPart_of_silent isSilent).events_visit told (by simp [events])
      rw [← same, (isSilent told (by simp [events])).visit?_eq_none]
  | scope | fault => rfl

/-- What is silent is settled. -/
theorem settled_of_silent (isSilent : ∀ event ∈ item.events, event.IsSilent) : item.settled = item := by
  cases item with
  | event | fault => rfl
  | scope opening body =>
      rw [settled, Script.settled, scope.injEq, List.filter_eq_self]
      refine ⟨rfl, fun item member => ?_⟩
      have isSilentInside : ∀ event ∈ item.events, event.IsSilent := by
        intro event isEvent
        apply isSilent event
        rw [events, List.mem_cons, List.mem_append]
        exact .inr (.inl (mem_allEvents member isEvent))
      rw [visit?_of_silent isSilentInside]
      rfl

/-- The story of a class is settled as the scopes of its methods are. -/
theorem settled_allEvents (areParts : ∀ item ∈ items, item.IsClassPart) :
    Event.settled (allEvents items) = allEvents (items.map Item.settled) := by
  induction items with
  | nil => rfl
  | cons item others ih =>
      rw [List.forall_mem_cons] at areParts
      rcases exists_silent_front areParts.2 with ⟨silent, rest, same, isSilent, starts⟩
      have behind := ih areParts.2
      rw [same, settled_silent isSilent starts] at behind
      rw [allEvents, same, List.map_cons, allEvents, ← behind]
      rcases areParts.1 with here | ⟨header, body, rfl, areMethodParts⟩
      · rw [settled_of_silent here, ← List.append_assoc,
          settled_silent (List.forall_mem_append.mpr ⟨here, isSilent⟩) starts, List.append_assoc]
      · have inside : ∀ event ∈ allEvents body ++ [Event.finish], event.startsMethod = false := by
          rw [List.forall_mem_append, forall_mem_allEvents]
          exact ⟨fun part member => (areMethodParts part member).starts, by simp [Event.startsMethod]⟩
        rw [events, settled_method _ inside isSilent starts, settledPart_method header areMethodParts]
        rfl

end Item

end ClassFile
