import ClassFile.Proofs.Story.Turns
import ClassFile.Recording
import ClassFile.Transcript

/-!
# Listening

A listener that enters every scope is told the events of a script one after the other, and to the end
exactly if the script is whole (`Consumer.Enters.tell_eq_ok`).  A recorder, a transcriber and a listener
that only takes down the events listen that way.
-/

namespace ClassFile

variable {σ α β : Type} {state next : σ}

namespace Item

mutual

/-- The events that tell about an item to someone who enters every scope. -/
def events : Item → List Event
  | .event told => [told]
  | .scope opening body => .enter opening :: (allEvents body ++ [.finish])
  | .fault _ => []

/-- The events that tell about items. -/
def allEvents : List Item → List Event
  | [] => []
  | item :: rest => item.events ++ allEvents rest

end

theorem allEvents_append (items others : List Item) :
    allEvents (items ++ others) = allEvents items ++ allEvents others := by
  induction items with
  | nil => rfl
  | cons item rest ih => simp [allEvents, ih]

theorem forall_mem_allEvents {P : Event → Prop} {items : List Item} :
    (∀ event ∈ allEvents items, P event) ↔ ∀ item ∈ items, ∀ event ∈ item.events, P event := by
  induction items with
  | nil => simp [allEvents]
  | cons item rest ih => rw [allEvents, List.forall_mem_append, ih, List.forall_mem_cons]

end Item

open Item

/-! ### Steps that go on -/

namespace Step

theorem bind_eq_ok {first : Step σ α} {second : α → Step σ β} {result : β} :
    (first >>= second).run.run state = (.ok result, next) ↔
      ∃ value between, first.run.run state = (.ok value, between) ∧
        (second value).run.run between = (.ok result, next) := by
  rw [ExceptT.run_bind, StateT.run_bind]
  rcases first.run.run state with ⟨_ | value, between⟩
  · constructor
    · rintro ⟨⟩
    · rintro ⟨_, _, ⟨⟩, -⟩
  · constructor
    · intro ran
      exact ⟨value, between, rfl, ran⟩
    · rintro ⟨_, _, ⟨⟩, ran⟩
      exact ran

theorem pure_eq_ok {value result : α} :
    (pure value : Step σ α).run.run state = (.ok result, next) ↔ value = result ∧ state = next := by
  constructor
  · rintro ⟨⟩
    exact ⟨rfl, rfl⟩
  · rintro ⟨rfl, rfl⟩
    rfl

end Step

namespace Consumer

variable {consumer : Consumer σ} {note : σ → Event → σ}

/-- Whether a consumer enters every scope and does nothing but to take down each event. -/
def Enters (consumer : Consumer σ) (note : σ → Event → σ) : Prop :=
  ∀ event state, (consumer.step event).run.run state = (.ok .entered, note state event)

theorem Enters.step_eq_ok (enters : consumer.Enters note) {event : Event} {reply : Reply} :
    (consumer.step event).run.run state = (.ok reply, next) ↔ reply = .entered ∧ note state event = next := by
  rw [enters event state, Prod.mk.injEq, Except.ok.injEq, eq_comm]

/-- An event is taken down, whatever is replied to it. -/
theorem Enters.discard_eq_ok (enters : consumer.Enters note) {event : Event} :
    (discard (consumer.step event) : Step σ Unit).run.run state = (.ok (), next) ↔
      note state event = next := by
  have same : (discard (consumer.step event) : Step σ Unit) = consumer.step event >>= fun _ => pure () := rfl
  simp only [same, Step.bind_eq_ok, enters.step_eq_ok, Step.pure_eq_ok]
  simp

mutual

theorem Enters.tellItem_eq_ok (enters : consumer.Enters note) (state : σ) {next : σ} (item : Item) :
    (consumer.tellItem item).run.run state = (.ok (), next) ↔
      item.IsWhole ∧ item.events.foldl note state = next := by
  cases item with
  | event event =>
      rw [Consumer.tellItem]
      refine enters.discard_eq_ok.trans ?_
      simp [IsWhole, events]
  | fault cause =>
      rw [Consumer.tellItem]
      simp only [IsWhole, false_and, iff_false]
      rintro ⟨⟩
  | scope opening body =>
      rw [Consumer.tellItem, Step.bind_eq_ok]
      simp only [enters.step_eq_ok, IsWhole, events, List.foldl_cons, List.foldl_append]
      constructor
      · rintro ⟨_, _, ⟨rfl, rfl⟩, ran⟩
        rcases Step.bind_eq_ok.mp ran with ⟨_, _, inside, finished⟩
        rcases (enters.tell_eq_ok _ body).mp inside with ⟨whole, rfl⟩
        exact ⟨whole, enters.discard_eq_ok.mp finished⟩
      · rintro ⟨whole, same⟩
        refine ⟨_, _, ⟨rfl, rfl⟩, ?_⟩
        apply Step.bind_eq_ok.mpr
        exact ⟨_, _, (enters.tell_eq_ok _ body).mpr ⟨whole, rfl⟩, enters.discard_eq_ok.mpr same⟩

/-- A script is told to its end exactly if it is whole, and then event for event. -/
theorem Enters.tell_eq_ok (enters : consumer.Enters note) (state : σ) {next : σ} (items : List Item) :
    (consumer.tell items).run.run state = (.ok (), next) ↔
      AreWhole items ∧ (allEvents items).foldl note state = next := by
  cases items with
  | nil =>
      rw [Consumer.tell, Step.pure_eq_ok]
      simp [AreWhole, allEvents]
  | cons item rest =>
      rw [Consumer.tell, Step.bind_eq_ok]
      simp only [AreWhole, allEvents, List.foldl_append]
      constructor
      · rintro ⟨_, _, first, others⟩
        rcases (enters.tellItem_eq_ok _ item).mp first with ⟨whole, rfl⟩
        rcases (enters.tell_eq_ok _ rest).mp others with ⟨wholeOnes, same⟩
        exact ⟨⟨whole, wholeOnes⟩, same⟩
      · rintro ⟨⟨whole, wholeOnes⟩, same⟩
        exact ⟨_, _, (enters.tellItem_eq_ok _ item).mpr ⟨whole, rfl⟩,
          (enters.tell_eq_ok _ rest).mpr ⟨wholeOnes, same⟩⟩

end

end Consumer

/-! ### Recorders -/

/-- The recording with an event, if the event is one that is recorded. -/
def Recording.note (recording : Recording) : Event → Recording
  | .leave => recording
  | told => recording.add false told

/-- The recording of a script whose scopes are all entered. -/
def Recording.ofScript (script : Script) : Recording :=
  (allEvents script).foldl note {}

theorem Consumer.enters_recorder : (recorder fun _ => false).Enters Recording.note := by
  intro event recording
  cases event <;> rfl

/-! ### Transcribers -/

namespace Item

mutual

/-- Whether scopes are opened and closed by nothing but scopes. -/
def IsClosed : Item → Prop
  | .event (.enter _) | .event .finish | .event .leave => False
  | .scope _ body => AreClosed body
  | _ => True

/-- Whether scopes are opened and closed by nothing but scopes, in any of the items. -/
def AreClosed : List Item → Prop
  | [] => True
  | item :: rest => item.IsClosed ∧ AreClosed rest

end

theorem areClosed_iff {items : List Item} : AreClosed items ↔ ∀ item ∈ items, item.IsClosed := by
  induction items with
  | nil => simp [AreClosed]
  | cons item rest ih => simp [AreClosed, ih]

end Item

namespace Transcript

mutual

theorem foldl_note_item {item : Item} (whole : item.IsWhole) (closed : item.IsClosed)
    (transcript : Transcript) : item.events.foldl note transcript = transcript.add item := by
  match item, whole, closed with
  | .event (.classItem _), _, _ | .event (.moduleItem _), _, _ | .event (.methodItem _), _, _
  | .event (.element _), _, _ | .event (.attribute _), _, _ => rfl
  | .scope opening body, whole, closed =>
      rw [events, List.foldl_cons, List.foldl_append, foldl_note_items whole closed]
      simp [note, enter, close, add]

theorem foldl_note_items {items : List Item} (whole : AreWhole items) (closed : AreClosed items)
    (transcript : Transcript) :
    (allEvents items).foldl note transcript =
      { transcript with items := items.reverse ++ transcript.items } := by
  match items, whole, closed with
  | [], _, _ => rfl
  | item :: rest, whole, closed =>
      rw [allEvents, List.foldl_append, foldl_note_item whole.1 closed.1, foldl_note_items whole.2 closed.2]
      simp [add]

end

/-- A class is transcribed as it is told, but for its end. -/
theorem script_foldl_note {items : List Item} (whole : AreWhole items) (closed : AreClosed items) :
    ((allEvents (items ++ [.event .finish])).foldl note empty).script = items := by
  rw [allEvents_append, List.foldl_append, foldl_note_items whole closed]
  simp [allEvents, events, note, close, empty, script]

end Transcript

theorem Consumer.enters_transcriber : transcriber.Enters Transcript.note :=
  fun _ _ => rfl

/-! ### Listeners -/

namespace Consumer

/-- The consumer that enters every scope and takes down the events in order. -/
def listener : Consumer (List Event) where
  step event := do
    modify (· ++ [event])
    return .entered

theorem enters_listener : listener.Enters fun told event => told ++ [event] :=
  fun _ _ => rfl

/-- A listener hears a script to its end exactly if the script is whole, and then hears its events. -/
theorem tell_listener_eq_ok {items : List Item} {told : List Event} :
    (listener.tell items).run.run [] = (.ok (), told) ↔ AreWhole items ∧ allEvents items = told := by
  rw [enters_listener.tell_eq_ok]
  have taken (events front : List Event) :
      events.foldl (fun told event => told ++ [event]) front = front ++ events := by
    induction events generalizing front with
    | nil => simp
    | cons event rest ih => simp [ih]
  rw [taken, List.nil_append]

end Consumer

end ClassFile
