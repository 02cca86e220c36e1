import ClassFile.Proofs.Gating.Refusals

/-!
# What a consumer hears

`Consumer.hearing` is how a story went when it was told to a consumer: the result, and the events that
the consumer heard with its replies.  Whatever the consumer replies, it hears events of the story in the
order of the story (`Consumer.hearing_sublist`).  It hears all of them if it enters every scope
(`Consumer.Enters.hearing_eq`), and none that its version does not know if those were left out
(`Consumer.isKnownTo_of_heard`).
-/

namespace ClassFile

open Item

variable {α β σ : Type}

/-! ### Steps that hear a part of some events -/

/-- Whether a step takes down some of the given events, in their order, and nothing else. -/
def Step.Hears (told : List Event) (step : Step (Log × σ) α) : Prop :=
  ∀ memory, ∃ heard : Log,
    (step.run.run memory).2.1 = heard.reverse ++ memory.1 ∧ (heard.map Prod.fst).Sublist told

namespace Step

variable {told more : List Event}

theorem hears_pure (value : α) : Hears told (pure value : Step (Log × σ) α) :=
  fun _ => ⟨[], rfl, List.nil_sublist _⟩

theorem hears_failure (cause : ClassError) : Hears told (failure cause : Step (Log × σ) α) :=
  fun _ => ⟨[], rfl, List.nil_sublist _⟩

theorem Hears.bind {first : Step (Log × σ) α} {second : α → Step (Log × σ) β} (hears : Hears told first)
    (next : ∀ value, Hears more (second value)) : Hears (told ++ more) (first >>= second) := by
  intro memory
  rcases hears memory with ⟨heard, added, isPart⟩
  rw [ExceptT.run_bind, StateT.run_bind]
  rcases ran : StateT.run first.run memory with ⟨_ | value, between⟩
  · rw [ran] at added
    exact ⟨heard, added, isPart.trans (List.sublist_append_left _ _)⟩
  · rw [ran] at added
    rcases next value between with ⟨others, addedNext, isPartNext⟩
    refine ⟨heard ++ others, ?_, by rw [List.map_append]; exact isPart.append isPartNext⟩
    rw [List.reverse_append, List.append_assoc, ← added]
    exact addedNext

end Step

/-! ### Hearings -/

/-- How a story went: its result, and the events that were heard, in order, with what was said to each. -/
structure Hearing where
  result : Except Fault Unit
  replies : List (Event × Except Fault Reply)

/-- The events that were heard, in order. -/
def Hearing.heard (hearing : Hearing) : List Event :=
  hearing.replies.map Prod.fst

namespace Consumer

variable {consumer : Consumer σ} {note : σ → Event → σ}

/-- How a story goes that is told to a consumer. -/
def hearing (consumer : Consumer σ) (items : List Item) (state : σ) : Hearing :=
  let ran := (consumer.logged.tell items).run.run ([], state)
  ⟨ran.1, ran.2.1.reverse⟩

theorem hears_step (consumer : Consumer σ) (event : Event) :
    Step.Hears [event] (consumer.logged.step event) :=
  fun memory => ⟨[(event, ((consumer.step event).run.run memory.2).1)], rfl, List.Sublist.refl _⟩

theorem hears_discard (consumer : Consumer σ) (event : Event) :
    Step.Hears [event] (discard (consumer.logged.step event)) := by
  rw [← List.append_nil [event]]
  exact (hears_step consumer event).bind fun _ => Step.hears_pure ()

mutual

theorem hears_tellItem (consumer : Consumer σ) (item : Item) :
    Step.Hears item.events (consumer.logged.tellItem item) := by
  cases item with
  | event event =>
      rw [tellItem]
      exact hears_discard consumer event
  | fault cause =>
      rw [tellItem]
      exact Step.hears_failure cause
  | scope opening body =>
      rw [tellItem]
      refine (hears_step consumer (.enter opening)).bind fun reply => ?_
      cases reply with
      | declined => exact Step.hears_pure ()
      | entered => exact (hears_tell consumer body).bind fun _ => hears_discard consumer .finish

theorem hears_tell (consumer : Consumer σ) (items : List Item) :
    Step.Hears (allEvents items) (consumer.logged.tell items) := by
  cases items with
  | nil => exact Step.hears_pure ()
  | cons item rest =>
      rw [tell]
      exact (hears_tellItem consumer item).bind fun _ => hears_tell consumer rest

end

/-- Whatever a consumer replies, it hears a part of the story, in the order of the story. -/
theorem hearing_sublist (consumer : Consumer σ) (items : List Item) (state : σ) :
    (consumer.hearing items state).heard.Sublist (allEvents items) := by
  rcases hears_tell consumer items ([], state) with ⟨heard, added, isPart⟩
  rw [List.append_nil] at added
  rw [Hearing.heard, hearing, added, List.reverse_reverse]
  exact isPart

/-- What is not known is not heard when it was left out. -/
theorem isKnownTo_of_heard {api : Api} {items : List Item} {state : σ} {event : Event}
    (isHeard : event ∈ (consumer.hearing ((ReadOptions.upTo api).pruneAll items) state).heard) :
    event.IsKnownTo api := by
  have isTold := (hearing_sublist consumer _ state).subset isHeard
  exact ReadOptions.upTo_tells.mp (ReadOptions.tells_pruneAll _ items event isTold)

theorem Enters.logged (enters : consumer.Enters note) :
    consumer.logged.Enters fun memory event =>
      ((event, .ok .entered) :: memory.1, note memory.2 event) := by
  intro event memory
  have stepped := run_logged_step consumer event memory.1 memory.2
  rwa [enters event memory.2] at stepped

/-- Who enters every scope and refuses nothing hears a whole story. -/
theorem Enters.hearing_eq (enters : consumer.Enters note) {items : List Item} (whole : AreWhole items)
    (state : σ) :
    consumer.hearing items state = ⟨.ok (), (allEvents items).map fun event => (event, .ok .entered)⟩ := by
  have told := (enters.logged.tell_eq_ok ([], state) items).mpr ⟨whole, rfl⟩
  have taken (events : List Event) (memory : Log × σ) :
      (events.foldl (fun memory event =>
          ((event, .ok .entered) :: memory.1, note memory.2 event)) memory).1.reverse =
        memory.1.reverse ++ events.map fun event => (event, .ok .entered) := by
    induction events generalizing memory with
    | nil => simp
    | cons event rest ih => simp [ih]
  rw [hearing, told]
  simp only [taken, List.reverse_nil, List.nil_append]

/-- A whole story fails for no other reason than that an event was refused. -/
theorem refused_of_hearing {items : List Item} (whole : AreWhole items) {state : σ} {fault : Fault}
    (failed : (consumer.hearing items state).result = .error fault) :
    ∃ event, (event, .error fault) ∈ (consumer.hearing items state).replies := by
  rcases (reports_tell consumer items).blames ([], state) fault failed with refused | ⟨cause, isCause, -⟩
  · exact refused.imp fun _ member => List.mem_reverse.mpr member
  · rw [whole.allFaults_eq_nil] at isCause
    cases isCause

end Consumer

end ClassFile
