import ClassFile.Proofs.Gating.Pruning

/-!
# What a consumer was told

`Consumer.logged` is a consumer that takes down every event with what it said to it.  Where a story is
told to it, the log tells why the telling stopped (`Consumer.reports_tell`), and what the log holds is
shown event by event (`Consumer.Keeps.tell`).
-/

namespace ClassFile

open Item

variable {α β σ μ : Type}

/-! ### Steps that keep an invariant -/

/-- Whether a property of the state holds behind a step, done or failed, if it holds in front of it. -/
def Step.Keeps (holds : σ → Prop) (step : Step σ α) : Prop :=
  ∀ state, holds state → holds (step.run.run state).2

namespace Step

variable {holds : σ → Prop}

theorem keeps_lift (computed : Except Fault α) : Keeps holds (liftM computed : Step σ α) := by
  intro state before
  cases computed <;> exact before

theorem keeps_pure (value : α) : Keeps holds (pure value) :=
  keeps_lift (.ok value)

theorem keeps_failure (cause : ClassError) : Keeps holds (failure cause : Step σ α) :=
  keeps_lift (.error (.error cause))

theorem Keeps.bind {first : Step σ α} {second : α → Step σ β} (keeps : Keeps holds first)
    (next : ∀ value, Keeps holds (second value)) : Keeps holds (first >>= second) := by
  intro state before
  have between := keeps state before
  rw [ExceptT.run_bind, StateT.run_bind]
  rcases ran : StateT.run first.run state with ⟨_ | value, after⟩
  · rw [ran] at between
    exact between
  · rw [ran] at between
    exact next value after between

theorem Keeps.discard {step : Step σ α} (keeps : Keeps holds step) : Keeps holds (discard step) :=
  keeps.bind fun _ => keeps_pure ()

/-- A change to what is remembered in front of a state. -/
theorem keeps_remember {update : μ × σ → μ × σ} (same : ∀ memory, (update memory).2 = memory.2) :
    Keeps (fun memory => holds memory.2) (modify update : Step (μ × σ) PUnit) := by
  intro memory before
  rwa [← same memory] at before

/-- What a step remembers in front of its state does not matter to the state. -/
theorem Keeps.behind {step : Step σ α} (keeps : Keeps holds step) :
    Keeps (fun memory : μ × σ => holds memory.2) step.behind :=
  fun memory => keeps memory.2

/-- A step that looks at the state first. -/
theorem keeps_get_bind {second : σ → Step σ β} (next : ∀ state, Keeps holds (second state)) :
    Keeps holds (get >>= second) :=
  fun state => next state state

end Step

namespace Consumer

variable {consumer : Consumer σ} {known : Event → Prop} {holds : σ → Prop}

/-- Whether a consumer that is told nothing but what is known keeps an invariant. -/
def Keeps (known : Event → Prop) (holds : σ → Prop) (consumer : Consumer σ) : Prop :=
  ∀ event, known event → Step.Keeps holds (consumer.step event)

mutual

theorem Keeps.tellItem (keeps : consumer.Keeps known holds) (item : Item)
    (areKnown : ∀ event ∈ item.events, known event) : Step.Keeps holds (consumer.tellItem item) := by
  cases item with
  | event event =>
      rw [Consumer.tellItem]
      exact (keeps event (by simpa [events] using areKnown)).discard
  | fault cause =>
      rw [Consumer.tellItem]
      exact Step.keeps_failure cause
  | scope opening body =>
      rw [events, List.forall_mem_cons, List.forall_mem_append] at areKnown
      rcases areKnown with ⟨isEntered, inside, isFinished⟩
      rw [Consumer.tellItem]
      refine (keeps _ isEntered).bind fun reply => ?_
      cases reply with
      | declined => exact Step.keeps_pure ()
      | entered => exact (keeps.tell body inside).bind fun _ => (keeps _ (by simpa using isFinished)).discard

/-- Telling a story of known events keeps the invariant. -/
theorem Keeps.tell (keeps : consumer.Keeps known holds) (items : List Item)
    (areKnown : ∀ event ∈ allEvents items, known event) : Step.Keeps holds (consumer.tell items) := by
  cases items with
  | nil => exact Step.keeps_pure ()
  | cons item rest =>
      rw [allEvents, List.forall_mem_append] at areKnown
      rw [Consumer.tell]
      exact (keeps.tellItem item areKnown.1).bind fun _ => keeps.tell rest areKnown.2

end

end Consumer

/-! ### Logs -/

/-- Events, the last first, each with what was said to it. -/
abbrev Log := List (Event × Except Fault Reply)

namespace Consumer

/-- A consumer that takes down every event with what it says to it. -/
def logged (consumer : Consumer σ) : Consumer (Log × σ) where
  step event := ExceptT.mk fun memory =>
    let ran := (consumer.step event).run.run memory.2
    (ran.1, (event, ran.1) :: memory.1, ran.2)

theorem run_logged_step (consumer : Consumer σ) (event : Event) (log : Log) (state : σ) :
    (consumer.logged.step event).run.run (log, state) =
      (((consumer.step event).run.run state).1,
        (event, ((consumer.step event).run.run state).1) :: log, ((consumer.step event).run.run state).2) :=
  rfl

/-- If nothing but known events is told, nothing else is taken down. -/
theorem keeps_logged (consumer : Consumer σ) (known : Event → Prop) :
    consumer.logged.Keeps known fun memory => ∀ entry ∈ memory.1, known entry.1 := by
  intro event isKnown memory before
  exact List.forall_mem_cons.mpr ⟨isKnown, before⟩

/-- What is taken down in front of a consumer does not matter to it. -/
theorem Keeps.logged {consumer : Consumer σ} {known : Event → Prop} {holds : σ → Prop}
    (keeps : consumer.Keeps known holds) :
    consumer.logged.Keeps known fun memory => holds memory.2 :=
  fun event isKnown memory before => keeps event isKnown memory.2 before

end Consumer

/-! ### Faults -/

namespace Item

mutual

/-- The faults in an item, at whatever depth. -/
def faults : Item → List ClassError
  | .event _ => []
  | .scope _ body => allFaults body
  | .fault cause => [cause]

/-- The faults in items. -/
def allFaults : List Item → List ClassError
  | [] => []
  | item :: rest => item.faults ++ allFaults rest

end

end Item

/-- Whether a step loses nothing of the log and, if it fails, has taken down the failure or fails for one
of the given causes. -/
structure Step.Reports (causes : List ClassError) (step : Step (Log × σ) α) : Prop where
  remembers : ∀ memory, memory.1 <:+ (step.run.run memory).2.1
  blames : ∀ memory fault, (step.run.run memory).1 = .error fault →
    (∃ event, (event, .error fault) ∈ (step.run.run memory).2.1) ∨ ∃ cause ∈ causes, fault = .error cause

namespace Step

variable {causes more : List ClassError}

theorem Reports.weaken {step : Step (Log × σ) α} (reports : Reports causes step) (inside : causes ⊆ more) :
    Reports more step where
  remembers := reports.remembers
  blames := fun memory fault failed => (reports.blames memory fault failed).imp_right fun blamed =>
    blamed.imp fun _ isCause => ⟨inside isCause.1, isCause.2⟩

theorem reports_pure (value : α) : Reports causes (pure value : Step (Log × σ) α) where
  remembers := fun _ => List.suffix_rfl
  blames := by
    intro memory fault failed
    cases failed

theorem reports_failure (cause : ClassError) : Reports [cause] (failure cause : Step (Log × σ) α) where
  remembers := fun _ => List.suffix_rfl
  blames := by
    intro memory fault failed
    cases failed
    exact .inr ⟨cause, List.mem_singleton_self cause, rfl⟩

theorem Reports.bind {first : Step (Log × σ) α} {second : α → Step (Log × σ) β}
    (reports : Reports causes first) (next : ∀ value, Reports causes (second value)) :
    Reports causes (first >>= second) := by
  constructor
  · intro memory
    have before := reports.remembers memory
    rw [ExceptT.run_bind, StateT.run_bind]
    rcases ran : StateT.run first.run memory with ⟨_ | value, after⟩
    · rw [ran] at before
      exact before
    · rw [ran] at before
      exact before.trans ((next value).remembers after)
  · intro memory
    have before := reports.blames memory
    rw [ExceptT.run_bind, StateT.run_bind]
    rcases ran : StateT.run first.run memory with ⟨cause | value, after⟩
    · rw [ran] at before
      intro fault failed
      exact before fault (by cases failed; rfl)
    · exact (next value).blames after

end Step

namespace Consumer

variable {consumer : Consumer σ}

theorem reports_step (consumer : Consumer σ) (event : Event) :
    Step.Reports [] (consumer.logged.step event) where
  remembers := fun memory => List.suffix_cons _ memory.1
  blames := by
    intro memory fault failed
    refine .inl ⟨event, ?_⟩
    rw [← failed]
    exact List.mem_cons_self

theorem reports_discard (consumer : Consumer σ) (event : Event) {causes : List ClassError} :
    Step.Reports causes (discard (consumer.logged.step event)) :=
  ((reports_step consumer event).weaken (List.nil_subset _)).bind fun _ => Step.reports_pure ()

mutual

theorem reports_tellItem (consumer : Consumer σ) (item : Item) :
    Step.Reports item.faults (consumer.logged.tellItem item) := by
  cases item with
  | event event =>
      rw [tellItem]
      exact reports_discard consumer event
  | fault cause =>
      rw [tellItem]
      exact Step.reports_failure cause
  | scope opening body =>
      rw [tellItem]
      refine ((reports_step consumer _).weaken (List.nil_subset _)).bind fun reply => ?_
      cases reply with
      | declined => exact Step.reports_pure ()
      | entered => exact (reports_tell consumer body).bind fun _ => reports_discard consumer .finish

/-- A telling that fails does so at an event that was taken down, or for a fault of the story. -/
theorem reports_tell (consumer : Consumer σ) (items : List Item) :
    Step.Reports (allFaults items) (consumer.logged.tell items) := by
  cases items with
  | nil => exact Step.reports_pure ()
  | cons item rest =>
      rw [tell]
      refine ((reports_tellItem consumer item).weaken ?_).bind fun _ =>
        (reports_tell consumer rest).weaken ?_
      · exact List.subset_append_left _ _
      · exact List.subset_append_right _ _

end

/-- A story that is told to its end has no fault. -/
theorem fault_not_mem_of_tell {items : List Item} {state next : σ}
    (told : (consumer.tell items).run.run state = (.ok (), next)) (cause : ClassError) :
    .fault cause ∉ items := by
  induction items generalizing state with
  | nil => exact List.not_mem_nil
  | cons item rest ih =>
      rw [Consumer.tell] at told
      rcases Step.bind_eq_ok.mp told with ⟨_, between, first, others⟩
      rw [List.mem_cons, not_or]
      refine ⟨?_, ih others⟩
      rintro rfl
      rw [Consumer.tellItem] at first
      cases first

/-- A story that is told to its end has no fault right inside a scope, unless the scope was declined. -/
theorem declined_of_tell {items : List Item} {memory next : Log × σ}
    (told : (consumer.logged.tell items).run.run memory = (.ok (), next))
    {opening : Opening} {body : List Item} (member : .scope opening body ∈ items) {cause : ClassError}
    (inside : .fault cause ∈ body) : (.enter opening, .ok .declined) ∈ next.1 := by
  induction items generalizing memory with
  | nil => cases member
  | cons item rest ih =>
      rw [Consumer.tell] at told
      rcases Step.bind_eq_ok.mp told with ⟨_, between, first, others⟩
      rcases List.mem_cons.mp member with rfl | isBehind
      · rw [Consumer.tellItem] at first
        rcases Step.bind_eq_ok.mp first with ⟨reply, entered, asked, goesOn⟩
        cases reply with
        | declined =>
            have remembered := (reports_tell consumer rest).remembers between
            rw [others] at remembered
            refine remembered.subset ?_
            rcases Step.pure_eq_ok.mp goesOn with ⟨-, rfl⟩
            rw [run_logged_step, Prod.mk.injEq] at asked
            rcases asked with ⟨replied, rfl⟩
            rw [replied]
            exact List.mem_cons_self
        | entered =>
            rcases Step.bind_eq_ok.mp goesOn with ⟨_, _, toldInside, _⟩
            exact absurd inside (fault_not_mem_of_tell toldInside cause)
      · exact ih others isBehind

end Consumer

end ClassFile
