import ClassFile.Proofs.Safety.Story

/-!
# Decoding is safe

To a consumer that takes every event, any bytes are told to their end, or they are found malformed or of
a version that is too new.  No step of the machine fails and no loop runs on, whatever the bytes claim.
-/

namespace ClassFile

variable {α β σ : Type}

/-! ### Steps that end well -/

/-- Whether a step, in whatever state, gives a value or finds the bytes malformed. -/
def Step.EndsWell (step : Step σ α) : Prop :=
  ∀ state, ∃ next, (∃ value, step.run.run state = (.ok value, next)) ∨
    ∃ cause, step.run.run state = (.error (.error cause), next) ∧ cause.isMalformed = true

namespace Step

theorem endsWell_pure (value : α) : (pure value : Step σ α).EndsWell :=
  fun state => ⟨state, .inl ⟨value, rfl⟩⟩

theorem endsWell_failure {cause : ClassError} (malformed : cause.isMalformed = true) :
    (failure cause : Step σ α).EndsWell :=
  fun state => ⟨state, .inr ⟨cause, rfl, malformed⟩⟩

theorem EndsWell.bind {first : Step σ α} {second : α → Step σ β} (ends : first.EndsWell)
    (goesOn : ∀ value, (second value).EndsWell) : (first >>= second).EndsWell := by
  intro state
  rw [ExceptT.run_bind, StateT.run_bind]
  rcases ends state with ⟨between, ⟨value, ran⟩ | ⟨cause, ran, malformed⟩⟩
  · rw [ran]
    exact goesOn value between
  · rw [ran]
    exact ⟨between, .inr ⟨cause, rfl, malformed⟩⟩

end Step

namespace Consumer

variable {consumer : Consumer σ}

/-- Whether a consumer takes every event, whatever it replies. -/
def NeverFails (consumer : Consumer σ) : Prop :=
  ∀ event state, ∃ reply next, (consumer.step event).run.run state = (.ok reply, next)

theorem NeverFails.endsWell (takes : consumer.NeverFails) (event : Event) :
    (consumer.step event).EndsWell := by
  intro state
  obtain ⟨reply, next, ran⟩ := takes event state
  exact ⟨next, .inl ⟨reply, ran⟩⟩

/-- A list of items ends well if each of them does. -/
theorem endsWell_tell {script : Script} (items : ∀ item ∈ script, (consumer.tellItem item).EndsWell) :
    (consumer.tell script).EndsWell := by
  induction script with
  | nil =>
      rw [Consumer.tell]
      exact Step.endsWell_pure ()
  | cons item rest ih =>
      rw [List.forall_mem_cons] at items
      rw [Consumer.tell]
      exact items.1.bind fun _ => ih items.2

theorem NeverFails.endsWell_tellItem (takes : consumer.NeverFails) {item : Item}
    (blames : item.BlamesBytes) : (consumer.tellItem item).EndsWell := by
  induction blames with
  | event =>
      rw [Consumer.tellItem]
      exact (takes.endsWell _).bind fun _ => Step.endsWell_pure ()
  | fault malformed =>
      rw [Consumer.tellItem]
      exact Step.endsWell_failure malformed
  | scope inside ih =>
      rw [Consumer.tellItem]
      refine (takes.endsWell _).bind fun reply => ?_
      cases reply with
      | declined => exact Step.endsWell_pure ()
      | entered =>
          refine (endsWell_tell ih).bind fun _ => ?_
          exact (takes.endsWell _).bind fun _ => Step.endsWell_pure ()

end Consumer

/-! ### Decoding -/

theorem ClassImage.IsSafe.endsWell_tell {image : ClassImage} (safe : image.IsSafe)
    {options : ReadOptions} (supports : options.api.supports .v7 = true)
    (decodes : options.DecodesSafely) {consumer : Consumer σ} (takes : consumer.NeverFails) :
    (consumer.tell (image.script options)).EndsWell :=
  Consumer.endsWell_tell fun item member =>
    takes.endsWell_tellItem (safe.blamesBytes_of_mem_script supports decodes item member)

/-- Whatever the bytes are, whatever is left out and whatever scopes the consumer declines, decoding ends:
the class is told to its end, or the bytes are malformed or of a version that is too new. -/
theorem Consumer.decode_ends_or_blames_bytes (consumer : Consumer σ) (takes : consumer.NeverFails)
    (input : Input) (small : input.IsSmall) (skipCode skipDebug skipFrames : Bool) (state : σ) :
    ∃ next,
      (consumer.decode input { skipCode, skipDebug, skipFrames }).run.run state = (.ok (), next) ∨
        ∃ cause,
          (consumer.decode input { skipCode, skipDebug, skipFrames }).run.run state =
            (.error (.error cause), next) ∧
          (cause.isMalformed = true ∨ ∃ major, cause = .unsupportedVersion major) := by
  unfold Consumer.decode
  rcases ClassImage.ofInput?_cases small with ⟨image, read, safe⟩ | ⟨cause, failed, blamed⟩
  · rw [read]
    have decodes : ({ skipCode, skipDebug, skipFrames } : ReadOptions).DecodesSafely :=
      fun _ _ _ => trivial
    obtain ⟨next, ⟨_, ended⟩ | ⟨cause, stopped, malformed⟩⟩ :=
      safe.endsWell_tell rfl decodes takes state
    · exact ⟨next, .inl ended⟩
    · exact ⟨next, .inr ⟨cause, stopped, .inl malformed⟩⟩
  · rw [failed]
    exact ⟨state, .inr ⟨cause, rfl, blamed⟩⟩

/-- The start of a file whose pool claims an entry that is not there any more. -/
theorem Consumer.decode_ends_or_blames_bytes_cut :
    silent.NeverFails ∧ (⟨⟨#[202, 254, 186, 190, 0, 0, 0, 61, 0, 2]⟩⟩ : Input).IsSmall ∧
      ∃ next,
        (silent.decode ⟨⟨#[202, 254, 186, 190, 0, 0, 0, 61, 0, 2]⟩⟩ {}).run.run () = (.ok (), next) ∨
          ∃ cause,
            (silent.decode ⟨⟨#[202, 254, 186, 190, 0, 0, 0, 61, 0, 2]⟩⟩ {}).run.run () =
              (.error (.error cause), next) ∧
            (cause.isMalformed = true ∨ ∃ major, cause = .unsupportedVersion major) := by
  have takes : silent.NeverFails := fun event state => ⟨_, state, rfl⟩
  have small : (⟨⟨#[202, 254, 186, 190, 0, 0, 0, 61, 0, 2]⟩⟩ : Input).IsSmall := by decide
  exact ⟨takes, small, decode_ends_or_blames_bytes silent takes _ small false false false ()⟩

end ClassFile
