import ClassFile.Draft
import ClassFile.Proofs.Pool.Adding

/-!
# Steps of writing

`Draft.Runs Before step After` says what a step that succeeds does to a part and to the pool beside
it: a builder that holds some content holds at least as much afterwards, and whatever was known of
the part and of every pool with the content (`Before`) leads to what is known then (`After`).
-/

namespace ClassFile

namespace Draft

variable {σ τ α β : Type}

/-- The result of a step, and the part and the builder that it leaves. -/
def on (step : Draft σ α) (state : σ × PoolBuilder) : Except Fault α × σ × PoolBuilder :=
  step.run.run state

theorem on_pure (value : α) (state : σ × PoolBuilder) :
    on (pure value : Draft σ α) state = (.ok value, state) :=
  rfl

theorem on_bind (first : Draft σ α) (second : α → Draft σ β) (state : σ × PoolBuilder) :
    on (first >>= second) state =
      match first.on state with
      | (.ok value, next) => (second value).on next
      | (.error cause, next) => (.error cause, next) := by
  unfold on
  rw [ExceptT.run_bind, StateT.run_bind]
  rcases StateT.run first.run state with ⟨_ | value, next⟩ <;> rfl

theorem on_look (view : σ → α) (state : σ × PoolBuilder) :
    on (look view) state = (.ok (view state.1), state) :=
  rfl

theorem on_change (update : σ → σ) (state : σ × PoolBuilder) :
    on (change update) state = (.ok (), update state.1, state.2) :=
  rfl

theorem on_pooled (adding : Pooling α) (part : σ) (builder : PoolBuilder) :
    on (pooled adding) (part, builder) =
      match adding.on builder with
      | (.ok value, next) => (.ok value, part, next)
      | (.error cause, next) => (.error (.error cause), part, next) :=
  rfl

theorem on_tryChange (update : σ → Except ClassError σ) (part : σ) (builder : PoolBuilder) :
    on (tryChange update) (part, builder) =
      match update part with
      | .ok next => (.ok (), next, builder)
      | .error cause => (.error (.error cause), part, builder) :=
  rfl

theorem on_within (get : σ → τ) (put : τ → σ → σ) (write : Draft τ α) (whole : σ)
    (builder : PoolBuilder) :
    on (within get put write) (whole, builder) =
      match write.on (get whole, builder) with
      | (result, part, next) => (result, put part whole, next) :=
  rfl

/-- What a step that succeeds does, if the builder holds some content. -/
def Runs (Before : σ → Pool → Prop) (step : Draft σ α) (After : α → σ → Pool → Prop) : Prop :=
  ∀ (part : σ) (builder : PoolBuilder) (content : PoolContent), builder.Holds content →
    (∀ pool : Pool, pool.Has content → Before part pool) →
    ∀ (value : α) (next : σ) (last : PoolBuilder),
      step.on (part, builder) = (.ok value, next, last) →
        ∃ later, PoolBuilder.Added builder content last later ∧
          ∀ pool : Pool, pool.Has later → After value next pool

section Rules

variable {Before : σ → Pool → Prop}

theorem Runs.bind {first : Draft σ α} {second : α → Draft σ β} {Middle : α → σ → Pool → Prop}
    {After : β → σ → Pool → Prop} (runs : Runs Before first Middle)
    (next : ∀ value, Runs (Middle value) (second value) After) :
    Runs Before (first >>= second) After := by
  intro part builder content holds before result last final ran
  rw [on_bind] at ran
  rcases ranFirst : first.on (part, builder) with ⟨_ | value, middle, between⟩
  case error cause =>
    rw [ranFirst] at ran
    cases ran
  case ok =>
    rw [ranFirst] at ran
    rcases runs _ _ _ holds before _ _ _ ranFirst with ⟨content', added, meant⟩
    rcases next value _ _ _ added.holds meant _ _ _ ran with ⟨later, addedLater, meantLater⟩
    exact ⟨later, added.trans addedLater, meantLater⟩

theorem Runs.weaken {step : Draft σ α} {Before' : σ → Pool → Prop}
    {After After' : α → σ → Pool → Prop} (runs : Runs Before step After)
    (before : ∀ part pool, Before' part pool → Before part pool)
    (after : ∀ value part pool, After value part pool → After' value part pool) :
    Runs Before' step After' := by
  intro part builder content holds known value next last ran
  rcases runs _ _ _ holds (fun pool has => before part pool (known pool has)) _ _ _ ran with
    ⟨later, added, meant⟩
  exact ⟨later, added, fun pool has => after value next pool (meant pool has)⟩

theorem Runs.pure (value : α) :
    Runs Before (pure value) fun result part pool => result = value ∧ Before part pool := by
  intro part builder content holds before result next last ran
  cases ran
  exact ⟨content, .refl holds, fun pool has => ⟨rfl, before pool has⟩⟩

theorem Runs.look (view : σ → α) :
    Runs Before (look view) fun value part pool => value = view part ∧ Before part pool := by
  intro part builder content holds before result next last ran
  cases ran
  exact ⟨content, .refl holds, fun pool has => ⟨rfl, before pool has⟩⟩

theorem Runs.change {update : σ → σ} {After : σ → Pool → Prop}
    (keeps : ∀ part pool, Before part pool → After (update part) pool) :
    Runs Before (change update) fun _ => After := by
  intro part builder content holds before result next last ran
  cases ran
  exact ⟨content, .refl holds, fun pool has => keeps part pool (before pool has)⟩

theorem Runs.lift {computed : Except Fault α} :
    Runs Before (liftM computed) fun value part pool => computed = .ok value ∧ Before part pool := by
  intro part builder content holds before result next last ran
  cases computed with
  | ok value =>
      cases ran
      exact ⟨content, .refl holds, fun pool has => ⟨rfl, before pool has⟩⟩
  | error cause => cases ran

/-- A failure has nothing to answer for. -/
theorem Runs.throw (cause : Fault) {After : α → σ → Pool → Prop} :
    Runs Before (throw cause) After := by
  intro part builder content holds before result next last ran
  cases ran

theorem Runs.pooled {adding : Pooling α} {After : α → Pool → Prop}
    (adds : PoolBuilder.Adds (fun _ => True) adding After) :
    Runs Before (pooled adding) fun value part pool => Before part pool ∧ After value pool := by
  intro part builder content holds before result next last ran
  rw [on_pooled] at ran
  rcases ranAdding : adding.on builder with ⟨_ | value, between⟩
  case error cause =>
    rw [ranAdding] at ran
    cases ran
  case ok =>
    rw [ranAdding] at ran
    cases ran
    rcases adds _ _ holds (fun _ _ => trivial) _ _ ranAdding with ⟨_, later, rfl, added, gave⟩
    exact ⟨later, added, fun pool has =>
      ⟨before pool (has.mono added.contentGrows), (gave _ rfl).1 pool has⟩⟩

theorem Runs.tryChange {update : σ → Except ClassError σ} {After : σ → Pool → Prop}
    (keeps : ∀ part next pool, Before part pool → update part = .ok next → After next pool) :
    Runs Before (tryChange update) fun _ => After := by
  intro part builder content holds before result next last ran
  rw [on_tryChange] at ran
  cases updated : update part with
  | ok changed =>
      rw [updated] at ran
      cases ran
      exact ⟨content, .refl holds, fun pool has => keeps part _ pool (before pool has) updated⟩
  | error cause =>
      rw [updated] at ran
      cases ran

/-- A step on a part of the part. -/
theorem Runs.within {get : σ → τ} {put : τ → σ → σ} {write : Draft τ α}
    {Inner : τ → Pool → Prop} {Written : α → τ → Pool → Prop} {After : α → σ → Pool → Prop}
    (runs : Runs Inner write Written) (inner : ∀ whole pool, Before whole pool → Inner (get whole) pool)
    (outer : ∀ whole pool value part, Before whole pool → Written value part pool →
      After value (put part whole) pool) :
    Runs Before (within get put write) After := by
  intro whole builder content holds before value next last ran
  rw [on_within] at ran
  rcases ranInner : write.on (get whole, builder) with ⟨result, part, between⟩
  rw [ranInner] at ran
  cases ran
  rcases runs _ _ _ holds (fun pool has => inner whole pool (before pool has)) _ _ _ ranInner with
    ⟨later, added, meant⟩
  exact ⟨later, added, fun pool has =>
    outer whole pool value part (before pool (has.mono added.contentGrows)) (meant pool has)⟩

end Rules

end Draft

end ClassFile
