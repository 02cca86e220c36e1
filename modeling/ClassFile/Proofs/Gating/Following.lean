import ClassFile.Proofs.Emits

/-!
# Producers that tell less

`Emit.Follows` relates two producers that are asked for the same thing, one of them for less of it.  Where
the one that is asked for more goes on, the other one goes on with the same value and has told what
corresponds, or it has stopped at something that it may not tell.  What corresponds to what is a
`Correspondence`; the lemmas hold for each of them.
-/

namespace ClassFile

/-- What is told for less in place of what is told for more: by a producer that goes on, and by one that
has stopped. -/
structure Correspondence where
  keeps : List Item → List Item → Prop
  stops : List Item → List Item → Prop
  keeps_nil : keeps [] []
  keeps_append : ∀ {items kept others more}, keeps items kept → keeps others more →
    keeps (items ++ others) (kept ++ more)
  /-- Once a producer has stopped, nothing more matters. -/
  stops_append : ∀ {items kept} others, stops items kept → stops (items ++ others) kept
  append_stops : ∀ {items kept others more}, keeps items kept → stops others more →
    stops (items ++ others) (kept ++ more)

namespace Correspondence

variable {correspondence : Correspondence} {items : List Item}

theorem keeps_of_forall (same : ∀ item ∈ items, correspondence.keeps [item] [item]) :
    correspondence.keeps items items := by
  induction items with
  | nil => exact correspondence.keeps_nil
  | cons item rest ih =>
      rw [List.forall_mem_cons] at same
      exact correspondence.keeps_append same.1 (ih same.2)

theorem keeps_nil_of_forall (dropped : ∀ item ∈ items, correspondence.keeps [item] []) :
    correspondence.keeps items [] := by
  induction items with
  | nil => exact correspondence.keeps_nil
  | cons item rest ih =>
      rw [List.forall_mem_cons] at dropped
      exact correspondence.keeps_append dropped.1 (ih dropped.2)

end Correspondence

namespace Emit

variable {α β γ : Type}

/-- Whether a producer tells the items, whatever was told before, and then goes on or stops. -/
def Runs (emit : Emit α) (result : Except ClassError α) (items : List Item) : Prop :=
  ∀ before, emit.run.run before = (result, before ++ items.toArray)

section Runs

variable {items others : List Item} {value : α} {cause : ClassError}

theorem runs_error {computed : Except ClassError α} (failed : computed = .error cause) :
    Runs (liftM computed) (.error cause) [] := by
  subst failed
  intro before
  simp
  rfl

/-- A producer that stops tells nothing more. -/
theorem Runs.bind {first : Emit α} (stops : Runs first (.error cause) items) (second : α → Emit β) :
    Runs (first >>= second) (.error cause) items := by
  intro before
  rw [ExceptT.run_bind, StateT.run_bind, stops]
  rfl

theorem Emits.bind_runs {first : Emit α} {second : α → Emit β} {result : Except ClassError β}
    (emits : Emits first value items) (runs : Runs (second value) result others) :
    Runs (first >>= second) result (items ++ others) := by
  intro before
  have told := emits before
  rw [Tells] at told
  rw [ExceptT.run_bind, StateT.run_bind, told,
    show before ++ (items ++ others).toArray = before ++ items.toArray ++ others.toArray by simp]
  exact runs _

theorem Runs.collect {emit : Emit α} (runs : Runs emit (.error cause) items) :
    emit.collect = (items ++ [.fault cause], .error cause) := by
  rw [Emit.collect, runs]
  simp

end Runs

/-- Whether one producer tells what corresponds to what another one tells if that goes on: it goes on with
the same value, or stops for the given cause. -/
def Follows (correspondence : Correspondence) (cause : ClassError) (less more : Emit α) : Prop :=
  ∀ ⦃before value after⦄, Tells more before value after →
    ∃ items : List Item, after = before ++ items.toArray ∧
      ((∃ kept, Emits less value kept ∧ correspondence.keeps items kept) ∨
        ∃ kept, Runs less (.error cause) kept ∧ correspondence.stops items kept)

section Follows

variable {correspondence : Correspondence} {cause : ClassError}

theorem Follows.pure (value : α) :
    Follows correspondence cause (Pure.pure value) (Pure.pure value) := by
  intro before result after told
  rcases tells_pure.mp told with ⟨rfl, rfl⟩
  exact ⟨[], by simp, .inl ⟨[], emits_pure _, correspondence.keeps_nil⟩⟩

theorem Follows.throw {less : Emit α} (stopped : ClassError) :
    Follows correspondence cause less (MonadExcept.throw stopped) := by
  intro before result after told
  cases told

/-- The second steps may rely on how the first one of the producer that tells more went on. -/
theorem Follows.bind_tells {less more : Emit α} {lessNext moreNext : α → Emit β}
    (follows : Follows correspondence cause less more)
    (next : ∀ before value after, Tells more before value after →
      Follows correspondence cause (lessNext value) (moreNext value)) :
    Follows correspondence cause (less >>= lessNext) (more >>= moreNext) := by
  intro before result after told
  rcases tells_bind.mp told with ⟨value, between, here, behind⟩
  rcases next _ _ _ here behind with ⟨others, rfl, outcome⟩
  rcases follows here with ⟨items, rfl, ⟨kept, emits, keeps⟩ | ⟨kept, runs, stops⟩⟩
  · refine ⟨items ++ others, by simp, ?_⟩
    rcases outcome with ⟨rest, emitsRest, keepsRest⟩ | ⟨rest, runsRest, stopsRest⟩
    · exact .inl ⟨_, emits.bind emitsRest, correspondence.keeps_append keeps keepsRest⟩
    · exact .inr ⟨_, emits.bind_runs runsRest, correspondence.append_stops keeps stopsRest⟩
  · refine ⟨items ++ others, by simp, .inr ⟨kept, runs.bind _, ?_⟩⟩
    exact correspondence.stops_append others stops

theorem Follows.bind {less more : Emit α} {lessNext moreNext : α → Emit β}
    (follows : Follows correspondence cause less more)
    (next : ∀ value, Follows correspondence cause (lessNext value) (moreNext value)) :
    Follows correspondence cause (less >>= lessNext) (more >>= moreNext) :=
  follows.bind_tells fun _ value _ _ => next value

theorem Follows.gives {less more : Emit α} (follows : Follows correspondence cause less more) :
    Gives (fun _ => True) more := by
  intro before value after told
  rcases follows told with ⟨items, same, -⟩
  exact ⟨items, same, trivial⟩

/-- Where the one that tells more has computed something, the other one has computed what belongs to it,
or it stops in front of something that it may not tell. -/
theorem Follows.bind_computed {less : Except ClassError α} {more : Except ClassError γ}
    {lessNext : α → Emit β} {moreNext : γ → Emit β}
    (next : ∀ value, more = .ok value →
      (∃ other, less = .ok other ∧ Follows correspondence cause (lessNext other) (moreNext value)) ∨
        less = .error cause ∧ Gives (correspondence.stops · []) (moreNext value)) :
    Follows correspondence cause (liftM less >>= lessNext) (liftM more >>= moreNext) := by
  intro before result after told
  rcases tells_bind_lift.mp told with ⟨value, found, behind⟩
  rcases next value found with ⟨other, same, follows⟩ | ⟨failed, gives⟩
  · rcases follows behind with ⟨items, rfl, outcome⟩
    refine ⟨items, rfl, outcome.imp ?_ ?_⟩
    · rintro ⟨kept, emits, keeps⟩
      exact ⟨kept, emits.bind_lift same, keeps⟩
    · rintro ⟨kept, runs, stops⟩
      exact ⟨kept, by simpa using (emits_lift same).bind_runs runs, stops⟩
  · rcases gives behind with ⟨items, rfl, stops⟩
    exact ⟨items, rfl, .inr ⟨[], (runs_error failed).bind _, stops⟩⟩

/-- The second steps may rely on what both have computed. -/
theorem Follows.bind_lift {computed : Except ClassError α} {lessNext moreNext : α → Emit β}
    (next : ∀ value, computed = .ok value →
      Follows correspondence cause (lessNext value) (moreNext value)) :
    Follows correspondence cause (liftM computed >>= lessNext) (liftM computed >>= moreNext) :=
  Follows.bind_computed fun value found => .inl ⟨value, found, next value found⟩

/-- First steps of which it is known what each tells and with which value it goes on. -/
theorem Follows.bind_emits {less : Emit α} {more : Emit β} {lessNext : α → Emit γ}
    {moreNext : β → Emit γ} {value : α} {other : β} {items kept : List Item}
    (emitsMore : Emits more other items) (emitsLess : Emits less value kept)
    (keeps : correspondence.keeps items kept)
    (next : Follows correspondence cause (lessNext value) (moreNext other)) :
    Follows correspondence cause (less >>= lessNext) (more >>= moreNext) := by
  intro before result after told
  rcases tells_bind.mp told with ⟨value, between, here, behind⟩
  rcases emitsMore.tells_iff.mp here with ⟨rfl, rfl⟩
  rcases next behind with ⟨others, rfl, outcome⟩
  refine ⟨items ++ others, by simp, ?_⟩
  rcases outcome with ⟨rest, emitsRest, keepsRest⟩ | ⟨rest, runsRest, stopsRest⟩
  · exact .inl ⟨_, emitsLess.bind emitsRest, correspondence.keeps_append keeps keepsRest⟩
  · exact .inr ⟨_, emitsLess.bind_runs runsRest, correspondence.append_stops keeps stopsRest⟩

/-- A producer tells the same as itself, if all that it tells is kept. -/
theorem Only.follows {emit : Emit α}
    (only : Only (fun item => correspondence.keeps [item] [item]) emit) :
    Follows correspondence cause emit emit := by
  intro before value after told
  rcases only.tells told with ⟨items, rfl, emits, same⟩
  refine ⟨items.toList, by simp, .inl ⟨items.toList, fun other => by simpa using emits other, ?_⟩⟩
  exact correspondence.keeps_of_forall fun item member => same item (Array.mem_toList_iff.mp member)

/-- Nothing is told in place of what is dropped. -/
theorem Only.dropped {emit : Emit Unit}
    (only : Only (fun item => correspondence.keeps [item] []) emit) :
    Follows correspondence cause (Pure.pure ()) emit := by
  intro before value after told
  rcases only.tells told with ⟨items, rfl, -, dropped⟩
  refine ⟨items.toList, by simp, .inl ⟨[], emits_pure _, ?_⟩⟩
  exact correspondence.keeps_nil_of_forall fun item member =>
    dropped item (Array.mem_toList_iff.mp member)

/-- A step that both leave out unless a condition holds: where it holds for less it holds for more. -/
theorem Follows.guarded {less more : Prop} [Decidable less] [Decidable more]
    {lessStep moreStep : Emit Unit} {lessNext moreNext : Unit → Emit β} (weaker : less → more)
    (kept : less → Follows correspondence cause lessStep moreStep)
    (dropped : ¬less → Follows correspondence cause (Pure.pure ()) moreStep)
    (next : Follows correspondence cause (lessNext ()) (moreNext ())) :
    Follows correspondence cause (if less then lessStep >>= lessNext else lessNext ())
      (if more then moreStep >>= moreNext else moreNext ()) := by
  by_cases asked : less
  · rw [if_pos asked, if_pos (weaker asked)]
    exact (kept asked).bind fun _ => next
  · rw [if_neg asked]
    by_cases possible : more
    · rw [if_pos possible]
      have both : Follows correspondence cause (Pure.pure () >>= lessNext) (moreStep >>= moreNext) :=
        (dropped asked).bind fun _ => next
      rwa [pure_bind] at both
    · rwa [if_neg possible]

theorem Follows.member {opening : Opening} {less more : Emit Unit}
    (keeps : correspondence.keeps [.scope opening more.script] [.scope opening less.script]) :
    Follows correspondence cause (member opening less) (member opening more) := by
  intro before value after told
  rw [tells_member] at told
  refine ⟨_, by rw [← told, Array.push_eq_append], .inl ⟨_, fun other => ?_, keeps⟩⟩
  exact tells_member.mpr (Array.push_eq_append ..)

end Follows

end Emit

end ClassFile
