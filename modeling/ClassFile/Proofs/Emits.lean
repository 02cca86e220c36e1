import ClassFile.Proofs.Script

/-!
# What a producer tells wherever it is asked to

`Emit.Emits` says what a producer tells, and `Emit.Gives` what is known of it.  The lemmas follow the
steps of a producer.
-/

namespace ClassFile

namespace Emit

variable {α β : Type} {before after : Array Item} {items others : List Item} {value : α} {result : β}

/-- Whether a producer tells the items, whatever was told before, and goes on with a value. -/
def Emits (emit : Emit α) (value : α) (items : List Item) : Prop :=
  ∀ before, Tells emit before value (before ++ items.toArray)

theorem emits_pure (value : α) : Emits (pure value) value [] :=
  fun _ => tells_pure.mpr ⟨rfl, by simp⟩

theorem Emits.bind {first : Emit α} {second : α → Emit β} (emits : Emits first value items)
    (next : Emits (second value) result others) : Emits (first >>= second) result (items ++ others) := by
  intro before
  refine tells_bind.mpr ⟨value, _, emits before, ?_⟩
  rw [show before ++ (items ++ others).toArray = before ++ items.toArray ++ others.toArray by simp]
  exact next _

theorem emits_lift {computed : Except ClassError α} (found : computed = .ok value) :
    Emits (liftM computed) value [] :=
  fun _ => tells_lift.mpr ⟨found, by simp⟩

theorem Emits.bind_lift {computed : Except ClassError α} {second : α → Emit β}
    (found : computed = .ok value) (next : Emits (second value) result items) :
    Emits (liftM computed >>= second) result items :=
  (emits_lift found).bind next

theorem emits_tell (event : Event) : Emits (tell event) () [.event event] :=
  fun _ => tells_tell.mpr (Array.push_eq_append ..)

theorem tells_bind_lift {computed : Except ClassError α} {second : α → Emit β} :
    Tells (liftM computed >>= second) before result after ↔
      ∃ value, computed = .ok value ∧ Tells (second value) before result after := by
  rw [tells_bind]
  constructor
  · rintro ⟨value, between, lifted, told⟩
    rcases tells_lift.mp lifted with ⟨found, rfl⟩
    exact ⟨value, found, told⟩
  · rintro ⟨value, found, told⟩
    exact ⟨value, before, tells_lift.mpr ⟨found, rfl⟩, told⟩

theorem tells_bind_tell {event : Event} {second : Unit → Emit β} :
    Tells (tell event >>= second) before result after ↔
      Tells (second ()) (before.push (.event event)) result after := by
  rw [tells_bind]
  constructor
  · rintro ⟨_, between, told, behind⟩
    rwa [tells_tell.mp told]
  · intro behind
    exact ⟨(), _, tells_tell.mpr rfl, behind⟩

theorem Emits.tells_iff {emit : Emit α} (emits : Emits emit value items) {other : α} :
    Tells emit before other after ↔ other = value ∧ after = before ++ items.toArray := by
  have told := emits before
  rw [Tells] at told
  rw [Tells, told, Prod.mk.injEq, Except.ok.injEq, eq_comm, @eq_comm _ _ after]

theorem Emits.only {emit : Emit α} (emits : Emits emit value items) {P : Item → Prop}
    (holds : ∀ item ∈ items, P item) : Only P emit :=
  ⟨.ok value, items.toArray, emits, by simpa using holds⟩

theorem Emits.discard {emit : Emit α} (emits : Emits emit value items) : Emits (discard emit) () items := by
  have both : Emits (emit >>= fun _ => pure ()) () (items ++ []) := emits.bind (emits_pure ())
  rw [List.append_nil] at both
  exact both

theorem Emits.collect {emit : Emit α} (emits : Emits emit value items) :
    emit.collect = (items, .ok value) := by
  have told := emits #[]
  rw [Array.empty_append] at told
  exact collect_eq_ok.mpr told

theorem tells_eager {opening : Opening} {body : Emit α} :
    Tells (eager opening body) before value after ↔
      ∃ items, body.collect = (items, .ok value) ∧ after = before.push (.scope opening items) := by
  unfold eager
  rcases body.collect with ⟨items, outcome⟩
  dsimp only
  constructor
  · intro told
    rcases tells_bind.mp told with ⟨_, between, pushed, gave⟩
    rcases tells_lift.mp gave with ⟨rfl, rfl⟩
    exact ⟨items, rfl, (tells_modify.mp pushed).symm⟩
  · rintro ⟨_, same, rfl⟩
    cases same
    exact tells_bind.mpr ⟨⟨⟩, _, tells_modify.mpr rfl, tells_lift.mpr ⟨rfl, rfl⟩⟩

theorem tells_member {opening : Opening} {body : Emit Unit} {value : Unit} :
    Tells (member opening body) before value after ↔
      before.push (.scope opening body.script) = after :=
  tells_modify

theorem Emits.eager {opening : Opening} {body : Emit α} (emits : Emits body value items) :
    Emits (eager opening body) value [.scope opening items] :=
  fun _ => tells_eager.mpr ⟨items, emits.collect, (Array.push_eq_append ..).symm⟩

theorem Emits.member {opening : Opening} {body : Emit Unit} (emits : Emits body () items) :
    Emits (member opening body) () [.scope opening items] := by
  intro before
  refine tells_member.mpr ?_
  rw [script, emits.collect]
  exact Array.push_eq_append ..

/-- What is told of each value in a list. -/
theorem emits_forM {each : α → Emit Unit} {item : α → Item} {values : List α}
    (emits : ∀ value ∈ values, Emits (each value) () [item value]) :
    Emits (values.forM each) () (values.map item) := by
  induction values with
  | nil => exact emits_pure ()
  | cons value rest ih =>
      rw [List.forall_mem_cons] at emits
      exact emits.1.bind (ih emits.2)

/-- What was told of the values in a list, if each of them is told by one item. -/
theorem tells_forM {each : α → Emit Unit} {told : α → Item → Prop} {values : List α} {value : Unit}
    (one : ∀ value ∈ values, ∀ before after, Tells (each value) before () after →
      ∃ item, after = before.push item ∧ told value item)
    (all : Tells (values.forM each) before value after) :
    ∃ items, after = before ++ items.toArray ∧ List.Forall₂ told values items := by
  induction values generalizing before with
  | nil => exact ⟨[], by simpa using (tells_forM_nil.mp all).symm, .nil⟩
  | cons first rest ih =>
      rw [List.forall_mem_cons] at one
      rcases tells_bind.mp all with ⟨_, between, here, behind⟩
      rcases one.1 _ _ here with ⟨item, rfl, isItem⟩
      rcases ih one.2 behind with ⟨items, rfl, others⟩
      refine ⟨item :: items, ?_, .cons isItem others⟩
      simp

/-! ### What is known of the items -/

/-- Whether what a producer tells, if it goes on, has a property as a whole. -/
def Gives (P : List Item → Prop) (emit : Emit α) : Prop :=
  ∀ ⦃before value after⦄, Tells emit before value after →
    ∃ items : List Item, after = before ++ items.toArray ∧ P items

section Gives

variable {P Q R : List Item → Prop}

theorem Gives.weaken {emit : Emit α} (gives : Gives P emit) (weaker : ∀ items, P items → Q items) :
    Gives Q emit := by
  intro before value after told
  rcases gives told with ⟨items, rfl, holds⟩
  exact ⟨items, rfl, weaker items holds⟩

theorem Gives.and {emit : Emit α} (gives : Gives P emit) (also : Gives Q emit) :
    Gives (fun items => P items ∧ Q items) emit := by
  intro before value after told
  rcases gives told with ⟨items, rfl, holds⟩
  rcases also told with ⟨others, same, alsoHolds⟩
  obtain rfl : items = others := by simpa using congrArg Array.toList same
  exact ⟨items, rfl, holds, alsoHolds⟩

theorem Gives.pure (nothing : P []) (value : α) : Gives P (pure value) := by
  intro before result after told
  rw [tells_pure] at told
  exact ⟨[], by simp [told.2], nothing⟩

theorem Gives.throw (cause : ClassError) : Gives P (throw cause : Emit α) := by
  intro before result after told
  cases told

/-- The second step may rely on how the first went on. -/
theorem Gives.bind_tells {first : Emit α} {second : α → Emit β} (gives : Gives P first)
    (next : ∀ before value after, Tells first before value after → Gives Q (second value))
    (both : ∀ items others, P items → Q others → R (items ++ others)) :
    Gives R (first >>= second) := by
  intro before result after told
  rcases tells_bind.mp told with ⟨value, between, here, behind⟩
  rcases gives here with ⟨items, rfl, holds⟩
  rcases next _ _ _ here behind with ⟨others, rfl, alsoHolds⟩
  exact ⟨items ++ others, by simp, both items others holds alsoHolds⟩

theorem Gives.bind {first : Emit α} {second : α → Emit β} (gives : Gives P first)
    (next : ∀ value, Gives Q (second value))
    (both : ∀ items others, P items → Q others → R (items ++ others)) :
    Gives R (first >>= second) :=
  gives.bind_tells (fun _ value _ _ => next value) both

/-- The second step may rely on what was computed. -/
theorem Gives.bind_lift {computed : Except ClassError α} {second : α → Emit β}
    (next : ∀ value, computed = .ok value → Gives P (second value)) :
    Gives P (liftM computed >>= second) := by
  intro before result after told
  rcases tells_bind_lift.mp told with ⟨value, found, behind⟩
  exact next value found behind

theorem Gives.tell {event : Event} (holds : P [.event event]) : Gives P (tell event) := by
  intro before value after told
  rw [tells_tell] at told
  exact ⟨[.event event], by simp [← told], holds⟩

theorem Gives.member {opening : Opening} {body : Emit Unit} (holds : P [.scope opening body.script]) :
    Gives P (member opening body) := by
  intro before value after told
  rw [tells_member] at told
  exact ⟨_, by simp [← told], holds⟩

theorem Gives.eager {opening : Opening} {body : Emit α} (gives : Gives Q body)
    (holds : ∀ items, Q items → P [.scope opening items]) : Gives P (eager opening body) := by
  intro before value after told
  rcases tells_eager.mp told with ⟨items, collected, rfl⟩
  rcases gives (collect_eq_ok.mp collected) with ⟨inside, same, known⟩
  obtain rfl : items = inside := by simpa using same
  exact ⟨_, by simp, holds items known⟩

theorem Gives.discard {emit : Emit α} (gives : Gives P emit) : Gives P (discard emit) := by
  intro before value after told
  rcases tells_bind.mp told with ⟨found, between, here, ended⟩
  rcases gives here with ⟨items, rfl, holds⟩
  exact ⟨items, (tells_pure.mp ended).2.symm, holds⟩

theorem Gives.collect {emit : Emit α} (gives : Gives P emit) {items : Script} {value : α}
    (collected : emit.collect = (items, .ok value)) : P items := by
  rcases gives (collect_eq_ok.mp collected) with ⟨inside, same, known⟩
  obtain rfl : items = inside := by simpa using same
  exact known

/-- What is told of every value in a list, where the parts fit together in their order. -/
theorem Gives.forM {values : List α} {each : α → Emit Unit}
    (gives : ∀ value ∈ values, Gives P (each value)) (nothing : P [])
    (both : ∀ items others, P items → P others → P (items ++ others)) :
    Gives P (values.forM each) := by
  induction values with
  | nil => exact Gives.pure nothing _
  | cons value values ih =>
      rw [List.forall_mem_cons] at gives
      exact gives.1.bind (fun _ => ih gives.2) both

end Gives

/-- Whether each item that a producer tells, if it goes on, has a property. -/
abbrev GivesEach (P : Item → Prop) (emit : Emit α) : Prop :=
  Gives (fun items => ∀ item ∈ items, P item) emit

section GivesEach

variable {P Q : Item → Prop}

theorem forall_mem_append_of (items others : List Item) (holds : ∀ item ∈ items, P item)
    (alsoHolds : ∀ item ∈ others, P item) : ∀ item ∈ items ++ others, P item :=
  List.forall_mem_append.mpr ⟨holds, alsoHolds⟩

theorem GivesEach.pure (value : α) : GivesEach P (pure value) :=
  Gives.pure (by simp) value

theorem GivesEach.bind {first : Emit α} {second : α → Emit β} (gives : GivesEach P first)
    (next : ∀ value, GivesEach P (second value)) : GivesEach P (first >>= second) :=
  Gives.bind gives next forall_mem_append_of

theorem GivesEach.tell {event : Event} (holds : P (.event event)) : GivesEach P (tell event) :=
  Gives.tell (by simpa using holds)

theorem GivesEach.member {opening : Opening} {body : Emit Unit}
    (holds : P (.scope opening body.script)) : GivesEach P (member opening body) :=
  Gives.member (by simpa using holds)

theorem GivesEach.eager {opening : Opening} {body : Emit α} (gives : GivesEach Q body)
    (holds : ∀ items, (∀ item ∈ items, Q item) → P (.scope opening items)) :
    GivesEach P (eager opening body) :=
  Gives.eager gives fun items known => by simpa using holds items known

theorem GivesEach.forM {values : List α} {each : α → Emit Unit}
    (gives : ∀ value ∈ values, GivesEach P (each value)) : GivesEach P (values.forM each) :=
  Gives.forM gives (by simp) forall_mem_append_of

end GivesEach

end Emit

end ClassFile
