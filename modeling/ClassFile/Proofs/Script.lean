import ClassFile.Proofs.Result
import ClassFile.Script

/-!
# What a producer tells

`Emit.Tells emit before value after` says that a producer which starts behind the items `before`
goes on with a value and has told `after` by then.  The lemmas take a producer apart into its steps,
in the order in which they tell.

`Emit.Only P emit` says that whatever the producer tells, whether it can go on or not, satisfies `P`.
-/

namespace ClassFile

namespace Emit

variable {α β : Type} {before after : Array Item}

/-- Whether the producer goes on with a value, and which items there are then. -/
def Tells (emit : Emit α) (before : Array Item) (value : α) (after : Array Item) : Prop :=
  emit.run.run before = (.ok value, after)

theorem tells_pure {value result : α} :
    Tells (pure value) before result after ↔ value = result ∧ before = after := by
  unfold Tells
  rw [ExceptT.run_pure, StateT.run_pure, show (pure (Except.ok value, before) :
    Id (Except ClassError α × Array Item)) = (.ok value, before) from rfl, Prod.mk.injEq,
    Except.ok.injEq]

theorem tells_bind {first : Emit α} {second : α → Emit β} {result : β} :
    Tells (first >>= second) before result after ↔
      ∃ value between, Tells first before value between ∧
        Tells (second value) between result after := by
  unfold Tells
  rw [ExceptT.run_bind, StateT.run_bind]
  rcases StateT.run first.run before with ⟨_ | value, between⟩
  · constructor
    · rintro stopped
      cases stopped
    · rintro ⟨_, _, stopped, -⟩
      cases stopped
  · constructor
    · intro told
      exact ⟨value, between, rfl, told⟩
    · rintro ⟨_, _, same, told⟩
      cases same
      exact told

theorem tells_lift {computed : Except ClassError α} {result : α} :
    Tells (liftM computed) before result after ↔ computed = .ok result ∧ before = after := by
  cases computed with
  | ok value => exact tells_pure.trans (by rw [Except.ok.injEq])
  | error cause =>
      constructor
      · intro stopped
        cases stopped
      · rintro ⟨stopped, -⟩
        cases stopped

theorem tells_modify {update : Array Item → Array Item} {result : PUnit} :
    Tells (modify update) before result after ↔ update before = after := by
  constructor
  · intro told
    cases told
    rfl
  · rintro rfl
    rfl

theorem tells_tell {event : Event} {result : Unit} :
    Tells (tell event) before result after ↔ before.push (.event event) = after :=
  tells_modify

theorem tells_forM_nil {each : α → Emit Unit} {result : Unit} :
    Tells ([].forM each) before result after ↔ before = after :=
  tells_pure.trans (and_iff_right rfl)

/-- A script that no fault ends is what its producer tells. -/
theorem collect_eq_ok {emit : Emit α} {items : Script} {value : α} :
    emit.collect = (items, .ok value) ↔ Tells emit #[] value items.toArray := by
  unfold collect Tells
  rcases emit.run.run #[] with ⟨_ | other, told⟩
  · constructor
    · rintro ⟨⟩
    · rintro ⟨⟩
  · constructor
    · rintro ⟨⟩
      rfl
    · rintro ⟨⟩
      rfl

/-- Whether a producer tells the same, wherever it is asked to, and nothing but items with a property. -/
def Only (P : Item → Prop) (emit : Emit α) : Prop :=
  ∃ result told, (∀ before, emit.run.run before = (result, before ++ told)) ∧ ∀ item ∈ told, P item

/-- A script without a fault is whole. -/
theorem collect_of_no_fault {emit : Emit Unit} (whole : ∀ cause, .fault cause ∉ emit.script) :
    emit.collect = (emit.script, .ok ()) := by
  rcases told : emit.collect with ⟨items, cause | value⟩
  · refine absurd ?_ (whole cause)
    rw [script, told]
    unfold collect at told
    split at told
    · cases told
    · cases told
      simp
  · rw [script, told]

section Only

variable {P : Item → Prop}

theorem Only.weaken {Q : Item → Prop} {emit : Emit α} (only : Only P emit)
    (weaker : ∀ item, P item → Q item) : Only Q emit := by
  rcases only with ⟨result, told, runs, holds⟩
  exact ⟨result, told, runs, fun item member => weaker item (holds item member)⟩

theorem Only.lift (computed : Except ClassError α) : Only P (liftM computed) := by
  refine ⟨computed, #[], fun before => ?_, by simp⟩
  rw [Array.append_empty]
  cases computed <;> rfl

theorem Only.pure (value : α) : Only P (pure value) :=
  Only.lift (.ok value)

theorem Only.throw (cause : ClassError) : Only P (throw cause : Emit α) :=
  Only.lift (.error cause)

/-- The second step may rely on how the first went on. -/
theorem Only.bind_tells {first : Emit α} {second : α → Emit β} (only : Only P first)
    (next : ∀ before value after, Tells first before value after → Only P (second value)) :
    Only P (first >>= second) := by
  rcases only with ⟨result, told, runs, holds⟩
  cases result with
  | error cause =>
      refine ⟨.error cause, told, fun before => ?_, holds⟩
      rw [ExceptT.run_bind, StateT.run_bind, runs]
      rfl
  | ok value =>
      rcases next #[] value _ (runs #[]) with ⟨result, more, behind, holdsMore⟩
      refine ⟨result, told ++ more, fun before => ?_, fun item member =>
        (Array.mem_append.mp member).elim (holds item) (holdsMore item)⟩
      rw [ExceptT.run_bind, StateT.run_bind, runs, ← Array.append_assoc]
      exact behind _

theorem Only.bind {first : Emit α} {second : α → Emit β} (only : Only P first)
    (next : ∀ value, Only P (second value)) : Only P (first >>= second) :=
  only.bind_tells fun _ value _ _ => next value

/-- A step that is left out unless a condition holds. -/
theorem Only.guarded {condition : Prop} [Decidable condition] {first : Emit Unit}
    {second : Unit → Emit β} (only : condition → Only P first) (next : Only P (second ())) :
    Only P (if condition then first >>= second else second ()) := by
  split
  · rename_i holds
    exact (only holds).bind fun _ => next
  · exact next

/-- The second step may rely on what was computed. -/
theorem Only.bind_lift {computed : Except ClassError α} {second : α → Emit β}
    (next : ∀ value, computed = .ok value → Only P (second value)) :
    Only P (liftM computed >>= second) :=
  (Only.lift computed).bind_tells fun _ value _ told => next value (tells_lift.mp told).1

theorem Only.modify_push {item : Item} (holds : P item) :
    Only P (modify fun before : Array Item => before.push item) :=
  ⟨.ok ⟨⟩, #[item], fun _ => by rw [← Array.push_eq_append]; rfl, by simpa using holds⟩

theorem Only.tell {event : Event} (holds : P (.event event)) : Only P (tell event) :=
  Only.modify_push holds

theorem Only.member {opening : Opening} {body : Emit Unit} (holds : P (.scope opening body.script)) :
    Only P (member opening body) :=
  Only.modify_push holds

theorem Only.eager {opening : Opening} {body : Emit α} (holds : P (.scope opening body.collect.1)) :
    Only P (eager opening body) :=
  (Only.modify_push holds).bind fun _ => Only.lift _

theorem Only.forM {values : List α} {each : α → Emit Unit}
    (only : ∀ value ∈ values, Only P (each value)) : Only P (values.forM each) := by
  induction values with
  | nil => exact Only.pure _
  | cons value values ih =>
      rw [List.forall_mem_cons] at only
      exact only.1.bind fun _ => ih only.2

/-- What a producer tells somewhere it tells anywhere. -/
theorem Only.tells {emit : Emit α} (only : Only P emit) {value : α}
    (told : Tells emit before value after) :
    ∃ items, after = before ++ items ∧ (∀ other, Tells emit other value (other ++ items)) ∧
      ∀ item ∈ items, P item := by
  rcases only with ⟨result, items, runs, holds⟩
  rw [Tells, runs, Prod.mk.injEq] at told
  rcases told with ⟨rfl, rfl⟩
  exact ⟨items, rfl, runs, holds⟩

/-- What a producer tells stands in its script, with nothing else but the fault that ends it. -/
theorem Only.collect {emit : Emit α} (only : Only P emit) :
    ∀ item ∈ emit.collect.1, P item ∨ ∃ cause, item = .fault cause := by
  rcases only with ⟨result, told, runs, holds⟩
  unfold Emit.collect
  rw [runs, Array.empty_append]
  intro item member
  cases result with
  | ok value => exact .inl (holds item (Array.mem_toList_iff.mp member))
  | error cause =>
      simp only [Array.mem_toList_iff, Array.mem_push] at member
      exact member.imp (holds item) fun same => ⟨_, same⟩

end Only

end Emit

end ClassFile
