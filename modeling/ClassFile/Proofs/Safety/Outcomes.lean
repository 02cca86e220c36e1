import ClassFile.Bytes.Input
import ClassFile.Proofs.Result
import ClassFile.Proofs.Script

/-!
# Outcomes of reading

Reading yields a value or finds the bytes malformed, and nothing else can come of it: `Yields` for a
computation, `Emit.Yields` for a producer with everything that it tells.  The rules take reading apart
into its steps.

An offset is near the file (`Input.Near`) if it is at most as far behind its end as the greatest length
that stands in four bytes leads.  Near offsets can be written down, and what is read at one is in the
file.
-/

namespace ClassFile

variable {α β σ : Type}

/-- Whether a computation gives a value with a property or finds the bytes malformed. -/
def Yields (result : Except ClassError α) (fact : α → Prop) : Prop :=
  match result with
  | .ok value => fact value
  | .error cause => cause.isMalformed = true

section Rules

variable {fact : α → Prop} {goal : β → Prop}

theorem Yields.pure {value : α} (holds : fact value) : Yields (pure value) fact :=
  holds

theorem Yields.throw {cause : ClassError} (malformed : cause.isMalformed = true) :
    Yields (throw cause) fact :=
  malformed

theorem Yields.bind {first : Except ClassError α} {second : α → Except ClassError β}
    (yields : Yields first fact) (next : ∀ value, fact value → Yields (second value) goal) :
    Yields (first >>= second) goal := by
  cases first with
  | ok value => exact next value yields
  | error cause => exact yields

theorem Yields.cases {result : Except ClassError α} (yields : Yields result fact) :
    (∃ value, result = .ok value ∧ fact value) ∨
      ∃ cause, result = .error cause ∧ cause.isMalformed = true := by
  cases result with
  | ok value => exact .inl ⟨value, rfl, yields⟩
  | error cause => exact .inr ⟨cause, rfl, yields⟩

theorem Yields.weaken {fact' : α → Prop} {result : Except ClassError α} (yields : Yields result fact)
    (weaker : ∀ value, fact value → fact' value) : Yields result fact' := by
  cases result with
  | ok value => exact weaker value yields
  | error cause => exact yields

theorem Yields.any {result : Except ClassError α} (yields : Yields result fact) :
    Yields result fun _ => True :=
  yields.weaken fun _ _ => trivial

theorem Yields.eq {result : Except ClassError α} (yields : Yields result fact) :
    Yields result fun value => result = .ok value ∧ fact value := by
  cases result with
  | ok value => exact ⟨rfl, yields⟩
  | error cause => exact yields

/-- The last step of a computation whose value does not matter. -/
theorem Yields.last {first : Except ClassError α} {change : α → β} (yields : Yields first fact) :
    Yields (first >>= fun value => Pure.pure (change value)) fun _ => True :=
  yields.bind fun _ _ => trivial

theorem Yields.map {result : Except ClassError α} {change : α → β}
    (yields : Yields result fun value => goal (change value)) : Yields (result.map change) goal := by
  cases result <;> exact yields

theorem Yields.foldlM {Inv : σ → Prop} {step : σ → α → Except ClassError σ} {values : List α} {state : σ}
    (start : Inv state)
    (steps : ∀ state, Inv state → ∀ value ∈ values, Yields (step state value) Inv) :
    Yields (values.foldlM step state) Inv := by
  induction values generalizing state with
  | nil => exact start
  | cons value rest ih =>
      rw [List.foldlM_cons]
      refine (steps state start value List.mem_cons_self).bind fun next holds => ?_
      exact ih holds fun state holds other member =>
        steps state holds other (List.mem_cons_of_mem _ member)

theorem Yields.mapM {change : α → Except ClassError β} {values : List α}
    (each : ∀ value ∈ values, Yields (change value) fun _ => True) :
    Yields (values.mapM change) fun _ => True := by
  induction values with
  | nil => exact trivial
  | cons value rest ih =>
      rw [List.mapM_cons]
      rw [List.forall_mem_cons] at each
      exact each.1.bind fun _ _ => (ih each.2).bind fun _ _ => trivial

end Rules

/-! ### Producers -/

/-- Whether all faults in an item, at whatever depth, are the fault of the bytes. -/
inductive Item.BlamesBytes : Item → Prop where
  | event {event : Event} : BlamesBytes (.event event)
  | fault {cause : ClassError} (malformed : cause.isMalformed = true) : BlamesBytes (.fault cause)
  | scope {opening : Opening} {body : List Item} (inside : ∀ item ∈ body, BlamesBytes item) :
      BlamesBytes (.scope opening body)

namespace Emit

/-- Whether a producer gives a value with a property or finds the bytes malformed, and whatever it tells
blames only the bytes. -/
structure Yields (emit : Emit α) (fact : α → Prop) : Prop where
  tells : Only Item.BlamesBytes emit
  gives : ∀ before, ClassFile.Yields (emit.run.run before).1 fact

variable {fact : α → Prop} {goal : β → Prop}

theorem Yields.pure {value : α} (holds : fact value) : Yields (pure value) fact :=
  ⟨Only.pure value, fun _ => holds⟩

theorem Yields.lift {computed : Except ClassError α} (yields : ClassFile.Yields computed fact) :
    Yields (liftM computed) fact := by
  refine ⟨Only.lift computed, fun before => ?_⟩
  cases computed <;> exact yields

theorem Yields.throw {cause : ClassError} (malformed : cause.isMalformed = true) :
    Yields (throw cause : Emit α) fact :=
  ⟨Only.throw cause, fun _ => malformed⟩

theorem Yields.bind {first : Emit α} {second : α → Emit β} (yields : Yields first fact)
    (next : ∀ value, fact value → Yields (second value) goal) : Yields (first >>= second) goal := by
  refine ⟨yields.tells.bind_tells fun before value after told => ?_, fun before => ?_⟩
  · have holds := yields.gives before
    rw [Tells] at told
    rw [told] at holds
    exact (next value holds).tells
  · have holds := yields.gives before
    rw [ExceptT.run_bind, StateT.run_bind]
    rcases ran : StateT.run first.run before with ⟨_ | value, between⟩
    · rw [ran] at holds
      exact holds
    · rw [ran] at holds
      exact (next value holds).gives between

/-- A step that is computed without telling anything. -/
theorem Yields.bind_lift {computed : Except ClassError α} {second : α → Emit β}
    (yields : ClassFile.Yields computed fact)
    (next : ∀ value, fact value → Yields (second value) goal) :
    Yields (liftM computed >>= second) goal :=
  (Yields.lift yields).bind next

theorem Yields.weaken {fact' : α → Prop} {emit : Emit α} (yields : Yields emit fact)
    (weaker : ∀ value, fact value → fact' value) : Yields emit fact' :=
  ⟨yields.tells, fun before => (yields.gives before).weaken weaker⟩

theorem Yields.discard {emit : Emit α} (yields : Yields emit fact) :
    Yields (discard emit) fun _ => True :=
  yields.bind fun _ _ => Yields.pure trivial

theorem yields_tell (event : Event) : Yields (tell event) fun _ => True :=
  ⟨Only.tell .event, fun _ => trivial⟩

theorem Yields.forM {values : List α} {each : α → Emit Unit}
    (yields : ∀ value ∈ values, Yields (each value) fun _ => True) :
    Yields (values.forM each) fun _ => True := by
  induction values with
  | nil => exact Yields.pure trivial
  | cons value rest ih =>
      rw [List.forall_mem_cons] at yields
      exact yields.1.bind fun _ _ => ih yields.2

theorem Yields.mapM {values : List α} {each : α → Emit β}
    (yields : ∀ value ∈ values, Yields (each value) fun _ => True) :
    Yields (values.mapM each) fun _ => True := by
  induction values with
  | nil => exact Yields.pure trivial
  | cons value rest ih =>
      rw [List.mapM_cons]
      rw [List.forall_mem_cons] at yields
      exact yields.1.bind fun _ _ => (ih yields.2).bind fun _ _ => Yields.pure trivial

/-- What a producer collects blames only the bytes. -/
theorem Yields.collect {emit : Emit α} (yields : Yields emit fact) :
    (∀ item ∈ emit.collect.1, Item.BlamesBytes item) ∧ ClassFile.Yields emit.collect.2 fact := by
  rcases yields.tells with ⟨result, told, runs, blames⟩
  have gives := yields.gives #[]
  rw [runs] at gives
  unfold Emit.collect
  rw [runs, Array.empty_append]
  cases result with
  | ok value => exact ⟨fun item member => blames item (Array.mem_toList_iff.mp member), gives⟩
  | error cause =>
      refine ⟨fun item member => ?_, gives⟩
      simp only [Array.mem_toList_iff, Array.mem_push] at member
      rcases member with inside | rfl
      · exact blames item inside
      · exact .fault gives

theorem Yields.silently {emit : Emit α} (yields : Yields emit fact) :
    ClassFile.Yields emit.silently fact :=
  yields.collect.2

theorem Yields.member {opening : Opening} {body : Emit Unit} (yields : Yields body fun _ => True) :
    Yields (member opening body) fun _ => True :=
  ⟨Only.member (.scope yields.collect.1), fun _ => trivial⟩

theorem Yields.eager {opening : Opening} {body : Emit α} (yields : Yields body fact) :
    Yields (eager opening body) fact := by
  have collected := yields.collect
  have pushes : Yields (modify fun before : Array Item =>
      before.push (.scope opening body.collect.1)) fun _ => True :=
    ⟨Only.modify_push (.scope collected.1), fun _ => trivial⟩
  exact pushes.bind fun _ _ => Yields.lift collected.2

end Emit

/-! ### Reading at offsets -/

theorem isMalformed_orOverflow {cause : ClassError} (malformed : cause.isMalformed = true)
    {greatest number : Nat} (bound : number ≤ greatest) :
    (cause.orOverflow greatest number).isMalformed = true := by
  rwa [ClassError.orOverflow, if_neg (Nat.not_lt.mpr bound)]

namespace Input

/-- Whether a file leaves room behind its end, below the greatest signed number, for the sixteen gibibytes
that the table of a switch can claim.  No machine with addresses of 64 bits holds a greater file. -/
abbrev IsSmall (input : Input) : Prop :=
  input.size + 17179869184 ≤ 9223372036854775807

/-- Whether an offset is not far behind the end of a file. -/
abbrev Near (input : Input) (offset : Nat) : Prop :=
  offset ≤ input.size + 8589934592

variable {input : Input} {index : Nat}

theorem isMalformed_pastEnd (known : index ≤ 18446744073709551615) (length : Nat) :
    (input.pastEnd index length).isMalformed = true :=
  isMalformed_orOverflow rfl known

theorem yields_slice (known : index ≤ 18446744073709551615) (length : Nat) :
    Yields (input.slice index length) fun _ => index + length ≤ input.size := by
  unfold slice
  split
  · assumption
  · exact isMalformed_pastEnd known length

theorem yields_bytes (known : index ≤ 18446744073709551615) (length : Nat) :
    Yields (input.bytes index length) fun _ => index + length ≤ input.size :=
  @Yields.map _ _ (fun _ => index + length ≤ input.size) _ _ (yields_slice known length)

theorem yields_u8 (known : index ≤ 18446744073709551615) :
    Yields (input.u8 index) fun value => index + 1 ≤ input.size ∧ value.toNat < 256 := by
  unfold u8
  split
  · rename_i inside
    exact ⟨inside, UInt8.toNat_lt _⟩
  · exact isMalformed_pastEnd known 1

theorem yields_u16 (known : index ≤ 18446744073709551615) :
    Yields (input.u16 index) fun value => index + 2 ≤ input.size ∧ value.toNat < 65536 := by
  unfold u16
  split
  · rename_i inside
    exact ⟨inside, UInt16.toNat_lt _⟩
  · exact isMalformed_pastEnd known 2

theorem yields_u32 (known : index ≤ 18446744073709551615) :
    Yields (input.u32 index) fun value => index + 4 ≤ input.size ∧ value.toNat < 4294967296 := by
  unfold u32
  split
  · rename_i inside
    exact ⟨inside, UInt32.toNat_lt _⟩
  · exact isMalformed_pastEnd known 4

theorem yields_u64 (small : input.IsSmall) (known : index ≤ 18446744073709551615) :
    Yields (input.u64 index) fun _ => index + 8 ≤ input.size := by
  unfold u64
  split
  · rename_i inside
    refine (yields_u32 known).bind fun high _ => ?_
    exact (yields_u32 (by omega)).bind fun low _ => .pure inside
  · exact isMalformed_pastEnd known 8

theorem yields_i8 (known : index ≤ 18446744073709551615) :
    Yields (input.i8 index) fun _ => index + 1 ≤ input.size :=
  @Yields.map _ _ (fun _ => index + 1 ≤ input.size) _ _
    ((yields_u8 known).weaken fun _ read => read.1)

theorem yields_i16 (known : index ≤ 18446744073709551615) :
    Yields (input.i16 index) fun _ => index + 2 ≤ input.size :=
  @Yields.map _ _ (fun _ => index + 2 ≤ input.size) _ _
    ((yields_u16 known).weaken fun _ read => read.1)

theorem yields_i32 (known : index ≤ 18446744073709551615) :
    Yields (input.i32 index) fun _ => index + 4 ≤ input.size :=
  @Yields.map _ _ (fun _ => index + 4 ≤ input.size) _ _
    ((yields_u32 known).weaken fun _ read => read.1)

theorem yields_i64 (small : input.IsSmall) (known : index ≤ 18446744073709551615) :
    Yields (input.i64 index) fun _ => index + 8 ≤ input.size :=
  @Yields.map _ _ (fun _ => index + 8 ≤ input.size) _ _ (yields_u64 small known)

end Input

end ClassFile
