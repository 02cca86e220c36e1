import ClassFile.Image.Code
import ClassFile.Proofs.Script

/-!
# Errors that are not about the layout of code

A look-up in the pool, an operand or a value of an annotation can be wrong in many ways, but never
because a place is outside the code, a length does not fit, or a walk does not end
(`ClassError.isAboutLayout`).  `SparesLayout` says so of a computation.  It is decided step by step,
so most lemmas only unfold a look-up and leave its steps to the simplifier.
-/

namespace ClassFile

/-- Whether an error is about where code leads or ends. -/
def ClassError.isAboutLayout : ClassError → Bool
  | .badBranchTarget .. | .badAttributeLength .. | .panic .endless => true
  | _ => false

/-- Whether a computation gives a value, or an error that is not about the layout of code. -/
def SparesLayout {α : Type} : Except ClassError α → Prop
  | .ok _ => True
  | .error cause => cause.isAboutLayout = false

section Rules

variable {α β : Type}

@[simp]
theorem sparesLayout_ok (value : α) : SparesLayout (.ok value : Except ClassError α) :=
  trivial

@[simp]
theorem sparesLayout_pure (value : α) : SparesLayout (pure value : Except ClassError α) :=
  trivial

@[simp]
theorem sparesLayout_error (cause : ClassError) :
    SparesLayout (.error cause : Except ClassError α) ↔ cause.isAboutLayout = false :=
  Iff.rfl

@[simp]
theorem sparesLayout_bind {first : Except ClassError α} {second : α → Except ClassError β} :
    SparesLayout (first >>= second) ↔
      SparesLayout first ∧ ∀ value, first = .ok value → SparesLayout (second value) := by
  cases first <;> simp

@[simp]
theorem sparesLayout_map {computed : Except ClassError α} {change : α → β} :
    SparesLayout (computed.map change) ↔ SparesLayout computed := by
  cases computed <;> rfl

@[simp]
theorem sparesLayout_functorMap {computed : Except ClassError α} {change : α → β} :
    SparesLayout (change <$> computed) ↔ SparesLayout computed :=
  sparesLayout_map

/-- A number that is too great for the machine is not about the layout either. -/
theorem isAboutLayout_orOverflow {cause : ClassError} (spared : cause.isAboutLayout = false)
    (greatest number : Nat) : (cause.orOverflow greatest number).isAboutLayout = false := by
  unfold ClassError.orOverflow
  split
  · rfl
  · exact spared

end Rules

namespace Input

variable (input : Input) (index : Nat)

@[simp]
theorem isAboutLayout_pastEnd (length : Nat) : (input.pastEnd index length).isAboutLayout = false :=
  isAboutLayout_orOverflow rfl _ _

@[simp]
theorem sparesLayout_slice (length : Nat) : SparesLayout (input.slice index length) := by
  unfold slice
  split <;> simp

@[simp]
theorem sparesLayout_bytes (length : Nat) : SparesLayout (input.bytes index length) := by
  simp [bytes]

@[simp]
theorem sparesLayout_u8 : SparesLayout (input.u8 index) := by
  unfold u8
  split <;> simp

@[simp]
theorem sparesLayout_u16 : SparesLayout (input.u16 index) := by
  unfold u16
  split <;> simp

@[simp]
theorem sparesLayout_u32 : SparesLayout (input.u32 index) := by
  unfold u32
  split <;> simp

@[simp]
theorem sparesLayout_u64 : SparesLayout (input.u64 index) := by
  unfold u64
  split <;> simp

@[simp]
theorem sparesLayout_i8 : SparesLayout (input.i8 index) := by
  simp [i8]

@[simp]
theorem sparesLayout_i16 : SparesLayout (input.i16 index) := by
  simp [i16]

@[simp]
theorem sparesLayout_i32 : SparesLayout (input.i32 index) := by
  simp [i32]

@[simp]
theorem sparesLayout_i64 : SparesLayout (input.i64 index) := by
  simp [i64]

end Input

namespace Pool

variable (pool : Pool) (index : UInt16) (offset : Nat)

@[simp]
theorem sparesLayout_tagAt (input : Input) : SparesLayout (tagAt input offset) := by
  simp only [tagAt, sparesLayout_bind, Input.sparesLayout_u8, true_and]
  intro byte _
  split <;> simp [ClassError.isAboutLayout]

@[simp]
theorem sparesLayout_offsetOf : SparesLayout (pool.offsetOf index) := by
  unfold offsetOf
  split <;> simp [ClassError.isAboutLayout]

@[simp]
theorem sparesLayout_tag : SparesLayout (pool.tag index) := by
  simp [tag]

@[simp]
theorem sparesLayout_bodyOf (expected : PoolTag) : SparesLayout (pool.bodyOf expected index) := by
  simp only [bodyOf, sparesLayout_bind, sparesLayout_offsetOf, sparesLayout_tagAt, true_and]
  intro offset _ actual _
  split <;> simp [ClassError.isAboutLayout]

@[simp]
theorem sparesLayout_textAt : SparesLayout (pool.textAt offset) := by
  simp only [textAt, storedTextAt, sparesLayout_bind, Input.sparesLayout_u16,
    Input.sparesLayout_bytes, implies_true, true_and]
  intro bytes _
  split <;> simp [ClassError.isAboutLayout]

@[simp]
theorem sparesLayout_text : SparesLayout (pool.text index) := by
  simp [text]

@[simp]
theorem sparesLayout_textRefAt : SparesLayout (pool.textRefAt offset) := by
  simp [textRefAt]

@[simp]
theorem sparesLayout_named (tag : PoolTag) : SparesLayout (pool.named tag index) := by
  simp [named]

@[simp]
theorem sparesLayout_classRef : SparesLayout (pool.classRef index) := by
  simp [classRef]

@[simp]
theorem sparesLayout_integer : SparesLayout (pool.integer index) := by
  simp [integer]

@[simp]
theorem sparesLayout_float : SparesLayout (pool.float index) := by
  simp [float]

@[simp]
theorem sparesLayout_long : SparesLayout (pool.long index) := by
  simp [long]

@[simp]
theorem sparesLayout_double : SparesLayout (pool.double index) := by
  simp [double]

@[simp]
theorem sparesLayout_nameAndType : SparesLayout (pool.nameAndType index) := by
  simp [nameAndType, nameAndTypeAt]

@[simp]
theorem sparesLayout_memberAt : SparesLayout (pool.memberAt offset) := by
  simp [memberAt]

@[simp]
theorem sparesLayout_member (tag : PoolTag) : SparesLayout (pool.member tag index) := by
  simp [member]

@[simp]
theorem sparesLayout_anyMethodRef : SparesLayout (pool.anyMethodRef index) := by
  simp only [anyMethodRef, sparesLayout_bind, sparesLayout_offsetOf, sparesLayout_tagAt, true_and]
  intro offset _ tag _
  split <;> simp [ClassError.isAboutLayout]

@[simp]
theorem sparesLayout_handle : SparesLayout (pool.handle index) := by
  simp only [handle, handleAt, sparesLayout_bind, sparesLayout_bodyOf, Input.sparesLayout_u8, true_and]
  intro offset _ byte _
  split
  · simp [ClassError.isAboutLayout]
  · rename_i kind _
    cases kind <;> simp [fieldRef, methodRef, interfaceMethodRef]

@[simp]
theorem sparesLayout_dynamicRef : SparesLayout (pool.dynamicRef index) := by
  simp [dynamicRef, dynamicAt]

@[simp]
theorem sparesLayout_invokeDynamicRef : SparesLayout (pool.invokeDynamicRef index) := by
  simp [invokeDynamicRef, dynamicAt]

theorem sparesLayout_optional {α : Type} {look : UInt16 → Except ClassError α}
    (looks : SparesLayout (look index)) : SparesLayout (optional look index) := by
  unfold optional
  split <;> simp [looks]

theorem sparesLayout_readArguments {constant : UInt16 → Except ClassError Constant}
    (constants : ∀ index, SparesLayout (constant index)) (found : List Constant) (count : Nat) :
    SparesLayout (pool.readArguments constant offset found count) := by
  induction count generalizing offset found with
  | zero => simp [readArguments]
  | succ count ih => simp [readArguments, constants, ih]

theorem sparesLayout_bootstrapWith {constant : UInt16 → Except ClassError Constant}
    (constants : ∀ index, SparesLayout (constant index)) :
    SparesLayout (pool.bootstrapWith constant index) := by
  have known : SparesLayout (pool.bootstrapOffset index) := by
    unfold bootstrapOffset
    split <;> simp [ClassError.isAboutLayout]
  simp [bootstrapWith, known, sparesLayout_readArguments pool _ constants]

theorem sparesLayout_constantWithin (levels : Nat) :
    SparesLayout (pool.constantWithin levels index) := by
  induction levels using Nat.strongRecOn generalizing index with
  | ind levels ih =>
      unfold constantWithin
      simp only [sparesLayout_bind, sparesLayout_tag, true_and]
      intro tag _
      cases tag
      case dynamic =>
          simp only [sparesLayout_bind, sparesLayout_dynamicRef, true_and]
          intro reference _
          cases levels with
          | zero => simp [ClassError.isAboutLayout]
          | succ levels =>
              simp [sparesLayout_bootstrapWith pool _ fun index => ih levels (Nat.lt_succ_self _) index]
      all_goals simp [string, methodType, ClassError.isAboutLayout]

@[simp]
theorem sparesLayout_constant : SparesLayout (pool.constant index) :=
  sparesLayout_constantWithin pool index _

@[simp]
theorem sparesLayout_bootstrapMethod : SparesLayout (pool.bootstrapMethod index) :=
  sparesLayout_bootstrapWith pool index fun index => sparesLayout_constantWithin pool index _

end Pool

/-! ### Producers -/

namespace Emit

variable {α β : Type}

/-- Whether a producer tells the same wherever it is asked to, and goes on or stops for an error that is
not about the layout of code. -/
structure SparesLayout (emit : Emit α) : Prop where
  tells : Only (fun _ => True) emit
  stops : ∀ before, ClassFile.SparesLayout (emit.run.run before).1

theorem sparesLayout_pure (value : α) : SparesLayout (pure value) :=
  ⟨.pure value, fun _ => trivial⟩

theorem sparesLayout_throw {cause : ClassError} (spared : cause.isAboutLayout = false) :
    SparesLayout (throw cause : Emit α) :=
  ⟨.throw cause, fun _ => spared⟩

theorem sparesLayout_lift {computed : Except ClassError α}
    (spares : ClassFile.SparesLayout computed) : SparesLayout (liftM computed) := by
  refine ⟨.lift computed, fun before => ?_⟩
  cases computed <;> exact spares

theorem SparesLayout.bind {first : Emit α} {second : α → Emit β} (spares : SparesLayout first)
    (next : ∀ value, SparesLayout (second value)) : SparesLayout (first >>= second) := by
  refine ⟨spares.tells.bind fun value => (next value).tells, fun before => ?_⟩
  have here := spares.stops before
  rw [ExceptT.run_bind, StateT.run_bind]
  rcases ran : StateT.run first.run before with ⟨cause | value, between⟩
  · rw [ran] at here
    exact here
  · exact (next value).stops between

/-- A step that is computed without telling anything. -/
theorem sparesLayout_bind_lift {computed : Except ClassError α} {second : α → Emit β}
    (spares : ClassFile.SparesLayout computed) (next : ∀ value, SparesLayout (second value)) :
    SparesLayout (liftM computed >>= second) :=
  (sparesLayout_lift spares).bind next

theorem sparesLayout_tell (event : Event) : SparesLayout (tell event) :=
  ⟨.tell trivial, fun _ => trivial⟩

theorem SparesLayout.discard {emit : Emit α} (spares : SparesLayout emit) :
    SparesLayout (discard emit) :=
  spares.bind fun _ => sparesLayout_pure ()

theorem SparesLayout.eager {opening : Opening} {body : Emit α} (spares : SparesLayout body) :
    SparesLayout (eager opening body) := by
  have pushes (items : Script) : SparesLayout
      (modify fun before : Array Item => before.push (.scope opening items)) :=
    ⟨.modify_push trivial, fun _ => trivial⟩
  have inside := spares.stops #[]
  refine (pushes _).bind fun _ => sparesLayout_lift ?_
  rcases ran : body.run.run #[] with ⟨cause | value, items⟩ <;> rw [ran] at inside <;> exact inside

theorem SparesLayout.forM {values : List α} {each : α → Emit Unit}
    (spares : ∀ value ∈ values, SparesLayout (each value)) : SparesLayout (values.forM each) := by
  induction values with
  | nil => exact sparesLayout_pure ()
  | cons value values ih =>
      rw [List.forall_mem_cons] at spares
      exact spares.1.bind fun _ => ih spares.2

end Emit

/-! ### Annotations -/

namespace ClassImage

variable (image : ClassImage) (offset : Nat)

@[simp]
theorem sparesLayout_textAt : SparesLayout (image.textAt offset) := by
  simp [textAt]

theorem sparesLayout_tellElements {value : Option Text → Nat → Emit Nat}
    (values : ∀ name? offset, (value name? offset).SparesLayout) (named : Bool) (count : Nat) :
    (image.tellElements value named offset count).SparesLayout := by
  induction count generalizing offset with
  | zero => exact Emit.sparesLayout_pure _
  | succ count ih =>
      cases named with
      | false => exact (values none offset).bind ih
      | true =>
          refine Emit.sparesLayout_bind_lift (image.sparesLayout_textAt offset) fun name => ?_
          exact (values (some name) (offset + 2)).bind ih

theorem sparesLayout_tellCounted {value : Option Text → Nat → Emit Nat}
    (values : ∀ name? offset, (value name? offset).SparesLayout) (named : Bool) :
    (image.tellCounted value named offset).SparesLayout :=
  Emit.sparesLayout_bind_lift (image.input.sparesLayout_u16 offset) fun _ =>
    image.sparesLayout_tellElements _ values named _

theorem sparesLayout_elementConstant? (tag : UInt8) :
    SparesLayout (image.elementConstant? tag offset) := by
  unfold elementConstant?
  repeat' split
  all_goals simp

theorem sparesLayout_tellElement (levels : Nat) (name? : Option Text) :
    (image.tellElement levels name? offset).SparesLayout := by
  induction levels generalizing name? offset with
  | zero => exact Emit.sparesLayout_throw rfl
  | succ levels ih =>
      have nested (offset : Nat) (named : Bool) :
          (image.tellCounted (image.tellElement levels) named offset).SparesLayout :=
        image.sparesLayout_tellCounted offset (fun name? offset => ih offset name?) named
      refine Emit.sparesLayout_bind_lift (image.input.sparesLayout_u8 offset) fun tag => ?_
      refine Emit.sparesLayout_bind_lift (image.sparesLayout_elementConstant? _ tag) fun constant? => ?_
      split
      · exact (Emit.sparesLayout_tell _).bind fun _ => Emit.sparesLayout_pure _
      split
      · refine Emit.sparesLayout_bind_lift (image.sparesLayout_textAt _) fun descriptor => ?_
        refine Emit.sparesLayout_bind_lift (image.sparesLayout_textAt _) fun value => ?_
        exact (Emit.sparesLayout_tell _).bind fun _ => Emit.sparesLayout_pure _
      split
      · refine Emit.sparesLayout_bind_lift (image.sparesLayout_textAt _) fun descriptor => ?_
        exact .eager (nested _ true)
      split
      · exact .eager (nested _ false)
      · exact Emit.sparesLayout_throw rfl

theorem sparesLayout_tellCodeAnnotation (opening : Opening) (note : CodeAnnotation) :
    (image.tellCodeAnnotation opening note).SparesLayout :=
  .discard (.eager (image.sparesLayout_tellCounted _
    (fun name? offset => image.sparesLayout_tellElement offset _ name?) true))

theorem sparesLayout_variableTypes (types : VariableTypes) (count : Nat) :
    SparesLayout (image.variableTypes offset types count) := by
  induction count generalizing offset types with
  | zero => simp [variableTypes]
  | succ count ih => simp [variableTypes, ih]

theorem sparesLayout_tellHandlerAnnotations (body : CodeBody) :
    (image.tellHandlerAnnotations body).SparesLayout := by
  refine .forM fun note _ => ?_
  split
  · exact image.sparesLayout_tellCodeAnnotation _ note
  · exact Emit.sparesLayout_pure ()

theorem sparesLayout_tellFrames (position : Label) (frames : List (Label × Frame)) :
    (tellFrames position frames).SparesLayout := by
  induction frames with
  | nil => exact Emit.sparesLayout_pure _
  | cons entry rest ih =>
      rw [tellFrames]
      split
      · exact (Emit.sparesLayout_tell _).bind fun _ => ih
      · exact Emit.sparesLayout_pure _

/-! ### Instructions -/

@[simp]
theorem sparesLayout_opcodeAt (byte : UInt8) : SparesLayout (opcodeAt byte offset) := by
  unfold opcodeAt
  split <;> simp [ClassError.isAboutLayout]

@[simp]
theorem sparesLayout_requireDynamicConstants (api : Api) (used : Bool) :
    SparesLayout (requireDynamicConstants api used) := by
  unfold requireDynamicConstants Api.requireFor
  split <;> simp [ClassError.isAboutLayout]

/-- An instruction that leads nowhere. -/
theorem sparesLayout_readInstruction (pc : Nat) {api : Api} {code : CodeArray} {byte : UInt8} {layout : Layout}
    (readByte : image.input.u8 pc = .ok byte) (known : Layout.ofByte? byte = some layout)
    (leadsNowhere : layout ∉ [.jump, .jumpWide, .tableSwitch, .lookupSwitch]) :
    SparesLayout (image.readInstruction api code pc) := by
  simp only [readInstruction, readByte, ok_bind, known]
  cases layout
  case jump | jumpWide | tableSwitch | lookupSwitch => simp at leadsNowhere
  case newArray =>
    simp only [sparesLayout_bind, Input.sparesLayout_u8, true_and]
    intro element _
    split <;> simp [ClassError.isAboutLayout]
  case wide =>
    simp only [sparesLayout_bind, Input.sparesLayout_u8, Input.sparesLayout_u16, true_and]
    intro next _ slot _
    split <;> simp
  all_goals simp [Pool.fieldRef, Pool.interfaceMethodRef]

end ClassImage

end ClassFile
