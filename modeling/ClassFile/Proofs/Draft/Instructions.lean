import ClassFile.Draft.Members
import ClassFile.Proofs.Code.Decoding
import ClassFile.Proofs.Draft.Running

/-!
# Recording instructions

Every instruction that is recorded becomes one part of the body.  Where its bytes are encoded at
once, every later pool has what their indices refer to, so the bytes are read back as the
instruction (`CodeDraft.runs_instruction`).
-/

namespace ClassFile

namespace ElementType

theorem ofCode?_code (element : ElementType) : ofCode? element.code = some element := by
  cases element <;> rfl

end ElementType

namespace Layout

/-- A load or store that is shortened to one byte is expanded again. -/
theorem expandImplicitVariable_eq {opcode : Opcode} {slot : UInt16} {byte : UInt8}
    (shortened : implicitVariableByte? opcode slot = some byte) :
    ofByte? byte = some .implicitVariable ∧ expandImplicitVariable byte = (opcode.code, slot) := by
  have small : slot = 0 ∨ slot = 1 ∨ slot = 2 ∨ slot = 3 := by
    have bound : ¬3 < slot := by
      intro large
      simp [implicitVariableByte?, large] at shortened
    simp only [← UInt16.toNat_inj]
    rw [UInt16.not_lt, UInt16.le_iff_toNat_le] at bound
    simp at bound ⊢
    omega
  have all : ∀ opcode ∈ Opcode.all,
      (implicitVariableByte? opcode slot).all fun byte =>
        ofByte? byte = some .implicitVariable ∧
          expandImplicitVariable byte = (opcode.code, slot) := by
    rcases small with rfl | rfl | rfl | rfl <;> decide +kernel
  have here := all opcode (Opcode.mem_all opcode)
  rw [shortened, Option.all_some, decide_eq_true_eq] at here
  exact here

end Layout

namespace Instruction

open ClassImage

variable {pool : Pool} {api : Api}

theorem decodes_simple {opcode : Opcode} (plain : opcode.layout = .noOperand) :
    Decodes pool api (.simple opcode) [opcode.code] where
  real := rfl
  noLabels := rfl
  nonempty := by simp
  wellFormed := trivial
  reads := by
    rintro image code pc - held
    rw [readInstruction]
    simp only [held.u8, ok_bind, Opcode.ofByte?_code, plain, opcodeAt_eq_ok.mpr rfl]
    rfl

theorem decodes_int (operand : IntOperand) :
    Decodes pool api (.int operand) (CodeDraft.intOperand operand).toList where
  real := rfl
  noLabels := rfl
  nonempty := by cases operand <;> simp [CodeDraft.intOperand, CodeDraft.opcodeByte]
  wellFormed := trivial
  reads := by
    rintro image code pc - held
    rw [readInstruction]
    cases operand with
    | byte value =>
        rcases Input.hasAt_cons.mp held with ⟨first, behind⟩
        simp only [first.u8, ok_bind, Opcode.ofByte?_code, show Opcode.bipush.layout = .bytePush by
          decide, Input.HasAt.i8 behind]
        rfl
    | short value =>
        rcases Input.hasAt_cons.mp held with ⟨first, behind⟩
        simp only [first.u8, ok_bind, Opcode.ofByte?_code, show Opcode.sipush.layout = .shortPush by
          decide, Input.HasAt.i16 behind]
        rfl
    | newArray element =>
        rcases Input.hasAt_cons.mp held with ⟨first, behind⟩
        simp only [first.u8, ok_bind, Opcode.ofByte?_code, show Opcode.newarray.layout = .newArray by
          decide, Input.HasAt.u8 behind, ElementType.ofCode?_code]
        rfl

theorem decodes_variable {opcode : Opcode} (slot : UInt16) (isVariable : opcode.layout = .variable) :
    Decodes pool api (.variable opcode slot) (CodeDraft.variableAccess opcode slot).toList where
  real := rfl
  noLabels := rfl
  nonempty := by
    unfold CodeDraft.variableAccess
    split
    · simp
    · split <;> simp [CodeDraft.opcodeByte]
  wellFormed := isVariable
  reads := by
    rintro image code pc - held
    unfold CodeDraft.variableAccess at held ⊢
    rw [readInstruction]
    cases shortened : Layout.implicitVariableByte? opcode slot with
    | some byte =>
        rcases Layout.expandImplicitVariable_eq shortened with ⟨implicit, expanded⟩
        simp only [shortened] at held ⊢
        have first : image.input.u8 pc = .ok byte := Input.HasAt.u8 held
        simp only [first, ok_bind, implicit, expanded, opcodeAt_eq_ok.mpr rfl]
        rfl
    | none =>
        simp only [shortened] at held ⊢
        split at held
        · rename_i small
          rw [if_pos small]
          rcases Input.hasAt_cons.mp held with ⟨first, behind⟩
          have whole : slot.toUInt8.toUInt16 = slot := by
            rw [UInt16.le_iff_toNat_le] at small
            rw [← UInt16.toNat_inj]
            simp at small ⊢
            omega
          simp only [first.u8, ok_bind, Opcode.ofByte?_code, isVariable, opcodeAt_eq_ok.mpr rfl,
            Input.HasAt.u8 behind, whole]
          rfl
        · rename_i large
          rw [if_neg large]
          rcases Input.hasAt_cons.mp held with ⟨first, behind⟩
          rcases Input.hasAt_cons.mp behind with ⟨second, rest⟩
          have notIncrement : opcode.code ≠ Opcode.iinc.code := by
            intro same
            rw [Opcode.code_injective same] at isVariable
            revert isVariable
            decide
          simp only [first.u8, ok_bind, show Layout.ofByte? Layout.widePrefix = some .wide by decide,
            second.u8, Input.HasAt.u16 rest, notIncrement, if_false, opcodeAt_eq_ok.mpr rfl]
          rfl

theorem narrow_amount {amount : Int16} (low : -128 ≤ amount) (high : amount ≤ 127) :
    amount.toInt8.toUInt8 = amount.toUInt16.toUInt8 ∧ amount.toInt8.toInt16 = amount := by
  constructor
  · exact UInt8.toBitVec_inj.mp (by simp [BitVec.signExtend_eq_setWidth_of_le])
  · rw [Int16.le_iff_toInt_le] at low high
    refine Int16.toInt.inj ?_
    rw [Int8.toInt_toInt16, Int16.toInt_toInt8]
    refine Int.bmod_eq_of_le (by simpa using low) ?_
    exact Int.lt_add_one_of_le high

theorem decodes_increment (slot : UInt16) (amount : Int16) :
    Decodes pool api (.increment slot amount) (CodeDraft.variableIncrement slot amount).toList where
  real := rfl
  noLabels := rfl
  nonempty := by
    unfold CodeDraft.variableIncrement
    split <;> simp [CodeDraft.opcodeByte]
  wellFormed := trivial
  reads := by
    rintro image code pc - held
    unfold CodeDraft.variableIncrement at held ⊢
    rw [readInstruction]
    split at held
    · rename_i small
      rw [if_pos small]
      rcases narrow_amount small.2.1 small.2.2 with ⟨stored, whole⟩
      rcases Input.hasAt_cons.mp held with ⟨first, behind⟩
      rcases Input.hasAt_cons.mp behind with ⟨second, rest⟩
      rw [← stored] at rest
      have wholeSlot : slot.toUInt8.toUInt16 = slot := by
        rcases small with ⟨small, -⟩
        rw [UInt16.le_iff_toNat_le] at small
        rw [← UInt16.toNat_inj]
        simp at small ⊢
        omega
      simp only [first.u8, ok_bind, Opcode.ofByte?_code, show Opcode.iinc.layout = .increment by
        decide, second.u8, Input.HasAt.i8 rest, wholeSlot, whole]
      rfl
    · rename_i large
      rw [if_neg large]
      rcases Input.hasAt_cons.mp held with ⟨first, behind⟩
      rcases Input.hasAt_cons.mp behind with ⟨second, rest⟩
      rcases (@Input.hasAt_append _ _ (bigEndian16 slot) _).mp rest with ⟨slotHeld, amountHeld⟩
      have amountRead : image.input.i16 (pc + 4) = .ok amount := Input.HasAt.i16 amountHeld
      simp only [first.u8, ok_bind, show Layout.ofByte? Layout.widePrefix = some .wide by decide,
        second.u8, slotHeld.u16, if_true, amountRead]
      rfl

section Indexed

variable {opcode : Opcode} {index : UInt16}

theorem decodes_type {name : Text} (isType : opcode.layout = .type)
    (found : pool.classRef index = .ok name) :
    Decodes pool api (.type opcode name) (opcode.code :: bigEndian16 index) where
  real := rfl
  noLabels := rfl
  nonempty := by simp
  wellFormed := trivial
  reads := by
    rintro image code pc rfl held
    rcases Input.hasAt_cons.mp held with ⟨first, behind⟩
    rw [readInstruction]
    simp only [first.u8, ok_bind, Opcode.ofByte?_code, isType, Input.HasAt.u16 behind, found,
      opcodeAt_eq_ok.mpr rfl]
    rfl

theorem decodes_field {member : MemberRef} (isField : opcode.layout = .field)
    (found : pool.fieldRef index = .ok member) :
    Decodes pool api (.field opcode member) (opcode.code :: bigEndian16 index) where
  real := rfl
  noLabels := rfl
  nonempty := by simp
  wellFormed := trivial
  reads := by
    rintro image code pc rfl held
    rcases Input.hasAt_cons.mp held with ⟨first, behind⟩
    rw [readInstruction]
    simp only [first.u8, ok_bind, Opcode.ofByte?_code, isField, Input.HasAt.u16 behind, found,
      opcodeAt_eq_ok.mpr rfl]
    rfl

theorem decodes_method {member : MemberRef} {isInterface : Bool} (isMethod : opcode.layout = .method)
    (found : pool.anyMethodRef index = .ok (member, isInterface)) :
    Decodes pool api (.method opcode member isInterface) (opcode.code :: bigEndian16 index) where
  real := rfl
  noLabels := rfl
  nonempty := by simp
  wellFormed := trivial
  reads := by
    rintro image code pc rfl held
    rcases Input.hasAt_cons.mp held with ⟨first, behind⟩
    rw [readInstruction]
    simp only [first.u8, ok_bind, Opcode.ofByte?_code, isMethod, Input.HasAt.u16 behind, found,
      opcodeAt_eq_ok.mpr rfl]
    rfl

/-- What follows the index of an interface method is not looked at. -/
theorem decodes_interfaceMethod {member : MemberRef} {rest : List UInt8} (two : rest.length = 2)
    (found : pool.anyMethodRef index = .ok (member, true)) :
    Decodes pool api (.method .invokeinterface member true)
      (Opcode.invokeinterface.code :: bigEndian16 index ++ rest) where
  real := rfl
  noLabels := rfl
  nonempty := by simp
  wellFormed := trivial
  reads := by
    rintro image code pc rfl held
    rcases Input.hasAt_cons.mp held.left with ⟨first, behind⟩
    have foundInterface : image.pool.interfaceMethodRef index = .ok member := by
      simpa using Pool.anyMethodRef_eq_ok.mp found
    rw [readInstruction, List.length_append, two]
    simp only [first.u8, ok_bind, Opcode.ofByte?_code,
      show Opcode.invokeinterface.layout = .invokeInterface by decide, Input.HasAt.u16 behind,
      foundInterface]
    rfl

theorem decodes_multiArray {descriptor : Text} (dimensions : UInt8)
    (found : pool.classRef index = .ok descriptor) :
    Decodes pool api (.multiArray descriptor dimensions)
      (Opcode.multianewarray.code :: bigEndian16 index ++ [dimensions]) where
  real := rfl
  noLabels := rfl
  nonempty := by simp
  wellFormed := trivial
  reads := by
    rintro image code pc rfl held
    rcases Input.hasAt_cons.mp held.left with ⟨first, behind⟩
    have last : image.input.u8 (pc + 3) = .ok dimensions := Input.HasAt.u8 held.right
    rw [readInstruction]
    simp only [first.u8, ok_bind, Opcode.ofByte?_code,
      show Opcode.multianewarray.layout = .multiArray by decide, Input.HasAt.u16 behind, found, last]
    rfl

/-- Whether a listener may be told of dynamic constants, if an instruction uses one. -/
def Understands (api : Api) (instruction : Instruction) : Prop :=
  instruction.usesDynamicConstant = true → api.supports .v7 = true

theorem requireDynamicConstants_eq_ok {used : Bool} (understands : used = true → api.supports .v7 = true) :
    requireDynamicConstants api used = .ok () := by
  unfold requireDynamicConstants Api.requireFor
  cases used with
  | false => rfl
  | true => simp [understands rfl]

theorem decodes_invokeDynamic {name descriptor : Text} {bootstrap : Handle}
    {arguments : List Constant} {place : UInt16} (rest : List UInt8) (two : rest.length = 2)
    (understands : Understands api (.invokeDynamic name descriptor bootstrap arguments))
    (found : pool.invokeDynamicRef index = .ok ⟨place, name, descriptor⟩)
    (foundMethod : pool.bootstrapMethod place = .ok (bootstrap, arguments)) :
    Decodes pool api (.invokeDynamic name descriptor bootstrap arguments)
      (Opcode.invokedynamic.code :: bigEndian16 index ++ rest) where
  real := rfl
  noLabels := rfl
  nonempty := by simp
  wellFormed := trivial
  reads := by
    rintro image code pc rfl held
    rcases Input.hasAt_cons.mp held.left with ⟨first, behind⟩
    have allowed : requireDynamicConstants api (arguments.any Constant.isDynamic) = .ok () :=
      requireDynamicConstants_eq_ok understands
    rw [readInstruction, List.length_append, two]
    simp only [first.u8, ok_bind, Opcode.ofByte?_code,
      show Opcode.invokedynamic.layout = .invokeDynamic by decide, Input.HasAt.u16 behind, found,
      foundMethod, allowed]
    rfl

theorem decodes_loadConstant {constant : Constant}
    (understands : Understands api (.loadConstant constant))
    (found : pool.constant index = .ok constant) :
    Decodes pool api (.loadConstant constant)
      (CodeDraft.constantLoad index constant.isWide).toList where
  real := rfl
  noLabels := rfl
  nonempty := by
    unfold CodeDraft.constantLoad
    split
    · simp
    · split <;> simp [CodeDraft.opcodeByte]
  wellFormed := trivial
  reads := by
    rintro image code pc rfl held
    have allowed : requireDynamicConstants api constant.isDynamic = .ok () :=
      requireDynamicConstants_eq_ok understands
    rw [readInstruction]
    unfold CodeDraft.constantLoad at held ⊢
    split at held
    · rename_i wide
      rw [if_pos wide]
      rcases Input.hasAt_cons.mp held with ⟨first, behind⟩
      simp only [first.u8, ok_bind, show Layout.ofByte? Layout.ldcTwoSlot =
        some .loadConstantTwoSlot by decide, Input.HasAt.u16 behind, found, allowed]
      rfl
    · rename_i narrow
      rw [if_neg narrow]
      split at held
      · rename_i small
        rw [if_pos small]
        rcases Input.hasAt_cons.mp held with ⟨first, behind⟩
        have whole : index.toUInt8.toUInt16 = index := by
          rw [UInt16.le_iff_toNat_le] at small
          rw [← UInt16.toNat_inj]
          simp at small ⊢
          omega
        simp only [first.u8, ok_bind, Opcode.ofByte?_code, show Opcode.ldc.layout = .loadConstant by
          decide, Input.HasAt.u8 behind, whole, found, allowed]
        rfl
      · rename_i large
        rw [if_neg large]
        rcases Input.hasAt_cons.mp held with ⟨first, behind⟩
        simp only [first.u8, ok_bind, show Layout.ofByte? Layout.ldcWide =
          some .loadConstantWide by decide, Input.HasAt.u16 behind, found, allowed]
        rfl

end Indexed

/-- Whether an element can be told back: its texts and handles survive, its dynamic constants are not
nested too deeply, and its operands agree with each other. -/
def Storable : Instruction → Prop
  | .type _ name | .multiArray name _ => name.Survives
  | .field _ member => member.Survives
  | .method opcode member isInterface =>
      member.Survives ∧ (opcode = .invokeinterface → isInterface = true)
  | .invokeDynamic name descriptor bootstrap arguments =>
      name.Survives ∧ descriptor.Survives ∧ bootstrap.Storable ∧ Constant.AllStorable arguments ∧
        Constant.levelsOfAll arguments ≤ Pool.maxDynamicLevels
  | .loadConstant constant => constant.Storable ∧ constant.levels ≤ Pool.maxDynamicLevels
  | .tableSwitch low high _ targets =>
      low ≤ high ∧ high.toInt - low.toInt + 1 = targets.length
  | .line .. | .frame _ => False
  | .simple _ | .int _ | .variable .. | .jump .. | .label _ | .increment .. | .lookupSwitch .. => True

end Instruction

namespace CodeDraft

open Instruction

/-- Whether a body has no more than instructions and labels. -/
structure IsPlain (draft : CodeDraft) : Prop where
  frames : draft.frames = []
  lines : draft.lines = []
  localVariables : draft.localVariables = []
  handlers : draft.handlers = []
  annotations : draft.annotations = []
  attributes : draft.attributes = []

/-- Whether the elements that were recorded are all that a draft has. -/
structure Records (pool : Pool) (api : Api) (events : List Instruction) (draft : CodeDraft) :
    Prop where
  items : List.Forall₂ (Instruction.Stands pool api) events draft.items.reverse
  plain : draft.IsPlain

variable {pool : Pool} {api : Api} {events : List Instruction} {draft : CodeDraft}

theorem Records.addItem (records : Records pool api events draft) {event : Instruction}
    {item : CodeItem} (stands : event.Stands pool api item) :
    Records pool api (events ++ [event]) (draft.addItem item) where
  items := by
    rw [CodeDraft.addItem, List.reverse_cons]
    exact List.rel_append records.items (.cons stands .nil)
  plain := { records.plain with }

theorem Records.addInstruction (records : Records pool api events draft) {event : Instruction}
    {item : CodeItem} (stands : event.Stands pool api item) :
    Records pool api (events ++ [event]) (draft.addInstruction item) where
  items := (records.addItem stands).items
  plain := { records.plain with }

/-- An opcode that is accepted has the operands of the event. -/
theorem runs_require {σ : Type} {Before : σ → Pool → Prop} (event : InstructionEvent)
    (opcode : Opcode) :
    Draft.Runs Before (event.require opcode) fun _ part pool =>
      event.admits opcode = true ∧ Before part pool := by
  unfold InstructionEvent.require
  split
  · exact Draft.Runs.throw _
  · rename_i admitted
    rw [Bool.not_eq_true, Bool.not_eq_false'] at admitted
    exact (Draft.Runs.pure ()).weaken (fun _ _ => id) fun _ _ _ before => ⟨admitted, before.2⟩

theorem layout_of_admits {event : InstructionEvent} {opcode : Opcode}
    (admitted : event.admits opcode = true) :
    match event with
    | .simple => opcode.layout = .noOperand
    | .variable => opcode.layout = .variable
    | .type => opcode.layout = .type
    | .field => opcode.layout = .field
    | .method => opcode.layout = .method ∨ opcode.layout = .invokeInterface
    | .jump => opcode.layout = .jump := by
  unfold InstructionEvent.admits at admitted
  split at admitted
  all_goals simp_all

@[simp]
theorem toList_opcodeByte (opcode : Opcode) : (opcodeByte opcode).toList = [opcode.code] := by
  simp [opcodeByte]

theorem runs_putFixed {event : Instruction} {output : Output} :
    Draft.Runs
      (fun draft pool => Records pool api events draft ∧ event.Decodes pool api output.toList)
      (putFixed output) fun _ draft pool => Records pool api (events ++ [event]) draft :=
  Draft.Runs.change fun _ _ before => before.1.addInstruction (.fixed before.2)

theorem interfaceArguments_eq_ok {descriptor : Text} {output result : Output}
    (written : interfaceArguments descriptor output = .ok result) :
    ∃ rest, rest.length = 2 ∧ result.toList = output.toList ++ rest := by
  simp only [interfaceArguments, bind_eq_ok] at written
  rcases written with ⟨slots, -, written⟩
  split at written
  · cases written
  · rw [pure_eq_ok] at written
    subst written
    exact ⟨[(slots + 1).toUInt8, 0], rfl, by simp⟩

/-- An element that can be told back is recorded as a part that stands for it. -/
theorem runs_instruction {event : Instruction} (storable : event.Storable)
    (understands : Understands api event) :
    Draft.Runs (fun draft pool => Records pool api events draft) (instruction event)
      fun _ draft pool => Records pool api (events ++ [event]) draft := by
  cases event with
  | simple opcode =>
      refine (runs_require .simple opcode).bind fun _ => ?_
      refine runs_putFixed.weaken ?_ fun _ _ _ => id
      rintro draft pool ⟨admitted, records⟩
      exact ⟨records, by simpa using decodes_simple (layout_of_admits admitted)⟩
  | int operand =>
      refine runs_putFixed.weaken (fun draft pool records => ?_) fun _ _ _ => id
      exact ⟨records, decodes_int operand⟩
  | «variable» opcode slot =>
      refine (runs_require .variable opcode).bind fun _ => ?_
      refine runs_putFixed.weaken ?_ fun _ _ _ => id
      rintro draft pool ⟨admitted, records⟩
      exact ⟨records, decodes_variable slot (layout_of_admits admitted)⟩
  | type opcode name =>
      refine (runs_require .type opcode).bind fun _ => ?_
      refine (Draft.Runs.pooled (PoolBuilder.adds_classRef storable)).bind fun index => ?_
      refine runs_putFixed.weaken ?_ fun _ _ _ => id
      rintro draft pool ⟨⟨admitted, records⟩, found⟩
      exact ⟨records, by simpa using decodes_type (layout_of_admits admitted) found⟩
  | field opcode member =>
      refine (runs_require .field opcode).bind fun _ => ?_
      refine (Draft.Runs.pooled (PoolBuilder.adds_fieldRef storable)).bind fun index => ?_
      refine runs_putFixed.weaken ?_ fun _ _ _ => id
      rintro draft pool ⟨⟨admitted, records⟩, found⟩
      exact ⟨records, by simpa using decodes_field (layout_of_admits admitted) found⟩
  | method opcode member isInterface =>
      refine (runs_require .method opcode).bind fun _ => ?_
      refine (Draft.Runs.pooled (PoolBuilder.adds_methodRef storable.1)).bind fun index => ?_
      split
      · rename_i isInvokeInterface
        subst isInvokeInterface
        cases storable.2 rfl
        refine Draft.Runs.lift.bind fun output => ?_
        refine runs_putFixed.weaken ?_ fun _ _ _ => id
        rintro draft pool ⟨written, ⟨-, records⟩, found⟩
        rcases interfaceArguments_eq_ok written with ⟨rest, two, bytes⟩
        refine ⟨records, ?_⟩
        rw [bytes]
        simpa using decodes_interfaceMethod two found
      · rename_i notInterface
        refine runs_putFixed.weaken ?_ fun _ _ _ => id
        rintro draft pool ⟨⟨admitted, records⟩, found⟩
        rcases layout_of_admits admitted with isMethod | isInvokeInterface
        · exact ⟨records, by simpa using decodes_method isMethod found⟩
        · exact absurd (Opcode.eq_invokeinterface isInvokeInterface) notInterface
  | invokeDynamic name descriptor bootstrap arguments =>
      rcases storable with ⟨nameSurvives, descriptorSurvives, bootstrapStorable,
        argumentsStorable, nested⟩
      refine (Draft.Runs.pooled (PoolBuilder.adds_invokeDynamic nameSurvives descriptorSurvives
        bootstrapStorable argumentsStorable)).bind fun index => ?_
      refine runs_putFixed.weaken ?_ fun _ _ _ => id
      rintro draft pool ⟨records, place, found, has⟩
      have decodes := decodes_invokeDynamic (bigEndian16 0) rfl understands found
        (has.bootstrapWith nested)
      exact ⟨records, by simpa using decodes⟩
  | jump opcode target =>
      refine (runs_require .jump opcode).bind fun _ => ?_
      refine Draft.Runs.change ?_
      rintro draft pool ⟨admitted, records⟩
      exact records.addInstruction (.jump target (layout_of_admits admitted))
  | label place =>
      exact Draft.Runs.change fun draft pool records => records.addItem (.label place)
  | loadConstant constant =>
      refine (Draft.Runs.pooled (PoolBuilder.adds_constant constant storable.1)).bind fun index => ?_
      refine runs_putFixed.weaken ?_ fun _ _ _ => id
      rintro draft pool ⟨records, found⟩
      exact ⟨records, decodes_loadConstant understands (found _ storable.2)⟩
  | increment slot amount =>
      refine runs_putFixed.weaken (fun draft pool records => ?_) fun _ _ _ => id
      exact ⟨records, decodes_increment slot amount⟩
  | tableSwitch low high default targets =>
      exact Draft.Runs.change fun draft pool records =>
        records.addInstruction (.tableSwitch default storable.1 storable.2)
  | lookupSwitch default cases =>
      exact Draft.Runs.change fun draft pool records =>
        records.addInstruction (.lookupSwitch default cases)
  | multiArray descriptor dimensions =>
      refine (Draft.Runs.pooled (PoolBuilder.adds_classRef storable)).bind fun index => ?_
      refine runs_putFixed.weaken ?_ fun _ _ _ => id
      rintro draft pool ⟨records, found⟩
      exact ⟨records, by simpa using decodes_multiArray dimensions found⟩
  | line => cases storable
  | frame => cases storable

end CodeDraft

end ClassFile
