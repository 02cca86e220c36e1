import ClassFile.Descriptor
import ClassFile.Draft.Annotations
import ClassFile.Draft.Frames

/-!
# Drafts of method bodies

A body is recorded while it is told (`CodeDraft`), because no offset is known before the end.  Then
the code is laid out and everything that refers to a place in it is written (`CodeDraft.write`).

Instructions whose bytes do not depend on offsets are encoded at once; the shortest form is used.
-/

namespace ClassFile

/-- Where in the code a type annotation belongs. -/
inductive CodeAnchor where
  /-- At the part of the code with this number. -/
  | item (position : Nat)
  | ranges (places : List LabelRange)
  /-- The target says everything. -/
  | none
  deriving DecidableEq, Inhabited

/-- A type annotation of a body. -/
structure CodeAnnotationDraft where
  use : TypeUse
  anchor : CodeAnchor
  /-- The index of the type and the values. -/
  body : Pieces
  deriving Inhabited

/-- A local variable by indices. -/
structure VariableDraft where
  name : UInt16
  descriptor : UInt16
  signature? : Option UInt16
  range : LabelRange
  deriving Inhabited

/-- An exception handler; the index of the type is zero if every exception is taken. -/
structure HandlerDraft where
  start : Label
  stop : Label
  handler : Label
  type : UInt16
  deriving Inhabited

/-- A body that is being told.  All lists have the last element first. -/
structure CodeDraft where
  items : List CodeItem := []
  itemCount : Nat := 0
  lastInstruction? : Option Nat := none
  /-- Frames with the number of the part of the code that they stand in front of. -/
  frames : List (Nat × Frame) := []
  lines : List (Label × UInt16) := []
  localVariables : List VariableDraft := []
  handlers : List HandlerDraft := []
  annotations : List CodeAnnotationDraft := []
  attributes : List Attribute := []
  maxStack : UInt16 := 0
  maxLocals : UInt16 := 0
  deriving Inhabited

/-- The event that an instruction is told by, for messages. -/
inductive InstructionEvent where
  | simple | variable | type | field | method | jump
  deriving DecidableEq, Inhabited

namespace InstructionEvent

/-- The name of the event. -/
def name : InstructionEvent → String
  | .simple => "visit_insn"
  | .variable => "visit_var_insn"
  | .type => "visit_type_insn"
  | .field => "visit_field_insn"
  | .method => "visit_method_insn"
  | .jump => "visit_jump_insn"

/-- Whether an opcode has the operands that the event tells. -/
def admits (event : InstructionEvent) (opcode : Opcode) : Bool :=
  match event, opcode.layout with
  | .simple, .noOperand | .variable, .variable | .type, .type | .field, .field
  | .method, .method | .method, .invokeInterface | .jump, .jump => true
  | _, _ => false

/-- Refuses an opcode that has other operands. -/
def require {σ : Type} (event : InstructionEvent) (opcode : Opcode) : Draft σ Unit := do
  if ! event.admits opcode then throw (.panic (.wrongOperands opcode.mnemonic event.name))

end InstructionEvent

namespace CodeDraft

/-- The draft with one part of the code more. -/
def addItem (item : CodeItem) (draft : CodeDraft) : CodeDraft :=
  { draft with items := item :: draft.items, itemCount := draft.itemCount + 1 }

/-- The draft with one instruction more. -/
def addInstruction (item : CodeItem) (draft : CodeDraft) : CodeDraft :=
  { draft.addItem item with lastInstruction? := some draft.itemCount }

/-- Adds an instruction that depends on no offset. -/
def putFixed (output : Output) : Draft CodeDraft Unit :=
  Draft.change (addInstruction (.fixed output.toList))

/-- An opcode byte. -/
def opcodeByte (opcode : Opcode) : Output :=
  Output.empty.u8 opcode.code

/-- Adds an instruction with an index into the pool, and what follows the index. -/
def putIndexed (opcode : Opcode) (index : UInt16) (write : Output → Output) :
    Draft CodeDraft Unit :=
  putFixed (write ((opcodeByte opcode).u16 index))

/-- The instruction with an operand that is part of it. -/
def intOperand : IntOperand → Output
  | .byte value => (opcodeByte .bipush).u8 value.toUInt8
  | .short value => (opcodeByte .sipush).u16 value.toUInt16
  | .newArray element => (opcodeByte .newarray).u8 element.code

/-- A load or store of a variable, or a return to one. -/
def variableAccess (opcode : Opcode) (slot : UInt16) : Output :=
  match Layout.implicitVariableByte? opcode slot with
  | some byte => Output.empty.u8 byte
  | none =>
      if slot ≤ 255 then (opcodeByte opcode).u8 slot.toUInt8
      else ((Output.empty.u8 Layout.widePrefix).u8 opcode.code).u16 slot

/-- A load of the constant with the given index. -/
def constantLoad (index : UInt16) (isWide : Bool) : Output :=
  if isWide then (Output.empty.u8 Layout.ldcTwoSlot).u16 index
  else if index ≤ 255 then (opcodeByte .ldc).u8 index.toUInt8
  else (Output.empty.u8 Layout.ldcWide).u16 index

/-- An addition to a variable. -/
def variableIncrement (slot : UInt16) (amount : Int16) : Output :=
  if slot ≤ 255 ∧ -128 ≤ amount ∧ amount ≤ 127 then
    ((opcodeByte .iinc).u8 slot.toUInt8).u8 amount.toUInt16.toUInt8
  else
    (((Output.empty.u8 Layout.widePrefix).u8 Opcode.iinc.code).u16 slot).u16 amount.toUInt16

/-- Appends the number of argument slots of an interface method, the object included, in one byte,
and a zero byte. -/
def interfaceArguments (descriptor : Text) (output : Output) : Except Fault Output := do
  let slots ← Descriptor.argumentSlots descriptor
  if slots = 65535 then throw (.panic .overflow)
  return (output.u8 (slots + 1).toUInt8).u8 0

/-- Records an element of the body. -/
def instruction : Instruction → Draft CodeDraft Unit
  | .simple opcode => do
      InstructionEvent.simple.require opcode
      putFixed (opcodeByte opcode)
  | .int operand => putFixed (intOperand operand)
  | .variable opcode slot => do
      InstructionEvent.variable.require opcode
      putFixed (variableAccess opcode slot)
  | .type opcode name => do
      InstructionEvent.type.require opcode
      putIndexed opcode (← Draft.pooled (PoolBuilder.classRef name)) id
  | .field opcode member => do
      InstructionEvent.field.require opcode
      putIndexed opcode (← Draft.pooled (PoolBuilder.fieldRef member)) id
  | .method opcode member isInterface => do
      InstructionEvent.method.require opcode
      let index ← Draft.pooled (PoolBuilder.methodRef member isInterface)
      let output := (opcodeByte opcode).u16 index
      if opcode = .invokeinterface then
        putFixed (← interfaceArguments member.descriptor output)
      else putFixed output
  | .invokeDynamic name descriptor bootstrap arguments => do
      let index ←
        Draft.pooled (PoolBuilder.invokeDynamic name descriptor bootstrap arguments)
      putIndexed .invokedynamic index (·.u16 0)
  | .jump opcode target => do
      InstructionEvent.jump.require opcode
      Draft.change (addInstruction (.jump opcode target))
  | .label place => Draft.change (addItem (.label place))
  | .loadConstant constant => do
      let index ← Draft.pooled (PoolBuilder.constant constant)
      putFixed (constantLoad index constant.isWide)
  | .increment slot amount => putFixed (variableIncrement slot amount)
  | .tableSwitch low high default targets =>
      Draft.change (addInstruction (.tableSwitch low high default targets))
  | .lookupSwitch default cases => Draft.change (addInstruction (.lookupSwitch default cases))
  | .multiArray descriptor dimensions => do
      let index ← Draft.pooled (PoolBuilder.classRef descriptor)
      putIndexed .multianewarray index (·.u8 dimensions)
  | .line number start =>
      Draft.change fun draft => { draft with lines := (start, number) :: draft.lines }
  | .frame frame =>
      Draft.change fun draft =>
        { draft with frames := (draft.itemCount, frame) :: draft.frames }

/-- Records an exception handler. -/
def tryCatch (block : TryCatch) : Draft CodeDraft Unit := do
  let type ← Draft.pooledIfPresent PoolBuilder.classRef block.type?
  Draft.change fun draft =>
    { draft with handlers := ⟨block.start, block.stop, block.handler, type⟩ :: draft.handlers }

/-- Adds to the pool what is there, and gives the index of it. -/
def signatureIndex? {σ : Type} (signature? : Option Text) : Draft σ (Option UInt16) := do
  match signature? with
  | none => return none
  | some signature => return some (← Draft.pooled (PoolBuilder.text signature))

/-- Records a local variable. -/
def localVariable (entry : LocalVariable) : Draft CodeDraft Unit := do
  let name ← Draft.pooled (PoolBuilder.text entry.name)
  let descriptor ← Draft.pooled (PoolBuilder.text entry.descriptor)
  let signature? ← signatureIndex? entry.signature?
  Draft.change fun draft =>
    { draft with
      localVariables :=
        ⟨name, descriptor, signature?, entry.range⟩ :: draft.localVariables }

/-- Starts a type annotation whose type has the given index. -/
def beginAnnotation (use : TypeUse) (anchor : CodeAnchor) (index : UInt16) (draft : CodeDraft) :
    CodeDraft :=
  { draft with annotations := ⟨use, anchor, [.ofU16 index]⟩ :: draft.annotations }

/-- The draft with the values of the type annotation that was started last. -/
def keepAnnotation (values : Output) (draft : CodeDraft) : CodeDraft :=
  match draft.annotations with
  | [] => draft
  | last :: rest => { draft with annotations := { last with body := values :: last.body } :: rest }

/-- The bytes of the exception handlers. -/
def writeHandlers (context : CodeContext) : List HandlerDraft → Draft Table Unit
  | [] => pure ()
  | block :: rest => do
      Draft.tryChange (Table.raise "exception table entries")
      let start ← context.labelOffset block.start
      let stop ← context.labelOffset block.stop
      let handler ← context.labelOffset block.handler
      Draft.change (Table.put (.ofU16s [start, stop, handler, block.type]))
      writeHandlers context rest

/-- The bytes of the line numbers. -/
def writeLines (context : CodeContext) : List (Label × UInt16) → Draft Table Unit
  | [] => pure ()
  | (start, line) :: rest => do
      Draft.tryChange (Table.raise "line numbers")
      let offset ← context.labelOffset start
      Draft.change (Table.put (.ofU16s [offset, line]))
      writeLines context rest

/-- The offset of a range and its length, zero if its end lies in front of its start. -/
def rangeOffsets {σ : Type} (context : CodeContext) (range : LabelRange) :
    Draft σ (UInt16 × UInt16) := do
  let start ← context.labelOffset range.start
  let stop ← context.labelOffset range.stop
  return (start, if stop < start then 0 else stop - start)

/-- The bytes of the local variables, and of those that have a generic signature. -/
def writeVariables (context : CodeContext) : List VariableDraft → Draft (Table × Table) Unit
  | [] => pure ()
  | entry :: rest => do
      let (start, length) ← rangeOffsets context entry.range
      let entryWith (type : UInt16) : Output :=
        .ofU16s [start, length, entry.name, type, entry.range.slot]
      Draft.tryChange fun (locals, types) =>
        return (← locals.add "local variables" (entryWith entry.descriptor), types)
      if let some signature := entry.signature? then
        Draft.tryChange fun (locals, types) =>
          return (locals, ← types.add "local variable types" (entryWith signature))
      writeVariables context rest

/-- The place in the code that a type annotation belongs to. -/
def location {σ : Type} (context : CodeContext) : CodeAnchor → Draft σ TargetLocation
  | .item position => return .offset (context.layout.position position).toUInt16
  | .ranges places => do
      return .ranges (← places.mapM fun range => do
        let (start, length) ← rangeOffsets context range
        return ⟨start, length, range.slot⟩)
  | .none => return .none

/-- Writes the type annotations. -/
def writeAnnotations (context : CodeContext) :
    List CodeAnnotationDraft → Draft AnnotationTables Unit
  | [] => pure ()
  | entry :: rest => do
      let place ← location context entry.anchor
      let bytes :=
        entry.body.write (entry.use.path.write (entry.use.target.write place .empty))
      Draft.tryChange fun tables =>
        return tables.setTypes entry.use.visible
          (← (tables.types entry.use.visible).add "annotations" bytes)
      writeAnnotations context rest

/-- A table, or several, that are written from nothing. -/
def written {σ τ : Type} (empty : τ) (write : Draft τ Unit) : Draft σ τ := do
  Draft.within (fun _ => empty) (fun _ part => part) (do write; Draft.look id)

/-- Writes the attributes of the body. -/
def writeAttributes (context : CodeContext) (draft : CodeDraft) :
    Draft AttributeTable Unit := do
  AttributeTable.addTable .lineNumberTable
    (← written {} (writeLines context draft.lines.reverse))
  let (locals, types) ← written ({}, {}) (writeVariables context draft.localVariables.reverse)
  AttributeTable.addTable .localVariableTable locals
  AttributeTable.addTable .localVariableTypeTable types
  if ! draft.frames.isEmpty then
    AttributeTable.add .stackMapTable
      (← written Table.empty (context.writeFrames none draft.frames.reverse)).toOutput
  let annotations ←
    written { attributes := draft.attributes : AnnotationTables }
      (writeAnnotations context draft.annotations.reverse)
  annotations.writeTypes
  annotations.writeCustom

/-- The contents of the code attribute of the method with the given name. -/
def write {σ : Type} (draft : CodeDraft) (method : Text) : Draft σ Output := do
  let layout ← ExceptT.mk fun state =>
    (Fault.ofExcept (CodeLayout.ofItems method draft.items.reverse), state)
  let context : CodeContext := ⟨method, layout⟩
  let output :=
    (((Output.empty.u16 draft.maxStack).u16 draft.maxLocals).u32
      layout.code.size.toUInt32).append layout.code
  let handlers ← written Table.empty (writeHandlers context draft.handlers.reverse)
  let attributes ← written {} (writeAttributes context draft)
  return attributes.table.write (handlers.write output)

end CodeDraft

end ClassFile
