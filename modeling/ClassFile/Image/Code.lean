import ClassFile.Image.Annotations
import ClassFile.Opcode.Operands
import Std.Data.HashMap
import Std.Data.HashSet

/-!
# Method bodies of a class image

A body is read twice.  The first pass (`CodeBody.ofImage`) steps over the instructions, checks where
they end, and collects the places that need a label: targets of jumps, bounds of ranges, line
numbers, frames.  The second pass (`ClassImage.tellCode`) tells the body, with a label in front of
every instruction that starts at one of those places.

The label of a place is its offset in the code array.
-/

namespace ClassFile

/-- Where a code array stands in the file. -/
structure CodeArray where
  start : Nat
  length : Nat
  deriving DecidableEq, Inhabited

/-- The places in a code array that need a label. -/
abbrev LabelSet := Std.HashSet Label

namespace CodeArray

/-- The offset in the file behind the code array. -/
def stop (code : CodeArray) : Nat :=
  code.start + code.length

/-- How far an offset in the file is behind the start of the code. -/
def position (code : CodeArray) (pc : Nat) : Except ClassError Nat :=
  if pc < code.start then .error (.panic .overflow) else .ok (pc - code.start)

/-- A place in the code, which may be its end.  `source` is the offset in the file that asks. -/
def place (code : CodeArray) (target source : Nat) : Except ClassError Label :=
  if code.length < target then .error (.badBranchTarget target source) else .ok target

/-- The place at distance `delta` from `position`, which may not be the end of the code. -/
def branch (code : CodeArray) (position : Nat) (delta : Int) (source : Nat) :
    Except ClassError Label :=
  let target : Int := position + delta
  if target < 0 ∨ (code.length : Int) ≤ target then .error (.badBranchTarget target source)
  else .ok target.toNat

end CodeArray

/-- The operands of a table switch: the distance of the default case, the bounds of the table, the
offset of the table in the file. -/
structure TableHead where
  default : Int32
  low : Int32
  high : Int32
  table : Nat
  deriving DecidableEq, Inhabited

namespace TableHead

/-- The number of cases in the table. -/
def count (head : TableHead) : Nat :=
  (head.high.toInt - head.low.toInt + 1).toNat

end TableHead

/-- The operands of a lookup switch: the distance of the default case, the number of cases, the
offset of the cases in the file. -/
structure LookupHead where
  default : Int32
  count : Nat
  cases : Nat
  deriving DecidableEq, Inhabited

/-- A type annotation inside a body. -/
abbrev CodeAnnotation := ClassImage.TypeAnnotationHead

/-- What the first pass over a body finds. -/
structure CodeBody where
  maxStack : UInt16
  maxLocals : UInt16
  code : CodeArray
  labels : LabelSet := ∅
  /-- The number of exception handlers; their table follows the code array. -/
  handlers : Nat := 0
  /-- The line numbers of each place, in the order of the file. -/
  lines : Std.HashMap Label (Array UInt16) := ∅
  localVariables? : Option Nat := none
  variableTypes? : Option Nat := none
  frames : List (Label × Frame) := []
  annotations : Array CodeAnnotation := #[]
  common : CommonAttributes := {}

namespace CodeBody

/-- Gives a place a label. -/
def mark (body : CodeBody) (target source : Nat) : Except ClassError CodeBody := do
  let label ← body.code.place target source
  return { body with labels := body.labels.insert label }

/-- The offset in the file of the first exception handler. -/
def handlersOffset (body : CodeBody) : Nat :=
  body.code.stop + 2

end CodeBody

namespace ClassImage

/-- The operands of the table switch at `pc`, `position` bytes behind the start of the code. -/
def tableHead (image : ClassImage) (pc position stop : Nat) : Except ClassError TableHead := do
  let operands := pc + 1 + Layout.switchPadding position
  let default ← image.input.i32 operands
  let low ← image.input.i32 (operands + 4)
  let high ← image.input.i32 (operands + 8)
  let head : TableHead := { default, low, high, table := operands + 12 }
  if high < low ∨ stop < head.table + head.count * 4 then
    throw ((ClassError.badOpcode Opcode.tableswitch.code pc).orOverflow Input.maxSigned
      (head.table + head.count * 4))
  else return head

/-- The operands of the lookup switch at `pc`, `position` bytes behind the start of the code. -/
def lookupHead (image : ClassImage) (pc position stop : Nat) : Except ClassError LookupHead := do
  let operands := pc + 1 + Layout.switchPadding position
  let default ← image.input.i32 operands
  let count ← image.input.i32 (operands + 4)
  let cases := operands + 8
  if count < 0 ∨ stop < cases + count.toInt.toNat * 8 then
    throw ((ClassError.badOpcode Opcode.lookupswitch.code pc).orOverflow Input.maxSigned
      (cases + count.toInt.toNat * 8))
  else return { default, count := count.toInt.toNat, cases }

/-- Marks the target at the distance stored at each of `count` places, `stride` bytes apart. -/
def markTargets (image : ClassImage) (code : CodeArray) (pc stride offset : Nat)
    (labels : LabelSet) : (count : Nat) → Except ClassError LabelSet
  | 0 => .ok labels
  | count + 1 => do
      let delta ← image.input.i32 offset
      let target ← code.branch (pc - code.start) delta.toInt pc
      markTargets image code pc stride (offset + stride) (labels.insert target) count

/-- Marks the targets of the instruction at `pc`, and gives the offset behind it. -/
def markInstruction (image : ClassImage) (code : CodeArray) (pc : Nat) (labels : LabelSet) :
    Except ClassError (LabelSet × Nat) := do
  let position ← code.position pc
  let byte ← image.input.u8 pc
  match Layout.ofByte? byte with
  | none => throw (.badOpcode byte pc)
  | some .jump =>
      let delta ← image.input.i16 (pc + 1)
      let target ← code.branch position delta.toInt pc
      return (labels.insert target, pc + 3)
  | some .jumpWide =>
      let delta ← image.input.i32 (pc + 1)
      let target ← code.branch position delta.toInt pc
      return (labels.insert target, pc + 5)
  | some .tableSwitch =>
      let head ← image.tableHead pc position code.stop
      let target ← code.branch position head.default.toInt pc
      let labels ← image.markTargets code pc 4 head.table (labels.insert target) head.count
      return (labels, head.table + head.count * 4)
  | some .lookupSwitch =>
      let head ← image.lookupHead pc position code.stop
      let target ← code.branch position head.default.toInt pc
      let labels ← image.markTargets code pc 8 (head.cases + 4) (labels.insert target) head.count
      return (labels, head.cases + head.count * 8)
  | some .wide =>
      let next ← image.input.u8 (pc + 1)
      match Layout.ofByte? next with
      | some .increment => return (labels, pc + 6)
      | some .variable => return (labels, pc + 4)
      | _ => throw (.badOpcode next (pc + 1))
  | some layout => return (labels, pc + layout.size?.getD 0)

/-- Marks the targets of the instructions from `pc` on, and gives the offset behind the last.  Every
instruction has a byte, so the length of the code bounds their number; more would never end. -/
def markInstructions (image : ClassImage) (code : CodeArray) (pc : Nat) (labels : LabelSet)
    (fuel : Nat) : Except ClassError (LabelSet × Nat) :=
  if pc < code.stop then
    match fuel with
    | 0 => .error (.panic .endless)
    | fuel + 1 => do
        let (labels, next) ← image.markInstruction code pc labels
        markInstructions image code next labels fuel
  else .ok (labels, pc)

/-- Marks the bounds and the start of `count` exception handlers, the first of them at `offset`. -/
def markHandlers (image : ClassImage) (offset : Nat) (body : CodeBody) :
    (count : Nat) → Except ClassError CodeBody
  | 0 => .ok body
  | count + 1 => do
      let body ← body.mark (← image.input.u16 offset).toNat offset
      let body ← body.mark (← image.input.u16 (offset + 2)).toNat offset
      let body ← body.mark (← image.input.u16 (offset + 4)).toNat offset
      markHandlers image (offset + 8) body count

/-- Collects `count` line numbers, the first of them at `offset`. -/
def markLines (image : ClassImage) (offset : Nat) (body : CodeBody) :
    (count : Nat) → Except ClassError CodeBody
  | 0 => .ok body
  | count + 1 => do
      let start := (← image.input.u16 offset).toNat
      let body ← body.mark start offset
      let line ← image.input.u16 (offset + 2)
      let lines := body.lines.alter start fun known => some ((known.getD #[]).push line)
      markLines image (offset + 4) { body with lines } count

/-- Marks the bounds of `count` local variables, the first of them at `offset`. -/
def markVariables (image : ClassImage) (offset : Nat) (body : CodeBody) :
    (count : Nat) → Except ClassError CodeBody
  | 0 => .ok body
  | count + 1 => do
      let start := (← image.input.u16 offset).toNat
      let body ← body.mark start offset
      let length := (← image.input.u16 (offset + 2)).toNat
      let body ← body.mark (start + length) offset
      markVariables image (offset + 10) body count

/-- Reads the value of a frame at `offset`, and gives the offset behind it. -/
def frameValue (image : ClassImage) (offset : Nat) (body : CodeBody) :
    Except ClassError (FrameValue × Nat × CodeBody) := do
  let tag ← image.input.u8 offset
  let next := offset + 1
  match tag with
  | 0 => return (.top, next, body)
  | 1 => return (.integer, next, body)
  | 2 => return (.float, next, body)
  | 3 => return (.double, next, body)
  | 4 => return (.long, next, body)
  | 5 => return (.null, next, body)
  | 6 => return (.uninitializedThis, next, body)
  | 7 => return (.object (← image.classAt next), next + 2, body)
  | 8 =>
      let label := (← image.input.u16 next).toNat
      return (.uninitialized label, next + 2, ← body.mark label offset)
  | _ => throw (.badFrameValue tag offset)

/-- Reads `count` values of a frame from `offset` on, last first before `found`. -/
def frameValues (image : ClassImage) (offset : Nat) (found : List FrameValue) (body : CodeBody) :
    (count : Nat) → Except ClassError (List FrameValue × Nat × CodeBody)
  | 0 => .ok (found.reverse, offset, body)
  | count + 1 => do
      let (value, next, body) ← image.frameValue offset body
      frameValues image next (value :: found) body count

/-- Reads the values of a frame whose number is at `offset`. -/
def countedFrameValues (image : ClassImage) (offset : Nat) (body : CodeBody) :
    Except ClassError (List FrameValue × Nat × CodeBody) := do
  let count ← image.input.u16 offset
  image.frameValues (offset + 2) [] body count.toNat

/-- A frame as it stands in the file: its distance from the frame before, the offset behind it. -/
structure FrameEntry where
  delta : Nat
  frame : Frame
  next : Nat
  body : CodeBody

/-- Reads the frame at `offset`. -/
def frameEntry (image : ClassImage) (offset : Nat) (body : CodeBody) :
    Except ClassError FrameEntry := do
  let frameType ← image.input.u8 offset
  let next := offset + 1
  if frameType ≤ 63 then return ⟨frameType.toNat, .same, next, body⟩
  else if frameType ≤ 127 then
    let (value, next, body) ← image.frameValue next body
    return ⟨frameType.toNat - 64, .same1 value, next, body⟩
  else if frameType ≤ 246 then throw (.badFrameType frameType offset)
  else
    let delta := (← image.input.u16 next).toNat
    let next := next + 2
    if frameType = 247 then
      let (value, next, body) ← image.frameValue next body
      return ⟨delta, .same1 value, next, body⟩
    else if frameType ≤ 250 then return ⟨delta, .chop (251 - frameType), next, body⟩
    else if frameType = 251 then return ⟨delta, .same, next, body⟩
    else if frameType ≤ 254 then
      let (locals, next, body) ← image.frameValues next [] body (frameType.toNat - 251)
      return ⟨delta, .append locals, next, body⟩
    else
      let (locals, next, body) ← image.countedFrameValues next body
      let (stack, next, body) ← image.countedFrameValues next body
      return ⟨delta, .full locals stack, next, body⟩

/-- Reads `count` frames from `offset` on; `previous?` is the place of the frame before. -/
def readFrames (image : ClassImage) (offset : Nat) (previous? : Option Nat)
    (found : List (Label × Frame)) (body : CodeBody) :
    (count : Nat) → Except ClassError (List (Label × Frame) × CodeBody)
  | 0 => .ok (found.reverse, body)
  | count + 1 => do
      let entry ← image.frameEntry offset body
      let position := match previous? with
        | some previous => previous + entry.delta + 1
        | none => entry.delta
      if entry.body.code.length ≤ position then
        throw ((ClassError.badBranchTarget position offset).orOverflow Input.maxOffset position)
      let body ← entry.body.mark position offset
      readFrames image entry.next (some position) ((position, entry.frame) :: found) body count

/-- Marks the bounds of the ranges of a local variable annotation. -/
def markRanges (source : Nat) (body : CodeBody) (ranges : List CodeRange) :
    Except ClassError CodeBody :=
  ranges.foldlM
    (fun body range => do
      let body ← body.mark range.start.toNat source
      body.mark (range.start.toNat + range.length.toNat) source)
    body

/-- Collects `count` type annotations, the first of them at `offset`. -/
def markAnnotations (image : ClassImage) (visible : Bool) (offset : Nat) (body : CodeBody) :
    (count : Nat) → Except ClassError CodeBody
  | 0 => .ok body
  | count + 1 => do
      let head ← image.typeAnnotationHead visible offset
      let next ← image.skipValues head.valuesOffset
      let body ← markRanges next body head.location.rangeList
      markAnnotations image visible next
        { body with annotations := body.annotations.push head } count

/-- Takes in an attribute of the code. -/
def markAttribute (image : ClassImage) (options : ReadOptions) (body : CodeBody)
    (entry : RawAttribute) : Except ClassError CodeBody := do
  match entry.kind? with
  | some .lineNumberTable =>
      if options.skipDebug then return body
      let count ← image.input.u16 entry.offset
      image.markLines (entry.offset + 2) body count.toNat
  | some .localVariableTable =>
      if options.skipDebug then return body
      let count ← image.input.u16 entry.offset
      let body ← image.markVariables (entry.offset + 2) body count.toNat
      return { body with localVariables? := some entry.offset }
  | some .localVariableTypeTable =>
      if options.skipDebug then return body
      return { body with variableTypes? := some entry.offset }
  | some .stackMapTable =>
      if options.skipFrames then return body
      let count ← image.input.u16 entry.offset
      let (frames, body) ← image.readFrames (entry.offset + 2) none [] body count.toNat
      return { body with frames }
  | some .runtimeVisibleTypeAnnotations =>
      if ! options.api.supports .v5 then return body
      let count ← image.input.u16 entry.offset
      image.markAnnotations true (entry.offset + 2) body count.toNat
  | some .runtimeInvisibleTypeAnnotations =>
      if ! options.api.supports .v5 then return body
      let count ← image.input.u16 entry.offset
      image.markAnnotations false (entry.offset + 2) body count.toNat
  | _ => return { body with common.others := entry :: body.common.others }

/-- The first pass over the body of a method. -/
def codeBody (image : ClassImage) (options : ReadOptions) (entry : RawAttribute) :
    Except ClassError CodeBody := do
  let maxStack ← image.input.u16 entry.offset
  let maxLocals ← image.input.u16 (entry.offset + 2)
  let length := (← image.input.u32 (entry.offset + 4)).toNat
  let code : CodeArray := ⟨entry.offset + 8, length⟩
  if length = 0 ∨ entry.offset + entry.length < code.stop then
    throw ((ClassError.badAttributeLength (entry.offset + 4)).orOverflow Input.maxOffset code.stop)
  let (labels, stop) ← image.markInstructions code code.start ∅ length
  if stop ≠ code.stop then
    throw ((ClassError.badAttributeLength (entry.offset + 4)).orOverflow Input.maxOffset stop)
  let handlers := (← image.input.u16 code.stop).toNat
  let body : CodeBody := { maxStack, maxLocals, code, labels, handlers }
  let body ← image.markHandlers body.handlersOffset body handlers
  let (attributes, _) ← rawAttributes image.pool (body.handlersOffset + handlers * 8)
  attributes.foldlM (image.markAttribute options) body

/-- Tells an event of the method scope. -/
def tellItem (item : MethodItem) : Emit Unit :=
  Emit.tell (.methodItem item)

/-- Tells an instruction. -/
def tellInstruction (instruction : Instruction) : Emit Unit :=
  tellItem (.instruction instruction)

/-- The opcode of a byte in the code. -/
def opcodeAt (byte : UInt8) (offset : Nat) : Except ClassError Opcode :=
  match Opcode.ofCode? byte with
  | some opcode => .ok opcode
  | none => .error (.badOpcode byte offset)

/-- Refuses a dynamic constant that the listener is too old for. -/
def requireDynamicConstants (api : Api) (used : Bool) : Except ClassError Unit :=
  api.requireFor used "dynamic constants" .v7

/-- Reads the targets of a table switch from `offset` on, last first before `found`. -/
def readTargets (image : ClassImage) (code : CodeArray) (pc offset : Nat) (found : List Label) :
    (count : Nat) → Except ClassError (List Label)
  | 0 => .ok found.reverse
  | count + 1 => do
      let delta ← image.input.i32 offset
      let target ← code.branch (pc - code.start) delta.toInt pc
      readTargets image code pc (offset + 4) (target :: found) count

/-- Reads the cases of a lookup switch from `offset` on, last first before `found`. -/
def readCases (image : ClassImage) (code : CodeArray) (pc offset : Nat)
    (found : List (Int32 × Label)) : (count : Nat) → Except ClassError (List (Int32 × Label))
  | 0 => .ok found.reverse
  | count + 1 => do
      let key ← image.input.i32 offset
      let delta ← image.input.i32 (offset + 4)
      let target ← code.branch (pc - code.start) delta.toInt pc
      readCases image code pc (offset + 8) ((key, target) :: found) count

/-- Reads the instruction at `pc`, and gives the offset behind it. -/
def readInstruction (image : ClassImage) (api : Api) (code : CodeArray) (pc : Nat) :
    Except ClassError (Instruction × Nat) := do
  let input := image.input
  let pool := image.pool
  let position := pc - code.start
  let byte ← input.u8 pc
  match Layout.ofByte? byte with
  | none => throw (.badOpcode byte pc)
  | some .noOperand => return (.simple (← opcodeAt byte pc), pc + 1)
  | some .bytePush => return (.int (.byte (← input.i8 (pc + 1))), pc + 2)
  | some .shortPush => return (.int (.short (← input.i16 (pc + 1))), pc + 3)
  | some .newArray =>
      let element ← input.u8 (pc + 1)
      match ElementType.ofCode? element with
      | some element => return (.int (.newArray element), pc + 2)
      | none => throw (.badOpcode element (pc + 1))
  | some .loadConstant =>
      let constant ← pool.constant (← input.u8 (pc + 1)).toUInt16
      requireDynamicConstants api constant.isDynamic
      return (.loadConstant constant, pc + 2)
  | some .loadConstantWide | some .loadConstantTwoSlot =>
      let constant ← pool.constant (← input.u16 (pc + 1))
      requireDynamicConstants api constant.isDynamic
      return (.loadConstant constant, pc + 3)
  | some .variable =>
      let opcode ← opcodeAt byte pc
      return (.variable opcode (← input.u8 (pc + 1)).toUInt16, pc + 2)
  | some .implicitVariable =>
      let (explicit, slot) := Layout.expandImplicitVariable byte
      return (.variable (← opcodeAt explicit pc) slot, pc + 1)
  | some .increment =>
      let slot ← input.u8 (pc + 1)
      let amount ← input.i8 (pc + 2)
      return (.increment slot.toUInt16 amount.toInt16, pc + 3)
  | some .jump =>
      let delta ← input.i16 (pc + 1)
      let target ← code.branch position delta.toInt pc
      return (.jump (← opcodeAt byte pc) target, pc + 3)
  | some .jumpWide =>
      let delta ← input.i32 (pc + 1)
      let target ← code.branch position delta.toInt pc
      return (.jump (if byte = Layout.gotoWide then .goto else .jsr) target, pc + 5)
  | some .tableSwitch =>
      let head ← image.tableHead pc position code.stop
      let default ← code.branch position head.default.toInt pc
      let targets ← image.readTargets code pc head.table [] head.count
      return (.tableSwitch head.low head.high default targets, head.table + head.count * 4)
  | some .lookupSwitch =>
      let head ← image.lookupHead pc position code.stop
      let default ← code.branch position head.default.toInt pc
      let cases ← image.readCases code pc head.cases [] head.count
      return (.lookupSwitch default cases, head.cases + head.count * 8)
  | some .field =>
      let member ← pool.fieldRef (← input.u16 (pc + 1))
      return (.field (← opcodeAt byte pc) member, pc + 3)
  | some .method =>
      let (member, isInterface) ← pool.anyMethodRef (← input.u16 (pc + 1))
      return (.method (← opcodeAt byte pc) member isInterface, pc + 3)
  | some .invokeInterface =>
      let member ← pool.interfaceMethodRef (← input.u16 (pc + 1))
      return (.method .invokeinterface member true, pc + 5)
  | some .invokeDynamic =>
      let reference ← pool.invokeDynamicRef (← input.u16 (pc + 1))
      let (bootstrap, arguments) ← pool.bootstrapMethod reference.bootstrapIndex
      requireDynamicConstants api (arguments.any Constant.isDynamic)
      return (.invokeDynamic reference.name reference.descriptor bootstrap arguments, pc + 5)
  | some .type =>
      let name ← pool.classRef (← input.u16 (pc + 1))
      return (.type (← opcodeAt byte pc) name, pc + 3)
  | some .multiArray =>
      let descriptor ← pool.classRef (← input.u16 (pc + 1))
      return (.multiArray descriptor (← input.u8 (pc + 3)), pc + 4)
  | some .wide =>
      let next ← input.u8 (pc + 1)
      let slot ← input.u16 (pc + 2)
      if next = Opcode.iinc.code then
        return (.increment slot (← input.i16 (pc + 4)), pc + 6)
      else return (.variable (← opcodeAt next (pc + 1)) slot, pc + 4)

/-- Tells a type annotation of a body in its scope. -/
def tellCodeAnnotation (image : ClassImage) (opening : Opening) (note : CodeAnnotation) :
    Emit Unit :=
  discard (Emit.eager opening (image.tellValues note.valuesOffset))

/-- Tells `count` exception handlers, the first of them at `offset`. -/
def tellHandlers (image : ClassImage) (code : CodeArray) (offset : Nat) :
    (count : Nat) → Emit Unit
  | 0 => pure ()
  | count + 1 => do
      let start ← code.place (← image.input.u16 offset).toNat offset
      let stop ← code.place (← image.input.u16 (offset + 2)).toNat offset
      let handler ← code.place (← image.input.u16 (offset + 4)).toNat offset
      let type? ← Pool.optional image.pool.classRef (← image.input.u16 (offset + 6))
      tellItem (.tryCatch ⟨start, stop, handler, type?⟩)
      tellHandlers image code (offset + 8) count

/-- Tells the annotations of the exception handlers. -/
def tellHandlerAnnotations (image : ClassImage) (body : CodeBody) : Emit Unit :=
  body.annotations.toList.forM fun note =>
    match note.use.target with
    | .exceptionParameter _ =>
        image.tellCodeAnnotation (.annotateTryCatch note.use) note
    | _ => pure ()

/-- The annotations of each instruction, by its place. -/
def instructionAnnotations (body : CodeBody) : Std.HashMap Label (Array CodeAnnotation) :=
  body.annotations.foldl
    (fun found note =>
      match note.location with
      | .offset place =>
          if note.use.target.isInstruction then
            found.alter place.toNat fun known => some ((known.getD #[]).push note)
          else found
      | _ => found)
    ∅

/-- Tells the frames in front that belong to `position`, and gives the others. -/
def tellFrames (position : Label) : List (Label × Frame) → Emit (List (Label × Frame))
  | [] => pure []
  | (place, frame) :: rest =>
      if place = position then do
        tellInstruction (.frame frame)
        tellFrames position rest
      else pure ((place, frame) :: rest)

/-- Tells the label of a place, if it needs one, and its line numbers. -/
def tellLabel (body : CodeBody) (position : Label) : Emit Unit := do
  if body.labels.contains position then
    tellInstruction (.label position)
    (body.lines.getD position #[]).toList.forM fun line =>
      tellInstruction (.line line position)

/-- Tells the instructions from `pc` on, with everything that belongs to their places.  Every
instruction has a byte, so the length of the code bounds their number; more would never end. -/
def tellInstructions (image : ClassImage) (api : Api) (body : CodeBody)
    (annotations : Std.HashMap Label (Array CodeAnnotation)) (pc : Nat)
    (frames : List (Label × Frame)) (fuel : Nat) : Emit Unit :=
  if pc < body.code.stop then
    match fuel with
    | 0 => throw (.panic .endless)
    | fuel + 1 => do
        let position ← body.code.position pc
        tellLabel body position
        let frames ← tellFrames position frames
        let (instruction, next) ← image.readInstruction api body.code pc
        tellInstruction instruction
        (annotations.getD position #[]).toList.forM fun note =>
          image.tellCodeAnnotation (.annotateInstruction note.use) note
        tellInstructions image api body annotations next frames fuel
  else pure ()

/-- The generic signatures of local variables, by start, length and slot. -/
abbrev VariableTypes := Std.HashMap (UInt16 × UInt16 × UInt16) Text

/-- Reads `count` signatures of local variables, the first of them at `offset`. -/
def variableTypes (image : ClassImage) (offset : Nat) (types : VariableTypes) :
    (count : Nat) → Except ClassError VariableTypes
  | 0 => .ok types
  | count + 1 => do
      let start ← image.input.u16 offset
      let length ← image.input.u16 (offset + 2)
      let slot ← image.input.u16 (offset + 8)
      let signature ← image.textAt (offset + 6)
      variableTypes image (offset + 10) (types.insert (start, length, slot) signature) count

/-- Tells `count` local variables, the first of them at `offset`. -/
def tellVariables (image : ClassImage) (code : CodeArray) (types : VariableTypes)
    (offset : Nat) : (count : Nat) → Emit Unit
  | 0 => pure ()
  | count + 1 => do
      let start ← image.input.u16 offset
      let length ← image.input.u16 (offset + 2)
      let name ← image.textAt (offset + 4)
      let descriptor ← image.textAt (offset + 6)
      let slot ← image.input.u16 (offset + 8)
      let first ← code.place start.toNat offset
      let stop ← code.place (start.toNat + length.toNat) offset
      let signature? := types[(start, length, slot)]?
      tellItem (.localVariable ⟨name, descriptor, signature?, ⟨first, stop, slot⟩⟩)
      tellVariables image code types (offset + 10) count

/-- Tells the local variables of a body. -/
def tellVariableTable (image : ClassImage) (body : CodeBody) : Emit Unit := do
  match body.localVariables? with
  | none => pure ()
  | some offset =>
      let types ← match body.variableTypes? with
        | none => pure (∅ : VariableTypes)
        | some place => do
            let count ← image.input.u16 place
            image.variableTypes (place + 2) ∅ count.toNat
      let count ← image.input.u16 offset
      image.tellVariables body.code types (offset + 2) count.toNat

/-- Tells the annotations of the local variables; `source` is where the code attribute starts. -/
def tellVariableAnnotations (image : ClassImage) (body : CodeBody) (source : Nat) : Emit Unit :=
  body.annotations.toList.forM fun note =>
    match note.location with
    | .ranges ranges => do
        let places ← ranges.mapM fun range => do
          let start ← body.code.place range.start.toNat source
          let stop ← body.code.place (range.start.toNat + range.length.toNat) source
          pure (⟨start, stop, range.slot⟩ : LabelRange)
        image.tellCodeAnnotation (.annotateLocal note.use places) note
    | _ => pure ()

/-- Tells the body of a method. -/
def tellCode (image : ClassImage) (options : ReadOptions) (entry : RawAttribute) :
    Emit Unit := do
  let body ← image.codeBody options entry
  tellItem .code
  image.tellHandlers body.code body.handlersOffset body.handlers
  image.tellHandlerAnnotations body
  image.tellInstructions options.api body (instructionAnnotations body) body.code.start
    body.frames body.code.length
  if body.labels.contains body.code.length then
    tellInstruction (.label body.code.length)
  image.tellVariableTable body
  image.tellVariableAnnotations body entry.offset
  image.tellOthers options true body.common
  tellItem (.maxs body.maxStack body.maxLocals)

end ClassImage

end ClassFile
