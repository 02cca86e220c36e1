import ClassFile.Constant
import ClassFile.Text.Modified
import ClassFile.Version

/-!
# Errors

`ClassError` lists what can be wrong with a class file that is read, with a class that is written,
or with a construct that a consumer is too old for.  Each cause has its wording (`message`), and is
or is not the fault of the bytes that were read (`isMalformed`).

`Panic` lists the requests that no caller may make and the steps that the machine cannot do.  A `Fault`
is either.
-/

namespace ClassFile

/-- A place in the code of a method.  Two labels are the same place exactly when they are equal. -/
abbrev Label := Nat

/-- A request that no caller may make, or a step that the machine cannot do. -/
inductive Panic where
  | chopCount (count : Nat)
  | appendCount (count : Nat)
  | wrongOperands (opcode : String) (event : String)
  | listPosition (position size : Nat)
  | notInList
  | arenaFull (arena : Nat)
  | outOfRange
  | overflow
  /-- A chain of links that runs in a circle. -/
  | endless
  deriving DecidableEq, Inhabited

namespace Panic

/-- The wording of a refusal, for the requests that have one. -/
def message? : Panic → Option String
  | .chopCount count => some s!"can't chop {count} locals"
  | .appendCount count => some s!"can't append {count} locals"
  | .wrongOperands opcode event => some s!"{opcode} can't be visited with {event}"
  | .listPosition position size =>
      some s!"index {position} out of range for instruction list of length {size}"
  | .notInList => some "instruction is not in this list"
  | .arenaFull arena => some s!"instruction arena {arena} is full"
  | .outOfRange | .overflow | .endless => none

end Panic

/-- Why a class can't be read or written.  Offsets count from the start of the file. -/
inductive ClassError where
  | badAnnotationTag (tag : UInt8) (offset : Nat)
  | badAttributeLength (offset : Nat)
  | badBranchTarget (target : Int) (offset : Nat)
  | badPoolIndex (index : UInt16) (size : Nat)
  | noPoolEntry (index : UInt16)
  | badPoolTag (tag : UInt8) (offset : Nat)
  | wrongPoolTag (expected actual : PoolTag)
  | badFrameType (frameType : UInt8) (offset : Nat)
  | badHandleKind (kind : UInt8)
  | badMagic
  | badOpcode (opcode : UInt8) (offset : Nat)
  | badTypeTarget (target : UInt8) (offset : Nat)
  | badFrameValue (tag : UInt8) (offset : Nat)
  | outOfBounds (index size : Nat)
  | tooDeepNesting
  | unsupportedVersion (major : UInt16)
  | unsupportedApi (construct : String) (required requested : Api)
  | badText (error : Text.DecodingError)
  | codeTooLarge (method : Text) (size : Nat)
  | poolOverflow
  | layoutDiverged (method : Text)
  | tooManyEntries (what : String)
  | unresolvedLabel (method : Text) (label : Label)
  | textTooLong (size : Nat)
  /-- A step that the machine cannot do, which no class file should lead to. -/
  | panic (cause : Panic)
  deriving DecidableEq, Inhabited

namespace ClassError

/-- The wording of an error.  A label has no name of its own and is shown by its number. -/
def message : ClassError → String
  | .badAnnotationTag tag offset => s!"bad annotation tag {tag} at offset {offset}"
  | .badAttributeLength offset => s!"bad attribute length at offset {offset}"
  | .badBranchTarget target offset =>
      s!"branch target {target} out of the code array, at offset {offset}"
  | .badPoolIndex index size => s!"bad constant pool index: {index}, len {size}"
  | .noPoolEntry index => s!"no entry at constant pool index: {index}"
  | .badPoolTag tag offset => s!"bad constant pool tag {tag} at offset {offset}"
  | .wrongPoolTag expected actual =>
      s!"bad constant pool tag: {actual.name}, expected {expected.name}"
  | .badFrameType frameType offset => s!"bad stack map frame type {frameType} at offset {offset}"
  | .badHandleKind kind => s!"bad handle kind: {kind}"
  | .badMagic => "bad magic number"
  | .badOpcode opcode offset => s!"bad opcode {opcode} at offset {offset}"
  | .badTypeTarget target offset => s!"bad type annotation target {target} at offset {offset}"
  | .badFrameValue tag offset => s!"bad verification type {tag} at offset {offset}"
  | .outOfBounds index size =>
      s!"read past the end of the class file, index {index}, len {size}"
  | .tooDeepNesting => "too deep nesting"
  | .unsupportedVersion major => s!"unsupported class file version: {major}"
  | .unsupportedApi construct required requested =>
      s!"{construct} requires api {required.name}, but {requested.name} was requested"
  | .badText error => s!"utf8 error: {error.message}"
  | .codeTooLarge method size => s!"code of method {method.quoted} is too large: {size} bytes"
  | .poolOverflow => "constant pool has too many entries"
  | .layoutDiverged method => s!"jump layout of method {method.quoted} did not converge"
  | .tooManyEntries what => s!"too many {what}"
  | .unresolvedLabel method label =>
      s!"label L{label} is used in method {method.quoted} but never visited"
  | .textTooLong size => s!"string too long to encode: {size} bytes"
  | .panic cause => cause.message?.getD "overflow"

/-- Whether the bytes that were read are to blame. -/
def isMalformed : ClassError → Bool
  | .badAnnotationTag .. | .badAttributeLength .. | .badBranchTarget .. | .badPoolIndex ..
  | .noPoolEntry .. | .badPoolTag .. | .wrongPoolTag .. | .badFrameType .. | .badHandleKind ..
  | .badMagic | .badOpcode .. | .badTypeTarget .. | .badFrameValue .. | .outOfBounds ..
  | .tooDeepNesting | .badText .. => true
  | .unsupportedVersion .. | .unsupportedApi .. | .codeTooLarge .. | .poolOverflow
  | .layoutDiverged .. | .tooManyEntries .. | .unresolvedLabel .. | .textTooLong .. | .panic .. =>
      false

/-- The error, unless the number that led to it is too great for the machine. -/
def orOverflow (cause : ClassError) (greatest number : Nat) : ClassError :=
  if greatest < number then .panic .overflow else cause

/-- The offset in the file where the bytes went wrong, where it is known. -/
def offset? : ClassError → Option Nat
  | .badAnnotationTag _ offset | .badAttributeLength offset | .badBranchTarget _ offset
  | .badPoolTag _ offset | .badFrameType _ offset | .badOpcode _ offset | .badTypeTarget _ offset
  | .badFrameValue _ offset => some offset
  | .outOfBounds index _ => some index
  | .badMagic => some 0
  | _ => none

end ClassError

/-- Fails where a construct that came with `required` is used and the version is older. -/
def Api.requireFor (api : Api) (used : Bool) (construct : String) (required : Api) :
    Except ClassError Unit :=
  if used && ! api.supports required then .error (.unsupportedApi construct required api)
  else .ok ()

/-- Why an operation stopped: an error of the class or a request that no caller may make. -/
inductive Fault where
  | error (cause : ClassError)
  | panic (cause : Panic)
  deriving Inhabited

/-- Reports a faulty class. -/
def failure {m : Type → Type} {α : Type} [MonadExceptOf Fault m] (cause : ClassError) : m α :=
  throw (Fault.error cause)

/-- Carries a result that may be a faulty class over to the setting of faults. -/
def Fault.ofExcept {α : Type} : Except ClassError α → Except Fault α
  | .ok value => .ok value
  | .error cause => .error (.error cause)

end ClassFile
