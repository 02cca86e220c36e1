import ClassFile.Error
import ClassFile.Opcode
import ClassFile.TypeAnnotation

/-!
# Class events

A class is told as a sequence of events.  Some events open a scope (`Opening`): the module
declaration, a record component, a field, a method, an annotation.  What comes next belongs to that
scope until it is closed again, by `finish` when all of it was told and by `leave` when it is given
up halfway.  The outermost scope is the class itself.

Labels stand for places in the code of a method; `Instruction.label` says where they are.
-/

namespace ClassFile

/-- What a local variable or stack slot is known to hold. -/
inductive FrameValue where
  | top | integer | float | long | double | null | uninitializedThis
  | object (name : Text)
  /-- The result of the `new` instruction behind the label. -/
  | uninitialized (label : Label)
  deriving DecidableEq, Inhabited

/-- The state of the locals and the stack at a place in the code, told as a change to the state at
the frame before. -/
inductive Frame where
  | same
  | same1 (value : FrameValue)
  | chop (count : UInt8)
  | append (locals : List FrameValue)
  | full (locals stack : List FrameValue)
  deriving DecidableEq, Inhabited

/-- An instruction whose operand is a number that is part of it. -/
inductive IntOperand where
  | byte (value : Int8)
  | short (value : Int16)
  | newArray (element : ElementType)
  deriving DecidableEq, Inhabited

namespace IntOperand

/-- The opcode that the operand belongs to. -/
def opcode : IntOperand → Opcode
  | .byte _ => .bipush
  | .short _ => .sipush
  | .newArray _ => .newarray

end IntOperand

/-- One element of the body of a method: an instruction, or a label, line number or frame between
instructions. -/
inductive Instruction where
  | simple (opcode : Opcode)
  | int (operand : IntOperand)
  | variable (opcode : Opcode) (slot : UInt16)
  | type (opcode : Opcode) (name : Text)
  | field (opcode : Opcode) (member : MemberRef)
  | method (opcode : Opcode) (member : MemberRef) (isInterface : Bool)
  | invokeDynamic (name descriptor : Text) (bootstrap : Handle) (arguments : List Constant)
  | jump (opcode : Opcode) (target : Label)
  | label (label : Label)
  | loadConstant (constant : Constant)
  | increment (slot : UInt16) (amount : Int16)
  | tableSwitch (low high : Int32) (default : Label) (targets : List Label)
  | lookupSwitch (default : Label) (cases : List (Int32 × Label))
  | multiArray (descriptor : Text) (dimensions : UInt8)
  | line (number : UInt16) (start : Label)
  | frame (frame : Frame)
  deriving Inhabited

namespace Instruction

/-- The opcode of a real instruction, none for labels, line numbers and frames. -/
def opcode? : Instruction → Option Opcode
  | .simple opcode | .variable opcode _ | .type opcode _ | .field opcode _ | .method opcode _ _
  | .jump opcode _ => some opcode
  | .int operand => some operand.opcode
  | .invokeDynamic .. => some .invokedynamic
  | .loadConstant _ => some .ldc
  | .increment .. => some .iinc
  | .tableSwitch .. => some .tableswitch
  | .lookupSwitch .. => some .lookupswitch
  | .multiArray .. => some .multianewarray
  | .label _ | .line .. | .frame _ => none

/-- Whether the element is an instruction that is executed. -/
def isReal (instruction : Instruction) : Bool :=
  instruction.opcode?.isSome

/-- Whether the instruction needs a dynamic constant. -/
def usesDynamicConstant : Instruction → Bool
  | .loadConstant constant => constant.isDynamic
  | .invokeDynamic _ _ _ arguments => arguments.any Constant.isDynamic
  | _ => false

end Instruction

/-- A piece of the contents of an attribute: a number, a text by its number in the pool, or the point
where the attribute itself says that it can't be written. -/
inductive AttributeField where
  | number (value : UInt16)
  | text (value : Text)
  | refused (cause : ClassError)
  deriving DecidableEq, Inhabited

/-- The contents of an attribute.  Raw contents are not understood: pool numbers in them only make
sense next to the pool they came with. -/
inductive AttributeContent where
  | raw (bytes : List UInt8)
  | fields (fields : List AttributeField)
  deriving DecidableEq, Inhabited

/-- An attribute that the format does not define. -/
structure Attribute where
  name : Text
  /-- Whether the attribute belongs to the code of a method rather than to a class or member. -/
  inCode : Bool
  content : AttributeContent
  deriving DecidableEq, Inhabited

/-- The code over which a local variable has a slot. -/
structure LabelRange where
  start : Label
  stop : Label
  slot : UInt16
  deriving DecidableEq, Inhabited

/-- The head of a class. -/
structure ClassHeader where
  version : FormatVersion
  access : UInt32
  name : Text
  signature? : Option Text
  super? : Option Text
  interfaces : List Text
  deriving DecidableEq, Inhabited

/-- The head of a module declaration. -/
structure ModuleHeader where
  name : Text
  access : UInt16
  version? : Option Text
  deriving DecidableEq, Inhabited

/-- The head of a record component. -/
structure ComponentHeader where
  name : Text
  descriptor : Text
  signature? : Option Text
  deriving DecidableEq, Inhabited

/-- The head of a field. -/
structure FieldHeader where
  access : UInt32
  name : Text
  descriptor : Text
  signature? : Option Text
  value? : Option FieldValue
  deriving DecidableEq, Inhabited

/-- The head of a method. -/
structure MethodHeader where
  access : UInt32
  name : Text
  descriptor : Text
  signature? : Option Text
  exceptions : List Text
  deriving DecidableEq, Inhabited

/-- The head of a type annotation: where it stands and what its type is. -/
structure TypeUse where
  target : TypeTarget
  path : TypePath
  descriptor : Text
  visible : Bool
  deriving DecidableEq, Inhabited

/-- An entry of the table of inner classes. -/
structure InnerClass where
  name : Text
  outer? : Option Text
  inner? : Option Text
  access : UInt16
  deriving DecidableEq, Inhabited

/-- A module that a module requires. -/
structure Requirement where
  name : Text
  access : UInt16
  version? : Option Text
  deriving DecidableEq, Inhabited

/-- A package that a module exports or opens, to the given modules or, if there are none, to all. -/
structure Relation where
  package : Text
  access : UInt16
  modules : List Text
  deriving DecidableEq, Inhabited

/-- A service of a module and the classes that provide it. -/
structure Provision where
  service : Text
  providers : List Text
  deriving DecidableEq, Inhabited

/-- A parameter of a method. -/
structure Parameter where
  name? : Option Text
  access : UInt16
  deriving DecidableEq, Inhabited

/-- A stretch of code whose exceptions of a type, or of any type, a handler takes. -/
structure TryCatch where
  start : Label
  stop : Label
  handler : Label
  type? : Option Text
  deriving DecidableEq, Inhabited

/-- A local variable over a stretch of code. -/
structure LocalVariable where
  name : Text
  descriptor : Text
  signature? : Option Text
  range : LabelRange
  deriving DecidableEq, Inhabited

/-- An event that opens a scope. -/
inductive Opening where
  | moduleScope (header : ModuleHeader)
  | component (header : ComponentHeader)
  | field (header : FieldHeader)
  | method (header : MethodHeader)
  | annotate (descriptor : Text) (visible : Bool)
  | annotateType (use : TypeUse)
  | annotationDefault
  | annotateParameter (parameter : UInt8) (descriptor : Text) (visible : Bool)
  | annotateInstruction (use : TypeUse)
  | annotateTryCatch (use : TypeUse)
  | annotateLocal (use : TypeUse) (ranges : List LabelRange)
  | nested (name? : Option Text) (descriptor : Text)
  | array (name? : Option Text)
  deriving DecidableEq, Inhabited

namespace Opening

/-- Whether the scope is the module declaration or a member of the class.  All others are
annotations or parts of them. -/
def isMember : Opening → Bool
  | .moduleScope _ | .component _ | .field _ | .method _ => true
  | _ => false

end Opening

/-- An event of the class scope. -/
inductive ClassItem where
  | header (header : ClassHeader)
  | source (file? debug? : Option Text)
  | nestHost (name : Text)
  | outerClass (owner : Text) (name? descriptor? : Option Text)
  | nestMember (name : Text)
  | permittedSubclass (name : Text)
  | innerClass (entry : InnerClass)
  deriving DecidableEq, Inhabited

/-- An event of the module scope. -/
inductive ModuleItem where
  | mainClass (name : Text)
  | package (name : Text)
  | requires (requirement : Requirement)
  | exports (relation : Relation)
  | opens (relation : Relation)
  | uses (service : Text)
  | provides (provision : Provision)
  deriving DecidableEq, Inhabited

/-- A value of an annotation or array.  Values of an array have no name. -/
inductive ElementItem where
  | constant (name? : Option Text) (value : AnnotationConstant)
  | enumeration (name? : Option Text) (descriptor value : Text)
  deriving DecidableEq, Inhabited

/-- The name of a value of an annotation that was told none. -/
def ElementItem.standardName : Text :=
  Text.ofString "value"

/-- An event of the method scope.  The body is what comes between `code` and `maxs`. -/
inductive MethodItem where
  | parameter (parameter : Parameter)
  | annotableParameterCount (count : UInt8) (visible : Bool)
  | code
  | instruction (instruction : Instruction)
  | tryCatch (block : TryCatch)
  | localVariable (entry : LocalVariable)
  | maxs (stack locals : UInt16)
  deriving Inhabited

/-- One event of the story of a class. -/
inductive Event where
  | enter (opening : Opening)
  | classItem (item : ClassItem)
  | moduleItem (item : ModuleItem)
  | element (item : ElementItem)
  | methodItem (item : MethodItem)
  | attribute (content : Attribute)
  | finish
  | leave
  deriving Inhabited

end ClassFile
