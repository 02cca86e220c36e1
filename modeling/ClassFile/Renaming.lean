import ClassFile.Descriptor.Rename
import ClassFile.Event.Labels

/-!
# Renaming classes

A `Renaming` gives classes new names.  `Event.renamed` is an event with every class that it
mentions renamed: in headers, descriptors and signatures, in the operands of instructions, in
constants and in the values of annotations.  The names of members stay, and so does the declaration
of a module.
-/

namespace ClassFile

/-- New names for classes, none for those that keep theirs. -/
abbrev Renaming := Text → Option Text

namespace Renaming

/-- The renaming with the given old and new names; of two new names for a class the later counts. -/
def ofPairs (pairs : List (Text × Text)) : Renaming := fun name =>
  pairs.reverse.lookup name

/-- A descriptor under new names. -/
def descriptor (rename : Renaming) (text : Text) : Text :=
  (Descriptor.renameDescriptor rename text).getD text

/-- A generic signature under new names. -/
def signature (rename : Renaming) (text : Text) : Text :=
  (Descriptor.renameSignature rename text).getD text

/-- The name of a class, or the descriptor of an array where one stands for a class, under new
names. -/
def className (rename : Renaming) (name : Text) : Text :=
  if name.bytes.head? = some Ascii.openBracket then rename.descriptor name
  else (rename name).getD name

/-- A member under new names. -/
def member (rename : Renaming) (member : MemberRef) : MemberRef :=
  { member with
    owner := rename.className member.owner
    descriptor := rename.descriptor member.descriptor }

/-- A method handle under new names. -/
def handle (rename : Renaming) (handle : Handle) : Handle :=
  { handle with
    owner := rename.className handle.owner
    descriptor := rename.descriptor handle.descriptor }

mutual

/-- A constant under new names. -/
def constant (rename : Renaming) : Constant → Constant
  | .integer value => .integer value
  | .float bits => .float bits
  | .long value => .long value
  | .double bits => .double bits
  | .string value => .string value
  | .classRef name => .classRef (rename.className name)
  | .methodType descriptor => .methodType (rename.descriptor descriptor)
  | .handle value => .handle (rename.handle value)
  | .dynamic name descriptor bootstrap arguments =>
      .dynamic name (rename.descriptor descriptor) (rename.handle bootstrap)
        (constantsAfter rename [] arguments)

/-- Constants under new names, behind those of `done`, which are last first. -/
def constantsAfter (rename : Renaming) (done : List Constant) : List Constant → List Constant
  | [] => done.reverse
  | value :: rest => constantsAfter rename (constant rename value :: done) rest

end

/-- Constants under new names. -/
def constants (rename : Renaming) (values : List Constant) : List Constant :=
  rename.constantsAfter [] values

/-- A frame value under new names. -/
def frameValue (rename : Renaming) : FrameValue → FrameValue
  | .object name => .object (rename.className name)
  | value => value

/-- An element of a body under new names. -/
def instruction (rename : Renaming) : Instruction → Instruction
  | .type opcode name => .type opcode (rename.className name)
  | .field opcode member => .field opcode (rename.member member)
  | .method opcode member isInterface => .method opcode (rename.member member) isInterface
  | .invokeDynamic name descriptor bootstrap arguments =>
      .invokeDynamic name (rename.descriptor descriptor) (rename.handle bootstrap)
        (rename.constants arguments)
  | .loadConstant value => .loadConstant (rename.constant value)
  | .multiArray descriptor dimensions => .multiArray (rename.descriptor descriptor) dimensions
  | .frame content => .frame (content.mapValues rename.frameValue)
  | instruction => instruction

/-- The head of a class under new names. -/
def classHeader (rename : Renaming) (header : ClassHeader) : ClassHeader :=
  { header with
    name := rename.className header.name
    signature? := header.signature?.map rename.signature
    super? := header.super?.map rename.className
    interfaces := header.interfaces.map rename.className }

/-- The head of a type annotation under new names. -/
def typeUse (rename : Renaming) (use : TypeUse) : TypeUse :=
  { use with descriptor := rename.descriptor use.descriptor }

/-- The head of a scope under new names. -/
def opening (rename : Renaming) : Opening → Opening
  | .moduleScope header => .moduleScope header
  | .component header =>
      .component { header with
        descriptor := rename.descriptor header.descriptor
        signature? := header.signature?.map rename.signature }
  | .field header =>
      .field { header with
        descriptor := rename.descriptor header.descriptor
        signature? := header.signature?.map rename.signature }
  | .method header =>
      .method { header with
        descriptor := rename.descriptor header.descriptor
        signature? := header.signature?.map rename.signature
        exceptions := header.exceptions.map rename.className }
  | .annotate descriptor visible => .annotate (rename.descriptor descriptor) visible
  | .annotateType use => .annotateType (rename.typeUse use)
  | .annotationDefault => .annotationDefault
  | .annotateParameter parameter descriptor visible =>
      .annotateParameter parameter (rename.descriptor descriptor) visible
  | .annotateInstruction use => .annotateInstruction (rename.typeUse use)
  | .annotateTryCatch use => .annotateTryCatch (rename.typeUse use)
  | .annotateLocal use ranges => .annotateLocal (rename.typeUse use) ranges
  | .nested name? descriptor => .nested name? (rename.descriptor descriptor)
  | .array name? => .array name?

/-- An event of the class scope under new names. -/
def classItem (rename : Renaming) : ClassItem → ClassItem
  | .header header => .header (rename.classHeader header)
  | .source file? debug? => .source file? debug?
  | .nestHost name => .nestHost (rename.className name)
  | .outerClass owner name? descriptor? =>
      .outerClass (rename.className owner) name? (descriptor?.map rename.descriptor)
  | .nestMember name => .nestMember (rename.className name)
  | .permittedSubclass name => .permittedSubclass (rename.className name)
  | .innerClass entry =>
      .innerClass { entry with
        name := rename.className entry.name
        outer? := entry.outer?.map rename.className }

/-- A value of an annotation under new names. -/
def elementItem (rename : Renaming) : ElementItem → ElementItem
  | .constant name? (.classRef descriptor) =>
      .constant name? (.classRef (rename.descriptor descriptor))
  | .constant name? value => .constant name? value
  | .enumeration name? descriptor value => .enumeration name? (rename.descriptor descriptor) value

/-- An event of the method scope under new names. -/
def methodItem (rename : Renaming) : MethodItem → MethodItem
  | .instruction instruction => .instruction (rename.instruction instruction)
  | .tryCatch block => .tryCatch { block with type? := block.type?.map rename.className }
  | .localVariable entry =>
      .localVariable { entry with
        descriptor := rename.descriptor entry.descriptor
        signature? := entry.signature?.map rename.signature }
  | item => item

end Renaming

/-- An event under new names. -/
def Event.renamed (rename : Renaming) : Event → Event
  | .enter opening => .enter (rename.opening opening)
  | .classItem item => .classItem (rename.classItem item)
  | .element item => .element (rename.elementItem item)
  | .methodItem item => .methodItem (rename.methodItem item)
  | event => event

end ClassFile
