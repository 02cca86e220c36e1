import ClassFile.Listing.Values

/-!
# Listings of events

Every event is listed as the name of what is told and its parts, in a fixed order; `end` finishes a
scope and `drop` leaves it.
-/

namespace ClassFile

open Listing

namespace Instruction

/-- The listing of an element of a body. -/
def toListing : Instruction → Listing
  | .simple opcode => form "insn" [listing opcode]
  | .int (.byte value) => form "int_insn" [listing Opcode.bipush, listing value]
  | .int (.short value) => form "int_insn" [listing Opcode.sipush, listing value]
  | .int (.newArray element) => form "int_insn" [listing Opcode.newarray, listing element]
  | .variable opcode slot => form "var" [listing opcode, listing slot]
  | .type opcode name => form "type" [listing opcode, listing name]
  | .field opcode member =>
      form "field_insn"
        [listing opcode, listing member.owner, listing member.name, listing member.descriptor]
  | .method opcode member isInterface =>
      form "method_insn"
        [listing opcode, listing member.owner, listing member.name, listing member.descriptor,
          listing isInterface]
  | .invokeDynamic name descriptor bootstrap arguments =>
      form "indy" [listing name, listing descriptor, listing bootstrap, listing arguments]
  | .jump opcode target => form "jump" [listing opcode, listing target]
  | .label place => form "label" [listing place]
  | .loadConstant constant => form "ldc" [listing constant]
  | .increment slot amount => form "iinc" [listing slot, listing amount]
  | .tableSwitch low high default targets =>
      form "tableswitch" [listing low, listing high, listing default, listing targets]
  | .lookupSwitch default cases => form "lookupswitch" [listing default, listing cases]
  | .multiArray descriptor dimensions =>
      form "multianewarray" [listing descriptor, listing dimensions]
  | .line value start => form "line" [listing value, listing start]
  | .frame content => form "frame" [listing content]

/-- The instruction with an integer operand. -/
def intOfOperand? : Opcode → Listing → Option Instruction
  | .bipush, operand => (ofListing? operand).map fun value => .int (.byte value)
  | .sipush, operand => (ofListing? operand).map fun value => .int (.short value)
  | .newarray, operand => (ofListing? operand).map fun element => .int (.newArray element)
  | _, _ => none

/-- The element of a body with a given name and parts. -/
def ofForm? (name : String) (parts : List Listing) : Option Instruction :=
  match name with
  | "insn" => make? simple parts
  | "int_insn" => (make? intOfOperand? parts).bind id
  | "var" => make? Instruction.variable parts
  | "type" => make? type parts
  | "field_insn" =>
      make? (fun opcode owner name descriptor => field opcode ⟨owner, name, descriptor⟩) parts
  | "method_insn" =>
      make? (fun opcode owner name descriptor => method opcode ⟨owner, name, descriptor⟩) parts
  | "indy" => make? invokeDynamic parts
  | "jump" => make? jump parts
  | "label" => make? label parts
  | "ldc" => make? loadConstant parts
  | "iinc" => make? increment parts
  | "tableswitch" => make? tableSwitch parts
  | "lookupswitch" => make? lookupSwitch parts
  | "multianewarray" => make? multiArray parts
  | "line" => make? line parts
  | "frame" => make? frame parts
  | _ => none

end Instruction

instance : Listed Instruction where
  listing := Instruction.toListing
  ofListing? found := found.form?.bind fun shape => Instruction.ofForm? shape.1 shape.2

instance : Listed AttributeField where
  listing
    | .number value => listing value
    | .text value => form "text" [listing value]
    | .refused cause => form "refused" [listing cause.message]
  ofListing? found :=
    match found.form? with
    | some ("text", [value]) => (ofListing? value).map AttributeField.text
    | _ => (ofListing? found).map AttributeField.number

instance : Listed AttributeContent where
  listing
    | .raw bytes => Listing.bytes bytes
    | .fields fields => listing fields
  ofListing? found :=
    match found.bytes? with
    | some bytes => some (.raw bytes)
    | none => (ofListing? found).map AttributeContent.fields

namespace Opening

/-- The listing of the head of a type annotation; `ranges` stand behind the place. -/
def listUse (name : String) (use : TypeUse) (ranges : List Listing) : Listing :=
  form name
    ([listing use.target, listing use.path] ++ ranges ++
      [listing use.descriptor, listing use.visible])

/-- The name of the head of a scope. -/
def name : Opening → String
  | .moduleScope _ => "module"
  | .component _ => "record_component"
  | .field _ => "field"
  | .method _ => "method"
  | .annotate .. => "annotation"
  | .annotateType _ => "type_annotation"
  | .annotationDefault => "annotation_default"
  | .annotateParameter .. => "parameter_annotation"
  | .annotateInstruction _ => "insn_annotation"
  | .annotateTryCatch _ => "try_catch_annotation"
  | .annotateLocal .. => "local_annotation"
  | .nested .. => "nested"
  | .array _ => "array"

/-- The listing of the head of a scope. -/
def toListing (opening : Opening) : Listing :=
  match opening with
  | .moduleScope header =>
      form opening.name [listing header.name, listing header.access, listing header.version?]
  | .component header =>
      form opening.name
        [listing header.name, listing header.descriptor, listing header.signature?]
  | .field header =>
      form opening.name
        [listing header.access, listing header.name, listing header.descriptor,
          listing header.signature?, listing header.value?]
  | .method header =>
      form opening.name
        [listing header.access, listing header.name, listing header.descriptor,
          listing header.signature?, listing header.exceptions]
  | .annotate descriptor visible => form opening.name [listing descriptor, listing visible]
  | .annotationDefault => form opening.name []
  | .annotateParameter parameter descriptor visible =>
      form opening.name [listing parameter, listing descriptor, listing visible]
  | .annotateType use | .annotateInstruction use | .annotateTryCatch use =>
      listUse opening.name use []
  | .annotateLocal use ranges => listUse opening.name use [listing ranges]
  | .nested name? descriptor => form opening.name [listing name?, listing descriptor]
  | .array name? => form opening.name [listing name?]

/-- The head of a scope with a given name and parts. -/
def ofForm? (name : String) (parts : List Listing) : Option Opening :=
  match name with
  | "module" => (make? ModuleHeader.mk parts).map moduleScope
  | "record_component" => (make? ComponentHeader.mk parts).map component
  | "field" => (make? FieldHeader.mk parts).map field
  | "method" => (make? MethodHeader.mk parts).map method
  | "annotation" => make? annotate parts
  | "type_annotation" => (make? TypeUse.mk parts).map annotateType
  | "annotation_default" => make? annotationDefault parts
  | "parameter_annotation" => make? annotateParameter parts
  | "insn_annotation" => (make? TypeUse.mk parts).map annotateInstruction
  | "try_catch_annotation" => (make? TypeUse.mk parts).map annotateTryCatch
  | "local_annotation" =>
      make? (fun target path ranges descriptor visible =>
        annotateLocal ⟨target, path, descriptor, visible⟩ ranges) parts
  | "nested" => make? nested parts
  | "array" => make? array parts
  | _ => none

end Opening

namespace ClassItem

/-- The listing of an event of the class scope. -/
def toListing : ClassItem → Listing
  | .header head =>
      form "visit"
        [listing head.version.major, listing head.version.minor, listing head.access,
          listing head.name, listing head.signature?, listing head.super?,
          listing head.interfaces]
  | .source file? debug? => form "source" [listing file?, listing debug?]
  | .nestHost name => form "nest_host" [listing name]
  | .outerClass owner name? descriptor? =>
      form "outer_class" [listing owner, listing name?, listing descriptor?]
  | .nestMember name => form "nest_member" [listing name]
  | .permittedSubclass name => form "permitted_subclass" [listing name]
  | .innerClass entry =>
      form "inner_class"
        [listing entry.name, listing entry.outer?, listing entry.inner?, listing entry.access]

/-- The event of the class scope with a given name and parts. -/
def ofForm? (name : String) (parts : List Listing) : Option ClassItem :=
  match name with
  | "visit" =>
      make? (fun major minor access name signature? super? interfaces =>
        header ⟨⟨major, minor⟩, access, name, signature?, super?, interfaces⟩) parts
  | "source" => make? source parts
  | "nest_host" => make? nestHost parts
  | "outer_class" => make? outerClass parts
  | "nest_member" => make? nestMember parts
  | "permitted_subclass" => make? permittedSubclass parts
  | "inner_class" => (make? InnerClass.mk parts).map innerClass
  | _ => none

end ClassItem

namespace ModuleItem

/-- The listing of a relation of packages. -/
def listRelation (name : String) (relation : Relation) : Listing :=
  form name [listing relation.package, listing relation.access, listing relation.modules]

/-- The listing of an event of the module scope. -/
def toListing : ModuleItem → Listing
  | .mainClass name => form "main_class" [listing name]
  | .package name => form "package" [listing name]
  | .requires requirement =>
      form "require"
        [listing requirement.name, listing requirement.access, listing requirement.version?]
  | .exports relation => listRelation "export" relation
  | .opens relation => listRelation "open" relation
  | .uses service => form "use" [listing service]
  | .provides provision =>
      form "provide" [listing provision.service, listing provision.providers]

/-- The event of the module scope with a given name and parts. -/
def ofForm? (name : String) (parts : List Listing) : Option ModuleItem :=
  match name with
  | "main_class" => make? mainClass parts
  | "package" => make? package parts
  | "require" => (make? Requirement.mk parts).map requires
  | "export" => (make? Relation.mk parts).map exports
  | "open" => (make? Relation.mk parts).map opens
  | "use" => make? uses parts
  | "provide" => (make? Provision.mk parts).map provides
  | _ => none

end ModuleItem

namespace ElementItem

/-- The listing of a value of an annotation. -/
def toListing : ElementItem → Listing
  | .constant name? value => form "value" [listing name?, listing value]
  | .enumeration name? descriptor value =>
      form "enum" [listing name?, listing descriptor, listing value]

/-- The value of an annotation with a given name and parts. -/
def ofForm? (name : String) (parts : List Listing) : Option ElementItem :=
  match name with
  | "value" => make? constant parts
  | "enum" => make? enumeration parts
  | _ => none

end ElementItem

namespace MethodItem

/-- The listing of an event of the method scope. -/
def toListing : MethodItem → Listing
  | .parameter entry => form "parameter" [listing entry.name?, listing entry.access]
  | .annotableParameterCount count visible =>
      form "annotable_parameter_count" [listing count, listing visible]
  | .code => form "code" []
  | .instruction element => listing element
  | .tryCatch block =>
      form "try_catch"
        [listing block.start, listing block.stop, listing block.handler, listing block.type?]
  | .localVariable entry =>
      form "local"
        [listing entry.name, listing entry.descriptor, listing entry.signature?,
          listing entry.range.start, listing entry.range.stop, listing entry.range.slot]
  | .maxs stack locals => form "maxs" [listing stack, listing locals]

/-- The event of the method scope with a given name and parts. -/
def ofForm? (name : String) (parts : List Listing) : Option MethodItem :=
  match name with
  | "parameter" => (make? Parameter.mk parts).map parameter
  | "annotable_parameter_count" => make? annotableParameterCount parts
  | "code" => make? code parts
  | "try_catch" => (make? TryCatch.mk parts).map tryCatch
  | "local" =>
      make? (fun name descriptor signature? start stop slot =>
        localVariable ⟨name, descriptor, signature?, ⟨start, stop, slot⟩⟩) parts
  | "maxs" => make? maxs parts
  | _ => (Instruction.ofForm? name parts).map instruction

end MethodItem

namespace Event

/-- The listing of an event. -/
def toListing : Event → Listing
  | .enter opening => opening.toListing
  | .classItem item => item.toListing
  | .moduleItem item => item.toListing
  | .element item => item.toListing
  | .methodItem item => item.toListing
  | .attribute entry =>
      form "attribute" [listing entry.name, listing entry.content, listing entry.inCode]
  | .finish => form "end" []
  | .leave => form "drop" []

/-- The event with a given name and parts. -/
def ofForm? (name : String) (parts : List Listing) : Option Event :=
  match name with
  | "end" => make? finish parts
  | "drop" => make? leave parts
  | "attribute" =>
      make? (fun name content inCode => Event.attribute ⟨name, inCode, content⟩) parts
  | _ =>
      ((MethodItem.ofForm? name parts).map methodItem).or <|
      ((Opening.ofForm? name parts).map enter).or <|
      ((ElementItem.ofForm? name parts).map element).or <|
      ((ClassItem.ofForm? name parts).map classItem).or <|
      (ModuleItem.ofForm? name parts).map moduleItem

end Event

instance : Listed Event where
  listing := Event.toListing
  ofListing? found := found.form?.bind fun shape => Event.ofForm? shape.1 shape.2

end ClassFile
