import ClassFile.Event
import ClassFile.Listing

/-!
# Listings of values

How constants, method handles, places of type annotations and stack map frames are listed.  The bits
of a floating-point number are listed in hexadecimal, so that nothing of them is lost.
-/

namespace ClassFile

namespace Listing

/-- The bits of a single-precision number. -/
def float (value : UInt32) : Listing :=
  bits 8 value.toNat

/-- The bits of a double-precision number. -/
def double (value : UInt64) : Listing :=
  bits 16 value.toNat

/-- The single-precision number with the given bits. -/
def float? (found : Listing) : Option UInt32 :=
  found.bits?.map Nat.toUInt32

/-- The double-precision number with the given bits. -/
def double? (found : Listing) : Option UInt64 :=
  found.bits?.map Nat.toUInt64

end Listing

open Listing

instance : Listed MemberRef where
  listing member := listing [member.owner, member.name, member.descriptor]
  ofListing? := makeOf? MemberRef.mk

instance : Listed NameAndType where
  listing member := listing [member.name, member.descriptor]
  ofListing? := makeOf? NameAndType.mk

instance : Listed HandleKind where
  listing kind := listing kind.code
  ofListing? found := (ofListing? found).bind HandleKind.ofCode?

instance : Listed Handle where
  listing handle :=
    .list [listing handle.kind, listing handle.owner, listing handle.name,
      listing handle.descriptor, listing handle.isInterface]
  ofListing? := makeOf? Handle.mk

instance : Listed ElementType where
  listing element := listing element.code
  ofListing? found := (ofListing? found).bind ElementType.ofCode?

instance : Listed Opcode where
  listing opcode := word opcode.mnemonic
  ofListing? found := found.string?.bind Opcode.ofMnemonic?

namespace Constant

mutual

/-- The listing of a constant. -/
def toListing : Constant → Listing
  | .integer value => form "int" [listing value]
  | .float bits => form "float" [Listing.float bits]
  | .long value => form "long" [listing value]
  | .double bits => form "double" [Listing.double bits]
  | .string value => form "string" [listing value]
  | .classRef name => form "class" [listing name]
  | .methodType descriptor => form "mtype" [listing descriptor]
  | .handle value => form "handle" [listing value]
  | .dynamic name descriptor bootstrap arguments =>
      form "condy"
        [listing name, listing descriptor, listing bootstrap, .list (toListings arguments)]

/-- The listings of constants. -/
def toListings : List Constant → List Listing
  | [] => []
  | constant :: rest => toListing constant :: toListings rest

end

/-- The constant of a kind that holds no other constants. -/
def plainOfForm? (name : String) (arguments : List Listing) : Option Constant :=
  match name, arguments with
  | "int", [value] => (ofListing? value).map integer
  | "float", [value] => value.float?.map float
  | "long", [value] => (ofListing? value).map long
  | "double", [value] => value.double?.map double
  | "string", [value] => (ofListing? value).map string
  | "class", [value] => (ofListing? value).map classRef
  | "mtype", [value] => (ofListing? value).map methodType
  | "handle", [value] => (ofListing? value).map handle
  | _, _ => none

mutual

/-- The constant with a given listing. -/
def ofListing? : Listing → Option Constant
  | .list [.text kind, name, descriptor, bootstrap, .list arguments] =>
      if kind = Text.ofString "condy" then do
        let name ← Listed.ofListing? name
        let descriptor ← Listed.ofListing? descriptor
        let bootstrap ← Listed.ofListing? bootstrap
        return .dynamic name descriptor bootstrap (← ofListings? arguments)
      else none
  | found => found.form?.bind fun shape => plainOfForm? shape.1 shape.2

/-- The constants with given listings. -/
def ofListings? : List Listing → Option (List Constant)
  | [] => some []
  | found :: rest => do
      let constant ← ofListing? found
      return constant :: (← ofListings? rest)

end

end Constant

instance : Listed Constant := ⟨Constant.toListing, Constant.ofListing?⟩

instance : Listed FieldValue where
  listing
    | .integer value => form "int" [listing value]
    | .float bits => form "float" [Listing.float bits]
    | .long value => form "long" [listing value]
    | .double bits => form "double" [Listing.double bits]
    | .string value => form "string" [listing value]
  ofListing? found :=
    match found.form? with
    | some ("int", [value]) => (ofListing? value).map FieldValue.integer
    | some ("float", [value]) => value.float?.map FieldValue.float
    | some ("long", [value]) => (ofListing? value).map FieldValue.long
    | some ("double", [value]) => value.double?.map FieldValue.double
    | some ("string", [value]) => (ofListing? value).map FieldValue.string
    | _ => none

instance : Listed AnnotationConstant where
  listing
    | .byte value => form "B" [listing value]
    | .char value => form "C" [listing value]
    | .int value => form "I" [listing value]
    | .short value => form "S" [listing value]
    | .long value => form "J" [listing value]
    | .double bits => form "D" [Listing.double bits]
    | .float bits => form "F" [Listing.float bits]
    | .boolean value => form "Z" [listing value]
    | .string value => form "s" [listing value]
    | .classRef descriptor => form "c" [listing descriptor]
  ofListing? found :=
    match found.form? with
    | some ("B", [value]) => (ofListing? value).map AnnotationConstant.byte
    | some ("C", [value]) => (ofListing? value).map AnnotationConstant.char
    | some ("I", [value]) => (ofListing? value).map AnnotationConstant.int
    | some ("S", [value]) => (ofListing? value).map AnnotationConstant.short
    | some ("J", [value]) => (ofListing? value).map AnnotationConstant.long
    | some ("D", [value]) => value.double?.map AnnotationConstant.double
    | some ("F", [value]) => value.float?.map AnnotationConstant.float
    | some ("Z", [value]) => (ofListing? value).map AnnotationConstant.boolean
    | some ("s", [value]) => (ofListing? value).map AnnotationConstant.string
    | some ("c", [value]) => (ofListing? value).map AnnotationConstant.classRef
    | _ => none

namespace TypeTarget

/-- The listings of the numbers that belong to a target. -/
def operands : TypeTarget → List Listing
  | .classTypeParameter parameter | .methodTypeParameter parameter
  | .methodFormalParameter parameter => [listing parameter]
  | .classExtends interface? => [listing interface?]
  | .classTypeParameterBound parameter bound | .methodTypeParameterBound parameter bound =>
      [listing parameter, listing bound]
  | .throws position => [listing position]
  | .exceptionParameter block => [listing block]
  | .cast argument | .constructorInvocationArgument argument | .methodInvocationArgument argument
  | .constructorReferenceArgument argument | .methodReferenceArgument argument =>
      [listing argument]
  | .field | .methodReturn | .methodReceiver | .localVariable | .resourceVariable | .instanceOf
  | .newObject | .constructorReference | .methodReference => []

/-- The target of a sort with the given numbers. -/
def ofOperands? (code : UInt8) (operands : List Listing) : Option TypeTarget :=
  match code with
  | 0x00 => make? classTypeParameter operands
  | 0x01 => make? methodTypeParameter operands
  | 0x10 => make? classExtends operands
  | 0x11 => make? classTypeParameterBound operands
  | 0x12 => make? methodTypeParameterBound operands
  | 0x13 => make? field operands
  | 0x14 => make? methodReturn operands
  | 0x15 => make? methodReceiver operands
  | 0x16 => make? methodFormalParameter operands
  | 0x17 => make? throws operands
  | 0x40 => make? localVariable operands
  | 0x41 => make? resourceVariable operands
  | 0x42 => make? exceptionParameter operands
  | 0x43 => make? instanceOf operands
  | 0x44 => make? newObject operands
  | 0x45 => make? constructorReference operands
  | 0x46 => make? methodReference operands
  | 0x47 => make? cast operands
  | 0x48 => make? constructorInvocationArgument operands
  | 0x49 => make? methodInvocationArgument operands
  | 0x4A => make? constructorReferenceArgument operands
  | 0x4B => make? methodReferenceArgument operands
  | _ => none

end TypeTarget

instance : Listed TypeTarget where
  listing target := .list (listing target.code :: target.operands)
  ofListing?
    | .list (code :: operands) =>
        (ofListing? code).bind fun found => TypeTarget.ofOperands? found operands
    | _ => none

instance : Listed TypeStep where
  listing
    | .typeArgument position => listing position
    | .arrayElement => word "["
    | .innerType => word "."
    | .wildcardBound => word "*"
  ofListing? found :=
    match found.string? with
    | some "[" => some .arrayElement
    | some "." => some .innerType
    | some "*" => some .wildcardBound
    | _ => (ofListing? found).map TypeStep.typeArgument

instance : Listed TypePath where
  listing path := listing path.steps
  ofListing? found := (ofListing? found).map TypePath.ofSteps

instance : Listed FrameValue where
  listing
    | .top => word "top"
    | .integer => word "int"
    | .float => word "float"
    | .long => word "long"
    | .double => word "double"
    | .null => word "null"
    | .uninitializedThis => word "uninit_this"
    | .object name => form "class" [listing name]
    | .uninitialized label => form "uninit" [listing label]
  ofListing? found :=
    match found.string?, found.form? with
    | some "top", _ => some .top
    | some "int", _ => some .integer
    | some "float", _ => some .float
    | some "long", _ => some .long
    | some "double", _ => some .double
    | some "null", _ => some .null
    | some "uninit_this", _ => some .uninitializedThis
    | _, some ("class", [name]) => (ofListing? name).map FrameValue.object
    | _, some ("uninit", [label]) => (ofListing? label).map FrameValue.uninitialized
    | _, _ => none

instance : Listed Frame where
  listing
    | .same => form "same" []
    | .same1 value => form "same1" [listing value]
    | .chop count => form "chop" [listing count]
    | .append locals => form "append" [listing locals]
    | .full locals stack => form "full" [listing locals, listing stack]
  ofListing? found :=
    match found.form? with
    | some ("same", arguments) => make? Frame.same arguments
    | some ("same1", arguments) => make? Frame.same1 arguments
    | some ("chop", arguments) => make? Frame.chop arguments
    | some ("append", arguments) => make? Frame.append arguments
    | some ("full", arguments) => make? Frame.full arguments
    | _ => none

instance : Listed LabelRange where
  listing range := .list [listing range.start, listing range.stop, listing range.slot]
  ofListing? := makeOf? LabelRange.mk

end ClassFile
