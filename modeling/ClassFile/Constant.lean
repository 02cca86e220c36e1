import ClassFile.Text

/-!
# Constants

The values that a class file refers to by number: members of classes, method handles and the
constants that an instruction can load.  A floating-point constant is its bit pattern, so that every
value that is not a number keeps its payload and the two zeros stay apart.
-/

namespace ClassFile

/-- The kinds of entries of a constant pool. -/
inductive PoolTag where
  | utf8 | integer | float | long | double | classRef | string | fieldRef | methodRef
  | interfaceMethodRef | nameAndType | methodHandle | methodType | dynamic | invokeDynamic
  | moduleRef | packageRef
  deriving DecidableEq, Inhabited

namespace PoolTag

/-- Every kind, by rising tag byte. -/
def all : List PoolTag :=
  [.utf8, .integer, .float, .long, .double, .classRef, .string, .fieldRef, .methodRef,
   .interfaceMethodRef, .nameAndType, .methodHandle, .methodType, .dynamic, .invokeDynamic,
   .moduleRef, .packageRef]

/-- The byte that starts an entry of the kind. -/
def code : PoolTag → UInt8
  | .utf8 => 1
  | .integer => 3
  | .float => 4
  | .long => 5
  | .double => 6
  | .classRef => 7
  | .string => 8
  | .fieldRef => 9
  | .methodRef => 10
  | .interfaceMethodRef => 11
  | .nameAndType => 12
  | .methodHandle => 15
  | .methodType => 16
  | .dynamic => 17
  | .invokeDynamic => 18
  | .moduleRef => 19
  | .packageRef => 20

/-- The name of the kind in messages. -/
def name : PoolTag → String
  | .utf8 => "Utf8"
  | .integer => "Integer"
  | .float => "Float"
  | .long => "Long"
  | .double => "Double"
  | .classRef => "Class"
  | .string => "String"
  | .fieldRef => "FieldRef"
  | .methodRef => "MethodRef"
  | .interfaceMethodRef => "InterfaceMethodRef"
  | .nameAndType => "NameAndType"
  | .methodHandle => "MethodHandle"
  | .methodType => "MethodType"
  | .dynamic => "Dynamic"
  | .invokeDynamic => "InvokeDynamic"
  | .moduleRef => "Module"
  | .packageRef => "Package"

/-- The kind that a tag byte stands for. -/
def ofCode? (byte : UInt8) : Option PoolTag :=
  all.find? fun tag => tag.code == byte

/-- Whether an entry of the kind takes two places of the pool. -/
def isWide (tag : PoolTag) : Bool :=
  tag == .long || tag == .double

/-- The length of the entry body behind the tag byte, none for a text, which tells it itself. -/
def bodySize? : PoolTag → Option Nat
  | .utf8 => none
  | .classRef | .methodType | .moduleRef | .string | .packageRef => some 2
  | .methodHandle => some 3
  | .long | .double => some 8
  | .integer | .float | .fieldRef | .methodRef | .interfaceMethodRef | .nameAndType | .dynamic
  | .invokeDynamic => some 4

end PoolTag

/-- What a method handle does when it is invoked. -/
inductive HandleKind where
  | getField | getStatic | putField | putStatic | invokeVirtual | invokeStatic | invokeSpecial
  | newInvokeSpecial | invokeInterface
  deriving DecidableEq, Inhabited

namespace HandleKind

/-- Every kind, by rising number. -/
def all : List HandleKind :=
  [.getField, .getStatic, .putField, .putStatic, .invokeVirtual, .invokeStatic, .invokeSpecial,
   .newInvokeSpecial, .invokeInterface]

/-- The number of the kind. -/
def code : HandleKind → UInt8
  | .getField => 1
  | .getStatic => 2
  | .putField => 3
  | .putStatic => 4
  | .invokeVirtual => 5
  | .invokeStatic => 6
  | .invokeSpecial => 7
  | .newInvokeSpecial => 8
  | .invokeInterface => 9

/-- The name of the kind. -/
def name : HandleKind → String
  | .getField => "GetField"
  | .getStatic => "GetStatic"
  | .putField => "PutField"
  | .putStatic => "PutStatic"
  | .invokeVirtual => "InvokeVirtual"
  | .invokeStatic => "InvokeStatic"
  | .invokeSpecial => "InvokeSpecial"
  | .newInvokeSpecial => "NewInvokeSpecial"
  | .invokeInterface => "InvokeInterface"

/-- The kind with a given number. -/
def ofCode? (byte : UInt8) : Option HandleKind :=
  all.find? fun kind => kind.code == byte

/-- Whether the handle refers to a field. -/
def isField (kind : HandleKind) : Bool :=
  decide (kind.code ≤ HandleKind.putStatic.code)

end HandleKind

/-- A name together with a descriptor. -/
structure NameAndType where
  name : Text
  descriptor : Text
  deriving DecidableEq, Inhabited

/-- A field or a method of a class. -/
structure MemberRef where
  owner : Text
  name : Text
  descriptor : Text
  deriving DecidableEq, Inhabited

/-- A method handle: a member and what to do with it. -/
structure Handle where
  kind : HandleKind
  owner : Text
  name : Text
  descriptor : Text
  isInterface : Bool
  deriving DecidableEq, Inhabited

/-- A constant that an instruction can load and that a bootstrap method can take as an argument.  A
class is named by its internal name or, for arrays, by a descriptor. -/
inductive Constant where
  | integer (value : Int32)
  | float (bits : UInt32)
  | long (value : Int64)
  | double (bits : UInt64)
  | string (value : Text)
  | classRef (name : Text)
  | methodType (descriptor : Text)
  | handle (value : Handle)
  | dynamic (name descriptor : Text) (bootstrap : Handle) (arguments : List Constant)
  deriving Inhabited

namespace Constant

/-- Whether a linker computes the constant by calling a bootstrap method. -/
def isDynamic : Constant → Bool
  | .dynamic .. => true
  | _ => false

/-- Whether a value of a field type takes two stack slots. -/
def isWideDescriptor (descriptor : Text) : Bool :=
  descriptor.bytes == "J".toUTF8.data.toList || descriptor.bytes == "D".toUTF8.data.toList

/-- Whether the constant takes two stack slots. -/
def isWide : Constant → Bool
  | .long _ | .double _ => true
  | .dynamic _ descriptor _ _ => isWideDescriptor descriptor
  | _ => false

end Constant

/-- The value that a static field starts with. -/
inductive FieldValue where
  | integer (value : Int32)
  | float (bits : UInt32)
  | long (value : Int64)
  | double (bits : UInt64)
  | string (value : Text)
  deriving DecidableEq, Inhabited

/-- A value of an annotation element that is neither an enumeration constant, an annotation nor an
array.  A class is named by its field descriptor. -/
inductive AnnotationConstant where
  | byte (value : Int8)
  | char (value : UInt16)
  | double (bits : UInt64)
  | float (bits : UInt32)
  | int (value : Int32)
  | long (value : Int64)
  | short (value : Int16)
  | boolean (value : Bool)
  | string (value : Text)
  | classRef (descriptor : Text)
  deriving DecidableEq, Inhabited

end ClassFile
