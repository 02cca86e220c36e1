import ClassFile.Proofs.Descriptors.Renaming
import ClassFile.Proofs.Descriptors.Types

/-!
# The grammar of signatures

Generic signatures of classes, methods and fields, as types with a spelling.  The spelling keeps the
names of outer classes apart from the bytes around them (`Signature.pieces`), so that the same signature
can be spelled with other names; the names of inner classes, of type variables and of type parameters
are bytes like others.

The grammar leaves one thing open that a reader can't decide: behind an empty class bound the next type
parameter could be read as a bound.  So an empty class bound is one that interface bounds follow.
-/

namespace ClassFile

open Descriptor

/-- `/` -/
def Ascii.slash : UInt8 := 47

/-- The bytes that can't stand in an identifier. -/
def Identifier.reserved : List UInt8 :=
  [Ascii.dot, Ascii.semicolon, Ascii.openBracket, Ascii.slash, Ascii.less, Ascii.greater, Ascii.colon]

/-- An identifier of a signature. -/
structure Identifier where
  bytes : List UInt8
  isNonempty : bytes ≠ []
  isPlain : ∀ byte ∈ bytes, byte ∉ Identifier.reserved

/-- The name of an outer class: the packages around it, from the outside in, and its own name. -/
structure QualifiedName where
  packages : List Identifier
  simple : Identifier

/-- The spelling of a name. -/
def QualifiedName.text (name : QualifiedName) : Text :=
  ⟨name.packages.flatMap (fun package => package.bytes ++ [Ascii.slash]) ++ name.simple.bytes⟩

/-- How a type argument bounds a type: it is the type itself, or some type below or above it. -/
inductive Wildcard where
  | exactly | below | above
  deriving DecidableEq, Inhabited

/-- The spelling of a bound. -/
def Wildcard.bytes : Wildcard → List UInt8
  | .exactly => []
  | .below => [Ascii.plus]
  | .above => [Ascii.minus]

mutual

/-- A type that is no primitive type. -/
inductive ReferenceType where
  | typeVariable (name : Identifier)
  | object (type : ClassType)
  | primitiveArray (element : PrimitiveType)
  | array (element : ReferenceType)

/-- A class: the outermost one and the classes inside it, each with its type arguments. -/
inductive ClassType where
  | mk (name : QualifiedName) (arguments : TypeArguments) (inner : InnerTypes)

/-- The type arguments of a class, if there are any. -/
inductive TypeArguments where
  | nil
  | any (rest : TypeArguments)
  | cons (wildcard : Wildcard) (type : ReferenceType) (rest : TypeArguments)

/-- The classes inside a class, from the outside in. -/
inductive InnerTypes where
  | nil
  | cons (name : Identifier) (arguments : TypeArguments) (rest : InnerTypes)

end

namespace Descriptor

/-- Bytes that are no class name. -/
def ofBytes (bytes : List UInt8) : List Piece :=
  bytes.map .byte

/-- What stands between angle brackets, which are left out around nothing. -/
def inBrackets : List Piece → List Piece
  | [] => []
  | piece :: rest => .byte Ascii.less :: (piece :: rest ++ [.byte Ascii.greater])

end Descriptor

mutual

/-- The spelling of a type. -/
def ReferenceType.pieces : ReferenceType → List Piece
  | .typeVariable name => .byte Ascii.upperT :: (ofBytes name.bytes ++ [.byte Ascii.semicolon])
  | .object type => type.pieces
  | .primitiveArray element => [.byte Ascii.openBracket, .byte element.letter]
  | .array element => .byte Ascii.openBracket :: element.pieces

/-- The spelling of a class. -/
def ClassType.pieces : ClassType → List Piece
  | .mk name arguments inner =>
      .byte Ascii.upperL :: .className name.text ::
        (inBrackets arguments.pieces ++ (inner.pieces ++ [.byte Ascii.semicolon]))

/-- The spelling of type arguments, without the brackets around them. -/
def TypeArguments.pieces : TypeArguments → List Piece
  | .nil => []
  | .any rest => .byte Ascii.star :: rest.pieces
  | .cons wildcard type rest => ofBytes wildcard.bytes ++ (type.pieces ++ rest.pieces)

/-- The spelling of inner classes. -/
def InnerTypes.pieces : InnerTypes → List Piece
  | .nil => []
  | .cons name arguments rest =>
      .byte Ascii.dot :: (ofBytes name.bytes ++ (inBrackets arguments.pieces ++ rest.pieces))

end

/-- A type of fields, arguments and results. -/
inductive JavaType where
  | primitive (type : PrimitiveType)
  | reference (type : ReferenceType)

/-- The spelling of a type. -/
def JavaType.pieces : JavaType → List Piece
  | .primitive type => [.byte type.letter]
  | .reference type => type.pieces

/-- A type parameter with the class and the interfaces that bound it. -/
structure TypeParameter where
  name : Identifier
  classBound? : Option ReferenceType
  interfaceBounds : List ReferenceType
  isBounded : classBound? = none → interfaceBounds ≠ []

/-- The spelling of types, each behind a sign. -/
def Descriptor.eachBehind (sign : UInt8) (types : List ReferenceType) : List Piece :=
  types.flatMap fun type => .byte sign :: type.pieces

namespace TypeParameter

/-- The spelling of the bounds of a type parameter. -/
def boundPieces (parameter : TypeParameter) : List Piece :=
  match parameter.classBound? with
  | none => .byte Ascii.colon :: eachBehind Ascii.colon parameter.interfaceBounds
  | some type => eachBehind Ascii.colon (type :: parameter.interfaceBounds)

/-- The spelling of a type parameter. -/
def pieces (parameter : TypeParameter) : List Piece :=
  ofBytes parameter.name.bytes ++ parameter.boundPieces

end TypeParameter

/-- A type of exceptions. -/
inductive ThrownType where
  | object (type : ClassType)
  | typeVariable (name : Identifier)

/-- A type of exceptions as a type. -/
def ThrownType.type : ThrownType → ReferenceType
  | .object type => .object type
  | .typeVariable name => .typeVariable name

/-- A generic signature.  A method may give back nothing. -/
inductive Signature where
  | ofClass (parameters : List TypeParameter) (superclass : ClassType) (interfaces : List ClassType)
  | ofMethod (parameters : List TypeParameter) (arguments : List JavaType) (result? : Option JavaType)
      (thrown : List ThrownType)
  | ofField (type : ReferenceType)

namespace Signature

/-- The spelling of type parameters, with the brackets around them. -/
def parameterPieces (parameters : List TypeParameter) : List Piece :=
  inBrackets (parameters.flatMap TypeParameter.pieces)

/-- The spelling of what a method gives back. -/
def resultPieces (result? : Option JavaType) : List Piece :=
  result?.elim [.byte Ascii.upperV] JavaType.pieces

/-- The spelling of the exceptions of a method. -/
def thrownPieces (thrown : List ThrownType) : List Piece :=
  eachBehind Ascii.caret (thrown.map ThrownType.type)

/-- The spelling of a signature. -/
def pieces : Signature → List Piece
  | .ofClass parameters superclass interfaces =>
      parameterPieces parameters ++ (superclass :: interfaces).flatMap ClassType.pieces
  | .ofMethod parameters arguments result? thrown =>
      parameterPieces parameters ++ .byte Ascii.openParen ::
        (arguments.flatMap JavaType.pieces ++ .byte Ascii.closeParen ::
          (resultPieces result? ++ thrownPieces thrown))
  | .ofField type => type.pieces

/-- The text of a signature in which each outer class is named as given. -/
def textWith (spell : Text → Text) (signature : Signature) : Text :=
  spelling spell signature.pieces

/-- The text of a signature. -/
def text (signature : Signature) : Text :=
  signature.textWith id

/-- The names of the outer classes, in order. -/
def outerNames (signature : Signature) : List Text :=
  namesIn signature.pieces

end Signature

end ClassFile
