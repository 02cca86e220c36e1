import ClassFile.Bytes.Input
import ClassFile.Bytes.Output

/-!
# Places of type annotations

A type annotation says which use of a type it stands on (`TypeTarget`) and which part of that
type it means (`TypePath`).  In a file some targets also hold a place in the code: the offset of an
instruction or the ranges of a local variable.  That place is a `TargetLocation`, kept apart from
the target, because offsets mean something only next to the code.
-/

namespace ClassFile

/-- The use of a type that an annotation stands on. -/
inductive TypeTarget where
  | classTypeParameter (parameter : UInt8)
  | methodTypeParameter (parameter : UInt8)
  /-- An implemented interface by its position, or the super class. -/
  | classExtends (interface? : Option UInt16)
  | classTypeParameterBound (parameter bound : UInt8)
  | methodTypeParameterBound (parameter bound : UInt8)
  | field
  | methodReturn
  | methodReceiver
  | methodFormalParameter (parameter : UInt8)
  | throws (position : UInt16)
  | localVariable
  | resourceVariable
  | exceptionParameter (block : UInt16)
  | instanceOf
  | newObject
  | constructorReference
  | methodReference
  | cast (argument : UInt8)
  | constructorInvocationArgument (argument : UInt8)
  | methodInvocationArgument (argument : UInt8)
  | constructorReferenceArgument (argument : UInt8)
  | methodReferenceArgument (argument : UInt8)
  deriving DecidableEq, Inhabited

/-- A stretch of code, by its first offset and length, over which a local variable has a slot. -/
structure CodeRange where
  start : UInt16
  length : UInt16
  slot : UInt16
  deriving DecidableEq, Inhabited

/-- The place in the code that belongs to a target. -/
inductive TargetLocation where
  | none
  | offset (place : UInt16)
  | ranges (places : List CodeRange)
  deriving DecidableEq, Inhabited

namespace TargetLocation

/-- The offset of an instruction target, zero for a location that has none. -/
def offsetOrZero : TargetLocation → UInt16
  | .offset place => place
  | _ => 0

/-- The ranges of a variable target, none for a location of another sort. -/
def rangeList : TargetLocation → List CodeRange
  | .ranges places => places
  | _ => []

end TargetLocation

namespace TypeTarget

/-- The index that stands for the super class among the interfaces. -/
def superClassIndex : UInt16 := 0xFFFF

/-- The byte that stands for the sort of target. -/
def code : TypeTarget → UInt8
  | .classTypeParameter _ => 0x00
  | .methodTypeParameter _ => 0x01
  | .classExtends _ => 0x10
  | .classTypeParameterBound .. => 0x11
  | .methodTypeParameterBound .. => 0x12
  | .field => 0x13
  | .methodReturn => 0x14
  | .methodReceiver => 0x15
  | .methodFormalParameter _ => 0x16
  | .throws _ => 0x17
  | .localVariable => 0x40
  | .resourceVariable => 0x41
  | .exceptionParameter _ => 0x42
  | .instanceOf => 0x43
  | .newObject => 0x44
  | .constructorReference => 0x45
  | .methodReference => 0x46
  | .cast _ => 0x47
  | .constructorInvocationArgument _ => 0x48
  | .methodInvocationArgument _ => 0x49
  | .constructorReferenceArgument _ => 0x4A
  | .methodReferenceArgument _ => 0x4B

/-- Whether the target belongs to one instruction. -/
def isInstruction (target : TypeTarget) : Bool :=
  decide (0x43 ≤ target.code) && decide (target.code ≤ 0x4B)

/-- Reads the ranges of a variable target, `count` of them, from `offset` on. -/
def readRanges (input : Input) (offset : Nat) : Nat → Except ClassError (List CodeRange)
  | 0 => .ok []
  | count + 1 => do
      let start ← input.u16 offset
      let length ← input.u16 (offset + 2)
      let slot ← input.u16 (offset + 4)
      let rest ← readRanges input (offset + 6) count
      return ⟨start, length, slot⟩ :: rest

/-- Reads a target of one byte of operand. -/
def readByteTarget (input : Input) (offset : Nat) (target : UInt8 → TypeTarget) :
    Except ClassError (TypeTarget × TargetLocation × Nat) := do
  return (target (← input.u8 offset), .none, offset + 1)

/-- Reads a target of two bytes of operand. -/
def readPairTarget (input : Input) (offset : Nat) (target : UInt8 → UInt8 → TypeTarget) :
    Except ClassError (TypeTarget × TargetLocation × Nat) := do
  return (target (← input.u8 offset) (← input.u8 (offset + 1)), .none, offset + 2)

/-- Reads a target with an index of two bytes. -/
def readIndexTarget (input : Input) (offset : Nat) (target : UInt16 → TypeTarget) :
    Except ClassError (TypeTarget × TargetLocation × Nat) := do
  return (target (← input.u16 offset), .none, offset + 2)

/-- Reads a target that covers the ranges of a variable. -/
def readVariableTarget (input : Input) (offset : Nat) (target : TypeTarget) :
    Except ClassError (TypeTarget × TargetLocation × Nat) := do
  let count ← input.u16 offset
  let ranges ← readRanges input (offset + 2) count.toNat
  return (target, .ranges ranges, offset + 2 + count.toNat * 6)

/-- Reads a target that is an instruction. -/
def readInstructionTarget (input : Input) (offset : Nat) (target : TypeTarget) :
    Except ClassError (TypeTarget × TargetLocation × Nat) := do
  return (target, .offset (← input.u16 offset), offset + 2)

/-- Reads a target that is a type argument of an instruction. -/
def readArgumentTarget (input : Input) (offset : Nat) (target : UInt8 → TypeTarget) :
    Except ClassError (TypeTarget × TargetLocation × Nat) := do
  let argument ← input.u8 (offset + 2)
  return (target argument, .offset (← input.u16 offset), offset + 3)

/-- Reads a target and its location from `offset` on, and gives the offset behind them. -/
def read (input : Input) (offset : Nat) :
    Except ClassError (TypeTarget × TargetLocation × Nat) := do
  let byte ← input.u8 offset
  let operands := offset + 1
  match byte with
  | 0x00 => readByteTarget input operands .classTypeParameter
  | 0x01 => readByteTarget input operands .methodTypeParameter
  | 0x10 =>
      readIndexTarget input operands fun index =>
        .classExtends (if index = superClassIndex then none else some index)
  | 0x11 => readPairTarget input operands .classTypeParameterBound
  | 0x12 => readPairTarget input operands .methodTypeParameterBound
  | 0x13 => return (.field, .none, operands)
  | 0x14 => return (.methodReturn, .none, operands)
  | 0x15 => return (.methodReceiver, .none, operands)
  | 0x16 => readByteTarget input operands .methodFormalParameter
  | 0x17 => readIndexTarget input operands .throws
  | 0x40 => readVariableTarget input operands .localVariable
  | 0x41 => readVariableTarget input operands .resourceVariable
  | 0x42 => readIndexTarget input operands .exceptionParameter
  | 0x43 => readInstructionTarget input operands .instanceOf
  | 0x44 => readInstructionTarget input operands .newObject
  | 0x45 => readInstructionTarget input operands .constructorReference
  | 0x46 => readInstructionTarget input operands .methodReference
  | 0x47 => readArgumentTarget input operands .cast
  | 0x48 => readArgumentTarget input operands .constructorInvocationArgument
  | 0x49 => readArgumentTarget input operands .methodInvocationArgument
  | 0x4A => readArgumentTarget input operands .constructorReferenceArgument
  | 0x4B => readArgumentTarget input operands .methodReferenceArgument
  | _ => throw (.badTypeTarget byte offset)

/-- Appends the ranges of a variable. -/
def writeRanges (output : Output) (ranges : List CodeRange) : Output :=
  ranges.foldl (fun output range => ((output.u16 range.start).u16 range.length).u16 range.slot)
    output

/-- Appends a target with the location that belongs to it.  A location of the wrong sort counts as
offset zero or as no ranges; of the number of ranges only the low two bytes are written. -/
def write (target : TypeTarget) (location : TargetLocation) (output : Output) : Output :=
  let output := output.u8 target.code
  match target with
  | .classTypeParameter parameter | .methodTypeParameter parameter
  | .methodFormalParameter parameter => output.u8 parameter
  | .classExtends interface? => output.u16 (interface?.getD superClassIndex)
  | .classTypeParameterBound parameter bound | .methodTypeParameterBound parameter bound =>
      (output.u8 parameter).u8 bound
  | .field | .methodReturn | .methodReceiver => output
  | .throws position => output.u16 position
  | .exceptionParameter block => output.u16 block
  | .localVariable | .resourceVariable =>
      writeRanges (output.u16 location.rangeList.length.toUInt16) location.rangeList
  | .instanceOf | .newObject | .constructorReference | .methodReference =>
      output.u16 location.offsetOrZero
  | .cast argument | .constructorInvocationArgument argument | .methodInvocationArgument argument
  | .constructorReferenceArgument argument | .methodReferenceArgument argument =>
      (output.u16 location.offsetOrZero).u8 argument

end TypeTarget

/-- One step from a type to a part of it. -/
inductive TypeStep where
  | arrayElement
  | innerType
  | wildcardBound
  | typeArgument (position : UInt8)
  deriving DecidableEq, Inhabited

namespace TypeStep

/-- The two bytes of a step. -/
def pair : TypeStep → UInt8 × UInt8
  | .arrayElement => (0, 0)
  | .innerType => (1, 0)
  | .wildcardBound => (2, 0)
  | .typeArgument position => (3, position)

/-- The step that two bytes stand for. -/
def ofPair (bytes : UInt8 × UInt8) : TypeStep :=
  if bytes.1 = 0 then .arrayElement
  else if bytes.1 = 1 then .innerType
  else if bytes.1 = 2 then .wildcardBound
  else .typeArgument bytes.2

/-- The spelling of a step. -/
def spelling : TypeStep → String
  | .arrayElement => "["
  | .innerType => "."
  | .wildcardBound => "*"
  | .typeArgument position => toString position.toNat ++ ";"

end TypeStep

/-- The way from a type to the part of it that is annotated.  A path keeps the two bytes of every
step as they stand in the file. -/
structure TypePath where
  pairs : List (UInt8 × UInt8)
  deriving DecidableEq, Inhabited

namespace TypePath

/-- The path with the given steps. -/
def ofSteps (steps : List TypeStep) : TypePath :=
  ⟨steps.map TypeStep.pair⟩

/-- The steps of a path. -/
def steps (path : TypePath) : List TypeStep :=
  path.pairs.map TypeStep.ofPair

/-- The number of steps. -/
def length (path : TypePath) : Nat :=
  path.pairs.length

/-- Whether the path has no step. -/
def isEmpty (path : TypePath) : Bool :=
  path.pairs.isEmpty

/-- The spelling of the path between double quotes. -/
def quoted (path : TypePath) : String :=
  "\"" ++ String.join (path.steps.map TypeStep.spelling) ++ "\""

/-- Groups bytes into pairs, and drops a last one that is alone. -/
def pairUp : List UInt8 → List (UInt8 × UInt8)
  | first :: second :: rest => (first, second) :: pairUp rest
  | _ => []

/-- Reads a path from `offset` on, and gives the offset behind it. -/
def read (input : Input) (offset : Nat) : Except ClassError (TypePath × Nat) := do
  let count ← input.u8 offset
  let bytes ← input.bytes (offset + 1) (count.toNat * 2)
  return (⟨pairUp bytes⟩, offset + 1 + count.toNat * 2)

/-- Appends the path; of the number of its steps only the low byte is written. -/
def write (path : TypePath) (output : Output) : Output :=
  path.pairs.foldl (fun output pair => (output.u8 pair.1).u8 pair.2)
    (output.u8 path.length.toUInt8)

end TypePath

end ClassFile
