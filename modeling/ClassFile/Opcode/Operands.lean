import ClassFile.Opcode

/-!
# Operand layouts

What follows an instruction byte in a code array is known from the byte alone: `Layout.ofByte?`
gives it, `Layout.size?` is the length of the instruction where the length depends on nothing else.
Two families of bytes only shorten other instructions and are undone here: a load or store with the
variable index inside the byte (`expandImplicitVariable`, `implicitVariableByte?`) and the prefix
byte that widens a variable index.
-/

namespace ClassFile

/-- How the operands of an instruction are laid out behind its opcode byte. -/
inductive Layout where
  | noOperand | bytePush | shortPush | newArray | loadConstant | loadConstantWide
  | loadConstantTwoSlot | variable | implicitVariable | increment | jump | jumpWide | tableSwitch
  | lookupSwitch | field | method | invokeInterface | invokeDynamic | type | multiArray | wide
  deriving DecidableEq, Inhabited

namespace Layout

/-- The byte of `ldc_w`. -/
def ldcWide : UInt8 := 19

/-- The byte of `ldc2_w`. -/
def ldcTwoSlot : UInt8 := 20

/-- The byte of `iload_0`, the first load with the variable index inside the byte. -/
def firstImplicitLoad : UInt8 := 26

/-- The byte of `istore_0`, the first store with the variable index inside the byte. -/
def firstImplicitStore : UInt8 := 59

/-- The byte before an instruction whose variable index takes two bytes. -/
def widePrefix : UInt8 := 196

/-- The byte of `goto_w`. -/
def gotoWide : UInt8 := 200

/-- The byte of `jsr_w`. -/
def jsrWide : UInt8 := 201

/-- The layout behind a byte, none if the byte starts no instruction. -/
def ofByte? (byte : UInt8) : Option Layout :=
  if byte ≤ 15 then some .noOperand
  else if byte = 16 then some .bytePush
  else if byte = 17 then some .shortPush
  else if byte = 18 then some .loadConstant
  else if byte = 19 then some .loadConstantWide
  else if byte = 20 then some .loadConstantTwoSlot
  else if byte ≤ 25 then some .variable
  else if byte ≤ 45 then some .implicitVariable
  else if byte ≤ 53 then some .noOperand
  else if byte ≤ 58 then some .variable
  else if byte ≤ 78 then some .implicitVariable
  else if byte ≤ 131 then some .noOperand
  else if byte = 132 then some .increment
  else if byte ≤ 152 then some .noOperand
  else if byte ≤ 168 then some .jump
  else if byte = 169 then some .variable
  else if byte = 170 then some .tableSwitch
  else if byte = 171 then some .lookupSwitch
  else if byte ≤ 177 then some .noOperand
  else if byte ≤ 181 then some .field
  else if byte ≤ 184 then some .method
  else if byte = 185 then some .invokeInterface
  else if byte = 186 then some .invokeDynamic
  else if byte = 187 then some .type
  else if byte = 188 then some .newArray
  else if byte = 189 then some .type
  else if byte ≤ 191 then some .noOperand
  else if byte ≤ 193 then some .type
  else if byte ≤ 195 then some .noOperand
  else if byte = 196 then some .wide
  else if byte = 197 then some .multiArray
  else if byte ≤ 199 then some .jump
  else if byte ≤ 201 then some .jumpWide
  else none

/-- The length of an instruction, opcode byte included, if the layout alone fixes it. -/
def size? : Layout → Option Nat
  | .noOperand | .implicitVariable => some 1
  | .bytePush | .newArray | .loadConstant | .variable => some 2
  | .shortPush | .loadConstantWide | .loadConstantTwoSlot | .increment | .jump | .field | .method
  | .type => some 3
  | .multiArray => some 4
  | .jumpWide | .invokeInterface | .invokeDynamic => some 5
  | .tableSwitch | .lookupSwitch | .wide => none

/-- The bytes between the opcode of a switch at `position` and its operands, which are aligned to
four bytes from the start of the code. -/
def switchPadding (position : Nat) : Nat :=
  (4 - (position + 1) % 4) % 4

/-- The load or store that a byte with the variable index inside stands for, and that index. -/
def expandImplicitVariable (byte : UInt8) : UInt8 × UInt16 :=
  if firstImplicitStore ≤ byte then
    let relative := byte - firstImplicitStore
    (Opcode.istore.code + relative / 4, (relative % 4).toUInt16)
  else
    let relative := byte - firstImplicitLoad
    (Opcode.iload.code + relative / 4, (relative % 4).toUInt16)

/-- The one-byte form of a load or store of variable `index`, if it has one. -/
def implicitVariableByte? (opcode : Opcode) (index : UInt16) : Option UInt8 :=
  let byte := opcode.code
  if 3 < index then none
  else if 21 ≤ byte ∧ byte ≤ 25 then
    some (firstImplicitLoad + (byte - Opcode.iload.code) * 4 + index.toUInt8)
  else if 54 ≤ byte ∧ byte ≤ 58 then
    some (firstImplicitStore + (byte - Opcode.istore.code) * 4 + index.toUInt8)
  else none

end Layout

namespace Opcode

/-- The layout of the operands of an opcode. -/
def layout (opcode : Opcode) : Layout :=
  (Layout.ofByte? opcode.code).getD .noOperand

end Opcode

end ClassFile
