import ClassFile.Tree.Method

/-!
# Equality of instructions

Two elements of a body are equal when they would do the same and carry the same annotations.
Floating-point constants are compared as numbers: the two zeros are equal, and a bit pattern that is
no number is equal to nothing, not even to itself.
-/

namespace ClassFile

/-- The bit patterns of floating-point numbers of some width. -/
structure FloatShape where
  /-- The pattern of positive infinity, above which there are no numbers. -/
  infinity : Nat
  /-- The weight of the sign bit. -/
  sign : Nat

namespace FloatShape

/-- Numbers of 32 bits. -/
def single : FloatShape := ⟨0x7F800000, 0x80000000⟩

/-- Numbers of 64 bits. -/
def double : FloatShape := ⟨0x7FF0000000000000, 0x8000000000000000⟩

/-- Whether a bit pattern is no number. -/
def isNoNumber (shape : FloatShape) (bits : Nat) : Bool :=
  decide (shape.infinity < bits % shape.sign)

/-- Whether two bit patterns are the same number. -/
def equal (shape : FloatShape) (first second : Nat) : Bool :=
  ! shape.isNoNumber first && ! shape.isNoNumber second &&
    (first == second || (first % shape.sign == 0 && second % shape.sign == 0))

end FloatShape

namespace Constant

mutual

/-- Whether two constants are equal. -/
def equal : Constant → Constant → Bool
  | .integer first, .integer second => first == second
  | .float first, .float second => FloatShape.single.equal first.toNat second.toNat
  | .long first, .long second => first == second
  | .double first, .double second => FloatShape.double.equal first.toNat second.toNat
  | .string first, .string second => first == second
  | .classRef first, .classRef second => first == second
  | .methodType first, .methodType second => first == second
  | .handle first, .handle second => first == second
  | .dynamic name descriptor bootstrap arguments,
      .dynamic name' descriptor' bootstrap' arguments' =>
      name == name' && descriptor == descriptor' && bootstrap == bootstrap' &&
        allEqual arguments arguments'
  | _, _ => false

/-- Whether two lists hold equal constants. -/
def allEqual : List Constant → List Constant → Bool
  | [], [] => true
  | first :: rest, second :: rest' => equal first second && allEqual rest rest'
  | _, _ => false

end

end Constant

/-- Whether two values of annotations are equal. -/
def AnnotationConstant.equal : AnnotationConstant → AnnotationConstant → Bool
  | .float first, .float second => FloatShape.single.equal first.toNat second.toNat
  | .double first, .double second => FloatShape.double.equal first.toNat second.toNat
  | first, second => first == second

namespace Element

mutual

/-- Whether two values of annotations are equal, with what is inside them. -/
def equal : Element → Element → Bool
  | .constant name? value, .constant name'? value' => name? == name'? && value.equal value'
  | .enumeration name? descriptor value, .enumeration name'? descriptor' value' =>
      name? == name'? && descriptor == descriptor' && value == value'
  | .nested name? descriptor elements, .nested name'? descriptor' elements' =>
      name? == name'? && descriptor == descriptor' && allEqual elements elements'
  | .array name? elements, .array name'? elements' =>
      name? == name'? && allEqual elements elements'
  | _, _ => false

/-- Whether two lists hold equal values. -/
def allEqual : List Element → List Element → Bool
  | [], [] => true
  | first :: rest, second :: rest' => equal first second && allEqual rest rest'
  | _, _ => false

end

end Element

/-- Whether two lists have the same length and hold elements that agree place by place. -/
def allAgree {α : Type} (equal : α → α → Bool) : List α → List α → Bool
  | [], [] => true
  | first :: rest, second :: rest' => equal first second && allAgree equal rest rest'
  | _, _ => false

/-- Whether two type annotations are equal. -/
def TypeAnnotationTree.equal (first second : TypeAnnotationTree) : Bool :=
  first.use == second.use && Element.allEqual first.elements second.elements

/-- Whether two elements of a body are equal, without regard to annotations. -/
def Instruction.equal : Instruction → Instruction → Bool
  | .simple opcode, .simple opcode' => opcode == opcode'
  | .int operand, .int operand' => operand == operand'
  | .variable opcode slot, .variable opcode' slot' => opcode == opcode' && slot == slot'
  | .type opcode name, .type opcode' name' => opcode == opcode' && name == name'
  | .field opcode member, .field opcode' member' => opcode == opcode' && member == member'
  | .method opcode member isInterface, .method opcode' member' isInterface' =>
      opcode == opcode' && member == member' && isInterface == isInterface'
  | .invokeDynamic name descriptor bootstrap arguments,
      .invokeDynamic name' descriptor' bootstrap' arguments' =>
      name == name' && descriptor == descriptor' && bootstrap == bootstrap' &&
        Constant.allEqual arguments arguments'
  | .jump opcode target, .jump opcode' target' => opcode == opcode' && target == target'
  | .label place, .label place' => place == place'
  | .loadConstant constant, .loadConstant constant' => constant.equal constant'
  | .increment slot amount, .increment slot' amount' => slot == slot' && amount == amount'
  | .tableSwitch low high default targets, .tableSwitch low' high' default' targets' =>
      low == low' && high == high' && default == default' && targets == targets'
  | .lookupSwitch default cases, .lookupSwitch default' cases' =>
      default == default' && cases == cases'
  | .multiArray descriptor dimensions, .multiArray descriptor' dimensions' =>
      descriptor == descriptor' && dimensions == dimensions'
  | .line number start, .line number' start' => number == number' && start == start'
  | .frame content, .frame content' => content == content'
  | _, _ => false

/-- Whether two elements of a body are equal.  The order of a visible and an invisible annotation
among each other does not matter. -/
def InstructionTree.equal (first second : InstructionTree) : Bool :=
  first.instruction.equal second.instruction &&
    allAgree TypeAnnotationTree.equal (visibleFirst (·.use.visible) first.typeAnnotations)
      (visibleFirst (·.use.visible) second.typeAnnotations)

end ClassFile
