import ClassFile.Descriptor
import Mathlib.Algebra.Ring.Nat
import Mathlib.Data.Bool.AllAny
import Mathlib.Data.List.Basic
import Mathlib.Tactic.Common

/-!
# Types that descriptors spell

A `FieldType` is a type as the grammar of descriptors has it, a `MethodType` what a method takes and
gives back.  Both have a spelling, and here stands what the scans of `ClassFile.Descriptor` find in a
spelled descriptor (`MethodType.measured`).

The name of a class may hold every byte that does not end or nest a type, so also parentheses and the
letters of the primitive types.  The scan of the arguments passes over names as a whole.  The scan for
the result does not: it looks for the last closing parenthesis, and a name in the result may hold one.
-/

namespace ClassFile

/-- The primitive types. -/
inductive PrimitiveType where
  | byte | char | double | float | int | long | short | boolean
  deriving DecidableEq, Inhabited

/-- The letter of a primitive type. -/
def PrimitiveType.letter : PrimitiveType → UInt8
  | .byte => 66
  | .char => 67
  | .double => Ascii.upperD
  | .float => 70
  | .int => 73
  | .long => Ascii.upperJ
  | .short => 83
  | .boolean => 90

/-- A name of a class that may stand in a descriptor. -/
structure ClassName where
  text : Text
  isPlain : ∀ byte ∈ text.bytes,
    byte ≠ Ascii.semicolon ∧ byte ≠ Ascii.openBracket ∧ byte ≠ Ascii.dot

/-- A type of fields and arguments. -/
inductive FieldType where
  | primitive (type : PrimitiveType)
  | object (name : ClassName)
  | array (element : FieldType)

namespace FieldType

/-- The slots that a value of the type takes. -/
def slots : FieldType → Nat
  | .primitive .long | .primitive .double => 2
  | _ => 1

/-- The spelling of a type. -/
def bytes : FieldType → List UInt8
  | .primitive type => [type.letter]
  | .object name => Ascii.upperL :: (name.text.bytes ++ [Ascii.semicolon])
  | .array element => Ascii.openBracket :: element.bytes

/-- A field descriptor. -/
def descriptor (type : FieldType) : Text :=
  ⟨type.bytes⟩

/-- The first byte of the spelling. -/
def first : FieldType → UInt8
  | .primitive type => type.letter
  | .object _ => Ascii.upperL
  | .array _ => Ascii.openBracket

theorem bytes_eq_cons (type : FieldType) : ∃ more, type.bytes = type.first :: more := by
  cases type with
  | primitive type => exact ⟨[], rfl⟩
  | object name => exact ⟨_, rfl⟩
  | array element => exact ⟨_, rfl⟩

/-- The first byte of a type tells its size. -/
theorem slotsOf_first (type : FieldType) : Descriptor.slotsOf (some type.first) = type.slots := by
  cases type with
  | primitive type => cases type <;> rfl
  | object name => rfl
  | array element => rfl

theorem first_ne_closeParen (type : FieldType) : type.first ≠ Ascii.closeParen := by
  cases type with
  | primitive type => cases type <;> decide
  | object name => exact (by decide : Ascii.upperL ≠ Ascii.closeParen)
  | array element => exact (by decide : Ascii.openBracket ≠ Ascii.closeParen)

end FieldType

/-- What a method takes and gives back, nothing if it is `void`. -/
structure MethodType where
  arguments : List FieldType
  result? : Option FieldType

namespace MethodType

/-- The slots of the arguments. -/
def argumentSlots (type : MethodType) : Nat :=
  (type.arguments.map FieldType.slots).sum

/-- The slots of the result. -/
def resultSlots (type : MethodType) : Nat :=
  type.result?.elim 0 FieldType.slots

/-- The spelling of the result. -/
def resultBytes (type : MethodType) : List UInt8 :=
  type.result?.elim [Ascii.upperV] FieldType.bytes

/-- A method descriptor. -/
def descriptor (type : MethodType) : Text :=
  ⟨Ascii.openParen :: (type.arguments.flatMap FieldType.bytes ++
    Ascii.closeParen :: type.resultBytes)⟩

end MethodType

/-! ### Scans of spelled types -/

namespace Descriptor

theorem afterSemicolon_append {name : List UInt8} (plain : ∀ byte ∈ name, byte ≠ Ascii.semicolon)
    (rest : List UInt8) : afterSemicolon (name ++ Ascii.semicolon :: rest) = rest := by
  induction name with
  | nil => rw [List.nil_append, afterSemicolon, if_pos rfl]
  | cons byte name ih =>
      rw [List.forall_mem_cons] at plain
      rw [List.cons_append, afterSemicolon, if_neg plain.1, ih plain.2]

/-- A spelled type is passed over as a whole, brackets and name included. -/
theorem afterType_append (type : FieldType) (rest : List UInt8) :
    afterType (type.bytes ++ rest) = rest := by
  induction type with
  | primitive type => cases type <;> rfl
  | object name =>
      have plain : ∀ byte ∈ name.text.bytes, byte ≠ Ascii.semicolon :=
        fun byte member => (name.isPlain byte member).1
      rw [FieldType.bytes, List.cons_append, afterType, if_neg (by decide), if_pos rfl,
        List.append_assoc, List.singleton_append, afterSemicolon_append plain]
  | array element ih => rw [FieldType.bytes, List.cons_append, afterType, if_pos rfl, ih]

/-- The scan of arguments meets the first byte of each spelled type, and nothing else. -/
theorem foldTypes_spelled {α : Type} (step : α → UInt8 → α) (state : α) (types : List FieldType)
    (rest : List UInt8) :
    foldTypes step state (types.flatMap FieldType.bytes ++ Ascii.closeParen :: rest) =
      (types.map FieldType.first).foldl step state := by
  induction types generalizing state with
  | nil => rw [List.flatMap_nil, List.nil_append, foldTypes, if_pos rfl, List.map_nil, List.foldl_nil]
  | cons type types ih =>
      rcases type.bytes_eq_cons with ⟨more, spelled⟩
      rw [List.flatMap_cons, List.append_assoc, spelled, List.cons_append, foldTypes,
        if_neg type.first_ne_closeParen, ← List.cons_append, ← spelled, afterType_append, ih,
        List.map_cons, List.foldl_cons]

theorem foldArguments_descriptor {α : Type} (step : α → UInt8 → α) (state : α) (type : MethodType) :
    foldArguments step state type.descriptor =
      (type.arguments.map FieldType.first).foldl step state := by
  rw [foldArguments, MethodType.descriptor, withoutParen, if_pos rfl, foldTypes_spelled]

theorem afterLastParen_of_notMem {bytes : List UInt8} (plain : Ascii.closeParen ∉ bytes)
    (found : Option (List UInt8)) : afterLastParen found bytes = found := by
  induction bytes with
  | nil => rfl
  | cons byte rest ih =>
      rw [List.mem_cons, not_or] at plain
      rw [afterLastParen, if_neg (Ne.symm plain.1), ih plain.2]

theorem afterLastParen_append (found : Option (List UInt8)) (front back : List UInt8)
    (plain : Ascii.closeParen ∉ back) :
    afterLastParen found (front ++ Ascii.closeParen :: back) = some back := by
  induction front generalizing found with
  | nil => rw [List.nil_append, afterLastParen, if_pos rfl, afterLastParen_of_notMem plain]
  | cons byte front ih => rw [List.cons_append, afterLastParen, ih]

end Descriptor

/-! ### Sizes -/

open Descriptor

theorem FieldType.fieldSlots_descriptor (type : FieldType) :
    fieldSlots type.descriptor = type.slots := by
  rcases type.bytes_eq_cons with ⟨more, spelled⟩
  rw [fieldSlots, descriptor, spelled, List.head?_cons, slotsOf_first]

namespace MethodType

variable (type : MethodType)

theorem argumentCount_descriptor : argumentCount type.descriptor = type.arguments.length := by
  rw [argumentCount, foldArguments_descriptor]
  simp

theorem argumentSlotTotal_descriptor : argumentSlotTotal type.descriptor = type.argumentSlots := by
  have sum (types : List FieldType) (slots : Nat) :
      (types.map FieldType.first).foldl (fun slots byte => slots + slotsOf (some byte)) slots =
        slots + (types.map FieldType.slots).sum := by
    induction types generalizing slots with
    | nil => rfl
    | cons type types ih =>
        rw [List.map_cons, List.foldl_cons, ih, type.slotsOf_first, List.map_cons, List.sum_cons,
          Nat.add_assoc]
  rw [argumentSlotTotal, foldArguments_descriptor, sum, Nat.zero_add, argumentSlots]

theorem slotsOf_resultBytes : slotsOf type.resultBytes.head? = type.resultSlots := by
  rw [resultBytes, resultSlots]
  cases type.result? with
  | none => rfl
  | some result =>
      rcases result.bytes_eq_cons with ⟨more, spelled⟩
      rw [Option.elim_some, Option.elim_some, spelled, List.head?_cons, result.slotsOf_first]

/-- The scan for the result finds it if no parenthesis stands in its spelling. -/
theorem returnSlots_descriptor (plain : Ascii.closeParen ∉ type.resultBytes) :
    returnSlots type.descriptor = type.resultSlots := by
  rw [returnSlots, descriptor, ← List.cons_append, afterLastParen_append _ _ _ plain]
  exact type.slotsOf_resultBytes

/-- Otherwise it takes what follows the last parenthesis for the result. -/
theorem returnSlots_descriptor_of_paren {front back : List UInt8}
    (spelled : type.resultBytes = front ++ Ascii.closeParen :: back)
    (plain : Ascii.closeParen ∉ back) : returnSlots type.descriptor = slotsOf back.head? := by
  have whole : type.descriptor.bytes =
      (Ascii.openParen :: (type.arguments.flatMap FieldType.bytes ++ Ascii.closeParen :: front)) ++
        Ascii.closeParen :: back := by
    simp [descriptor, spelled]
  rw [returnSlots, whole, afterLastParen_append _ _ _ plain]

/-- The scans of a spelled descriptor count its arguments and their slots, and the slots of a field.
They find the slots of the result if no closing parenthesis stands in the name of a class there, and
otherwise take what follows the last one for the result. -/
theorem measured (type : MethodType) (isSmall : type.argumentSlots ≤ 65535) (field : FieldType) :
    argumentCount type.descriptor = type.arguments.length ∧
      (∃ slots, Descriptor.argumentSlots type.descriptor = .ok slots ∧
        slots.toNat = type.argumentSlots) ∧
      (Ascii.closeParen ∉ type.resultBytes → returnSlots type.descriptor = type.resultSlots) ∧
      (∀ front back, type.resultBytes = front ++ Ascii.closeParen :: back →
        Ascii.closeParen ∉ back → returnSlots type.descriptor = slotsOf back.head?) ∧
      fieldSlots field.descriptor = field.slots := by
  refine ⟨type.argumentCount_descriptor, ⟨type.argumentSlots.toUInt16, ?_, ?_⟩,
    type.returnSlots_descriptor, ?_, field.fieldSlots_descriptor⟩
  · rw [Descriptor.argumentSlots, argumentSlotTotal_descriptor, if_pos isSmall]
  · exact UInt16.toNat_ofNat_of_lt' (Nat.lt_succ_of_le isSmall)
  · intro front back spelled plain
    exact type.returnSlots_descriptor_of_paren spelled plain

/-- The class name `a)J`. -/
def misleading : ClassName where
  text := ⟨[97, Ascii.closeParen, Ascii.upperJ]⟩
  isPlain := List.all_iff_forall_prop.mp (by decide)

/-- A method that takes a number, an object whose class has a parenthesis in its name and an array, and
gives back an array. -/
def sorter : MethodType where
  arguments := [.primitive .long, .object misleading, .array (.array (.primitive .double))]
  result? := some (.array (.primitive .long))

theorem measured_sorter :
    argumentCount sorter.descriptor = 3 ∧
      (∃ slots, Descriptor.argumentSlots sorter.descriptor = .ok slots ∧ slots.toNat = 4) ∧
      returnSlots sorter.descriptor = 1 ∧ fieldSlots (FieldType.primitive .double).descriptor = 2 := by
  rcases sorter.measured (by decide) (.primitive .double) with ⟨count, slots, result, -, field⟩
  exact ⟨count, slots, result (by decide), field⟩

/-- A method without arguments that gives back an object whose class is named `a)J`. -/
def closer : MethodType where
  arguments := []
  result? := some (.object misleading)

/-- An object in the result is taken for a number of two slots. -/
theorem exists_result_misread :
    ∃ type : MethodType, type.argumentSlots ≤ 65535 ∧ type.resultSlots = 1 ∧
      returnSlots type.descriptor = 2 :=
  ⟨closer, by decide, by decide, by decide⟩

end MethodType

end ClassFile
