import ClassFile.Error

/-!
# Descriptors

A field descriptor spells a type: one letter for a primitive type, `L` name `;` for a class, `[` in
front for an array.  A method descriptor spells the argument types between parentheses and then the
type of the result.

Everything here takes any bytes at all.  What is no descriptor gets the size that the same scan
gives: a type is the brackets in front and either one byte or, after `L`, the bytes up to the next
semicolon.
-/

namespace ClassFile

namespace Ascii

/-- `(` -/
def openParen : UInt8 := 40

/-- `)` -/
def closeParen : UInt8 := 41

/-- `*` -/
def star : UInt8 := 42

/-- `+` -/
def plus : UInt8 := 43

/-- `-` -/
def minus : UInt8 := 45

/-- `.` -/
def dot : UInt8 := 46

/-- `:` -/
def colon : UInt8 := 58

/-- `;` -/
def semicolon : UInt8 := 59

/-- `<` -/
def less : UInt8 := 60

/-- `>` -/
def greater : UInt8 := 62

/-- `D` -/
def upperD : UInt8 := 68

/-- `J` -/
def upperJ : UInt8 := 74

/-- `L` -/
def upperL : UInt8 := 76

/-- `T` -/
def upperT : UInt8 := 84

/-- `V` -/
def upperV : UInt8 := 86

/-- `[` -/
def openBracket : UInt8 := 91

/-- `^` -/
def caret : UInt8 := 94

end Ascii

namespace Descriptor

/-- What follows the next semicolon. -/
def afterSemicolon : List UInt8 → List UInt8
  | [] => []
  | byte :: rest => if byte = Ascii.semicolon then rest else afterSemicolon rest

/-- What follows the type at the front. -/
def afterType : List UInt8 → List UInt8
  | [] => []
  | byte :: rest =>
      if byte = Ascii.openBracket then afterType rest
      else if byte = Ascii.upperL then afterSemicolon rest
      else rest

theorem length_afterSemicolon_le (bytes : List UInt8) :
    (afterSemicolon bytes).length ≤ bytes.length := by
  induction bytes with
  | nil => simp [afterSemicolon]
  | cons byte rest hypothesis =>
      rw [afterSemicolon]
      split
      · simp
      · exact Nat.le_succ_of_le hypothesis

theorem length_afterType_lt (byte : UInt8) (rest : List UInt8) :
    (afterType (byte :: rest)).length < rest.length + 1 := by
  induction rest generalizing byte with
  | nil =>
      rw [afterType]
      split
      · simp [afterType]
      · split <;> simp [afterSemicolon]
  | cons next rest hypothesis =>
      rw [afterType]
      split
      · exact Nat.lt_succ_of_lt (hypothesis next)
      · split
        · exact Nat.lt_succ_of_le (length_afterSemicolon_le _)
        · simp

/-- The slots that a value takes whose descriptor starts with the given byte: none for `void` or
for an empty descriptor. -/
def slotsOf : Option UInt8 → Nat
  | none => 0
  | some byte =>
      if byte = Ascii.upperV then 0
      else if byte = Ascii.upperJ ∨ byte = Ascii.upperD then 2
      else 1

/-- The slots of a value of a field type. -/
def fieldSlots (descriptor : Text) : Nat :=
  slotsOf descriptor.bytes.head?

/-- Folds over the first bytes of the types at the front, up to a closing parenthesis or the end. -/
def foldTypes {α : Type} (step : α → UInt8 → α) (state : α) (bytes : List UInt8) : α :=
  match bytes with
  | [] => state
  | byte :: rest =>
      if byte = Ascii.closeParen then state
      else foldTypes step (step state byte) (afterType (byte :: rest))
termination_by bytes.length
decreasing_by exact length_afterType_lt byte rest

/-- A method descriptor without the parenthesis in front. -/
def withoutParen : List UInt8 → List UInt8
  | [] => []
  | byte :: rest => if byte = Ascii.openParen then rest else byte :: rest

/-- Folds over the first bytes of the argument types of a method descriptor. -/
def foldArguments {α : Type} (step : α → UInt8 → α) (state : α) (descriptor : Text) : α :=
  foldTypes step state (withoutParen descriptor.bytes)

/-- The number of arguments of a method descriptor. -/
def argumentCount (descriptor : Text) : Nat :=
  foldArguments (fun count _ => count + 1) 0 descriptor

/-- The slots of the arguments of a method descriptor, without the receiver. -/
def argumentSlotTotal (descriptor : Text) : Nat :=
  foldArguments (fun slots byte => slots + slotsOf (some byte)) 0 descriptor

/-- The slots of the arguments of a method descriptor in two bytes.  No caller may ask for a
descriptor whose slots exceed them. -/
def argumentSlots (descriptor : Text) : Except Fault UInt16 :=
  let total := argumentSlotTotal descriptor
  if total ≤ 65535 then .ok total.toUInt16 else .error (.panic .overflow)

/-- What follows the last closing parenthesis, `found` if there is none. -/
def afterLastParen (found : Option (List UInt8)) : List UInt8 → Option (List UInt8)
  | [] => found
  | byte :: rest =>
      afterLastParen (if byte = Ascii.closeParen then some rest else found) rest

/-- The slots of the result of a method descriptor. -/
def returnSlots (descriptor : Text) : Nat :=
  match afterLastParen none descriptor.bytes with
  | some rest => slotsOf rest.head?
  | none => 0

end Descriptor

end ClassFile
