/-!
# Hexadecimal text

Bytes as text, two lowercase digits a byte, where a long run of equal bytes is written once with its
length: `cafe(00*20)01`.  `Hex.encode` folds every maximal run of sixteen or more, `Hex.decode?`
reads runs of any length.
-/

namespace ClassFile

namespace Hex

/-- The digit for a value below sixteen. -/
def digit (value : Nat) : Char :=
  Char.ofNat (if value < 10 then '0'.toNat + value else 'a'.toNat + (value - 10))

/-- The value of a digit. -/
def value? (character : Char) : Option Nat :=
  if '0' ≤ character ∧ character ≤ '9' then some (character.toNat - '0'.toNat)
  else if 'a' ≤ character ∧ character ≤ 'f' then some (character.toNat - 'a'.toNat + 10)
  else none

/-- The last `width` digits of a number. -/
def number (value : Nat) : (width : Nat) → List Char
  | 0 => []
  | width + 1 => number (value / 16) width ++ [digit (value % 16)]

/-- The number that digits stand for. -/
def number? (digits : List Char) : Option Nat :=
  digits.foldlM (fun value character => (value? character).map (value * 16 + ·)) 0

/-- The digits of a byte. -/
def byte (value : UInt8) : List Char :=
  number value.toNat 2

/-- The byte that two digits stand for. -/
def byte? (high low : Char) : Option UInt8 := do
  return ((← value? high) * 16 + (← value? low)).toUInt8

/-- The length from which a run is folded. -/
def foldedRun : Nat := 16

/-- The text of a run of `count` equal bytes. -/
def run (value : UInt8) (count : Nat) : List Char :=
  if foldedRun ≤ count then '(' :: byte value ++ '*' :: (Nat.toDigits 10 count ++ [')'])
  else (List.replicate count (byte value)).flatten

/-- The text of bytes. -/
def encode (bytes : List UInt8) : List Char :=
  (bytes.splitBy (· == ·)).flatMap fun group => run (group.headD 0) group.length

/-- The number that decimal digits stand for. -/
def decimal (digits : List Char) : Nat :=
  digits.foldl (fun value character => value * 10 + (character.toNat - '0'.toNat)) 0

theorem length_dropWhile_le {α : Type} (test : α → Bool) (items : List α) :
    (items.dropWhile test).length ≤ items.length :=
  (List.dropWhile_suffix test).length_le

/-- Reads bytes behind those of `found`. -/
def decodeFrom (found : Array UInt8) : List Char → Option (List UInt8)
  | [] => some found.toList
  | '(' :: high :: low :: '*' :: rest =>
      match byte? high low, _rest : rest.dropWhile Char.isDigit with
      | some value, ')' :: next =>
          decodeFrom (found ++ Array.replicate (decimal (rest.takeWhile Char.isDigit)) value) next
      | _, _ => none
  | high :: low :: rest =>
      match byte? high low with
      | some value => decodeFrom (found.push value) rest
      | none => none
  | [_] => none
termination_by text => text.length
decreasing_by
  · have bound := length_dropWhile_le Char.isDigit rest
    simp_all only [List.length_cons]
    omega
  · simp only [List.length_cons]
    omega

/-- The bytes that a text stands for, none if it is not of the form. -/
def decode? (text : List Char) : Option (List UInt8) :=
  decodeFrom #[] text

end Hex

end ClassFile
