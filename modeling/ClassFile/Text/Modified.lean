import ClassFile.Text

/-!
# Modified UTF-8

A text is stored in a class file in a form of UTF-8 that has no zero byte and no four-byte sequence:
U+0000 takes the two bytes `C0 80`, and a code point above U+FFFF is written as its two surrogates,
three bytes each.  Readers also meet files whose texts are in plain UTF-8, so `Text.decode` takes
bytes that are valid UTF-8 as they are and reads only the others as modified UTF-8.

`Text.encode` writes the stored form of a text.
-/

namespace ClassFile

namespace Text

/-- Why bytes are no text: a sequence that starts at `index` is wrong after `length` bytes, or the
bytes end inside it. -/
inductive DecodingError where
  | invalid (length index : Nat)
  | incomplete (index : Nat)
  deriving DecidableEq, Inhabited

namespace DecodingError

/-- The wording of a decoding error. -/
def message : DecodingError → String
  | .invalid length index =>
      "invalid utf-8 sequence of " ++ toString length ++ " bytes from index " ++ toString index
  | .incomplete index => "incomplete utf-8 byte sequence from index " ++ toString index

end DecodingError

/-- Whether a byte can stand inside a sequence but not at its start. -/
def isContinuation (byte : UInt8) : Bool :=
  decide (0x80 ≤ byte) && decide (byte ≤ 0xBF)

/-- Whether a byte can follow `first` in a sequence of three bytes of plain UTF-8. -/
def isSecondOfThree (first byte : UInt8) : Bool :=
  isContinuation byte &&
    (if first = 0xE0 then decide (0xA0 ≤ byte)
    else if first = 0xED then decide (byte ≤ 0x9F)
    else true)

/-- Whether a byte can follow `first` in a sequence of four bytes of plain UTF-8. -/
def isSecondOfFour (first byte : UInt8) : Bool :=
  isContinuation byte &&
    (if first = 0xF0 then decide (0x90 ≤ byte)
    else if first = 0xF4 then decide (byte ≤ 0x8F)
    else true)

/-- Whether the bytes are valid plain UTF-8, which has no surrogates. -/
def isPlain : List UInt8 → Bool
  | [] => true
  | first :: rest =>
      if first < 0x80 then isPlain rest
      else match rest with
        | [] => false
        | second :: rest =>
            if 0xC2 ≤ first ∧ first ≤ 0xDF ∧ isContinuation second then isPlain rest
            else match rest with
              | [] => false
              | third :: rest =>
                  if 0xE0 ≤ first ∧ first ≤ 0xEF ∧ isSecondOfThree first second ∧
                      isContinuation third then isPlain rest
                  else match rest with
                    | [] => false
                    | fourth :: rest =>
                        if 0xF0 ≤ first ∧ first ≤ 0xF4 ∧ isSecondOfFour first second ∧
                            isContinuation third ∧ isContinuation fourth then isPlain rest
                        else false

/-- The four bytes of the code point whose surrogates are stored as `ED b c` and `ED e f`. -/
def joinSurrogates (b c e f : UInt8) : List UInt8 :=
  let high := (b.toNat - 0xA0) * 64 + (c.toNat - 0x80)
  let low := (e.toNat - 0xB0) * 64 + (f.toNat - 0x80)
  let point := 0x10000 + high * 1024 + low
  [(0xF0 + point / 262144).toUInt8, (0x80 + point / 4096 % 64).toUInt8,
    (0x80 + point / 64 % 64).toUInt8, (0x80 + point % 64).toUInt8]

/-- The stored form of the code point with the four bytes `a b c d`: its two surrogates. -/
def splitSurrogates (a b c d : UInt8) : List UInt8 :=
  let point := (a.toNat - 0xF0) * 262144 + (b.toNat - 0x80) * 4096 + (c.toNat - 0x80) * 64 +
    (d.toNat - 0x80)
  let high := (point - 0x10000) / 1024
  let low := (point - 0x10000) % 1024
  [0xED, (0xA0 + high / 64).toUInt8, (0x80 + high % 64).toUInt8,
    0xED, (0xB0 + low / 64).toUInt8, (0x80 + low % 64).toUInt8]

/-- Reads modified UTF-8: `index` bytes were read before, and gave the bytes of `decoded` in
reverse. -/
def decodeModified (index : Nat) (decoded : List UInt8) :
    List UInt8 → Except DecodingError (List UInt8)
  | [] => .ok decoded.reverse
  | first :: rest =>
      if first = 0 then .error (.invalid 1 index)
      else if first < 0x80 then decodeModified (index + 1) (first :: decoded) rest
      else match rest with
        | [] => .error (.incomplete index)
        | second :: rest =>
            if ¬ isContinuation second then .error (.invalid 1 index)
            else if first = 0xC0 then
              if second = 0x80 then decodeModified (index + 2) (0 :: decoded) rest
              else .error (.invalid 1 index)
            else if 0xC2 ≤ first ∧ first ≤ 0xDF then
              decodeModified (index + 2) (second :: first :: decoded) rest
            else if 0xE0 ≤ first ∧ first ≤ 0xEF then
              match rest with
              | [] => .error (.incomplete index)
              | third :: rest =>
                  if ¬ isContinuation third then .error (.invalid 2 index)
                  else if first = 0xE0 ∧ second < 0xA0 then .error (.invalid 1 index)
                  else match rest with
                    | fourth :: fifth :: sixth :: rest' =>
                        if first = 0xED ∧ 0xA0 ≤ second ∧ second ≤ 0xAF ∧ fourth = 0xED ∧
                            0xB0 ≤ fifth ∧ fifth ≤ 0xBF ∧ isContinuation sixth then
                          decodeModified (index + 6)
                            ((joinSurrogates second third fifth sixth).reverse ++ decoded) rest'
                        else
                          decodeModified (index + 3) (third :: second :: first :: decoded)
                            (fourth :: fifth :: sixth :: rest')
                    | rest =>
                        decodeModified (index + 3) (third :: second :: first :: decoded) rest
            else .error (.invalid 1 index)

/-- The text that a file stores as the given bytes. -/
def decode (stored : List UInt8) : Except DecodingError Text :=
  if isPlain stored then .ok ⟨stored⟩ else (decodeModified 0 [] stored).map Text.mk

/-- Writes modified UTF-8: `encoded` is what was written before, in reverse. -/
def encodeModified (encoded : List UInt8) : List UInt8 → List UInt8
  | [] => encoded.reverse
  | first :: rest =>
      if first = 0 then encodeModified (0x80 :: 0xC0 :: encoded) rest
      else if 0xF0 ≤ first then
        match rest with
        | second :: third :: fourth :: rest =>
            encodeModified ((splitSurrogates first second third fourth).reverse ++ encoded) rest
        | rest => encodeModified (first :: encoded) rest
      else encodeModified (first :: encoded) rest

/-- The bytes that store the text in a file. -/
def encode (text : Text) : List UInt8 :=
  encodeModified [] text.bytes

end Text

end ClassFile
