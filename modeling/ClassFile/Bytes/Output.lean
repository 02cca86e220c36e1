import ClassFile.Text.Modified

/-!
# Byte output

A growing sequence of bytes.  Numbers are appended with the most significant byte first.  The view
of an output is the list of its bytes, and every operation says what it does to that list: most
append, two overwrite bytes that were written before.
-/

namespace ClassFile

/-- The bytes of a number, most significant first. -/
def bigEndian16 (value : UInt16) : List UInt8 :=
  [(value / 256).toUInt8, value.toUInt8]

/-- The bytes of a number, most significant first. -/
def bigEndian32 (value : UInt32) : List UInt8 :=
  [(value / 16777216).toUInt8, (value / 65536).toUInt8, (value / 256).toUInt8, value.toUInt8]

/-- Bytes that are being written. -/
structure Output where
  data : ByteArray
  deriving Inhabited

namespace Output

/-- Nothing written yet. -/
def empty : Output := ⟨ByteArray.empty⟩

/-- The bytes written so far. -/
def toList (output : Output) : List UInt8 :=
  output.data.data.toList

/-- The number of bytes written so far. -/
def size (output : Output) : Nat :=
  output.data.size

/-- Whether nothing is written yet. -/
def isEmpty (output : Output) : Bool :=
  output.size == 0

/-- Appends one byte. -/
def u8 (output : Output) (value : UInt8) : Output :=
  ⟨output.data.push value⟩

/-- Appends a list of bytes. -/
def bytes (output : Output) (values : List UInt8) : Output :=
  values.foldl u8 output

/-- Appends all bytes of another output. -/
def append (output other : Output) : Output :=
  ⟨output.data ++ other.data⟩

instance : Append Output := ⟨append⟩

/-- Appends two bytes. -/
def u16 (output : Output) (value : UInt16) : Output :=
  (output.u8 (value / 256).toUInt8).u8 value.toUInt8

/-- Appends four bytes. -/
def u32 (output : Output) (value : UInt32) : Output :=
  (((output.u8 (value / 16777216).toUInt8).u8 (value / 65536).toUInt8).u8
    (value / 256).toUInt8).u8 value.toUInt8

/-- Appends eight bytes. -/
def u64 (output : Output) (value : UInt64) : Output :=
  (output.u32 (value / 4294967296).toUInt32).u32 value.toUInt32

/-- Appends the stored form of a text behind its length, none if that length does not fit two
bytes. -/
def text? (output : Output) (value : Text) : Option Output :=
  let encoded := value.encode
  if encoded.length ≤ 65535 then some ((output.u16 encoded.length.toUInt16).bytes encoded)
  else none

/-- Overwrites the bytes from `offset` on, none if they are not all written yet. -/
def overwrite? (output : Output) (offset : Nat) (values : List UInt8) : Option Output :=
  if offset + values.length ≤ output.size then
    some ((values.foldl
      (fun (target : Output × Nat) value => (⟨target.1.data.set! target.2 value⟩, target.2 + 1))
      (output, offset)).1)
  else none

/-- Overwrites two bytes. -/
def u16At? (output : Output) (offset : Nat) (value : UInt16) : Option Output :=
  output.overwrite? offset (bigEndian16 value)

/-- Overwrites four bytes. -/
def u32At? (output : Output) (offset : Nat) (value : UInt32) : Option Output :=
  output.overwrite? offset (bigEndian32 value)

end Output

end ClassFile
