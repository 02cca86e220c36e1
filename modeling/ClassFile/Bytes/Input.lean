import ClassFile.Error

/-!
# Byte input

Reads at given offsets of the bytes of a file.  Numbers have their most significant byte first.  A
read that would leave the bytes fails and reports the last offset it would have touched.  A read at
an offset that is too great to be written down is an overflow.
-/

namespace ClassFile

/-- The bytes of a file, or of a part of it. -/
structure Input where
  data : ByteArray
  deriving Inhabited

namespace Input

/-- The greatest offset that can be written down. -/
def maxOffset : Nat := 18446744073709551615

/-- The greatest signed number. -/
def maxSigned : Nat := 9223372036854775807

/-- The number of bytes. -/
def size (input : Input) : Nat :=
  input.data.size

/-- Whether there are no bytes. -/
def isEmpty (input : Input) : Bool :=
  input.size == 0

/-- All bytes, in order. -/
def toList (input : Input) : List UInt8 :=
  input.data.data.toList

/-- The failure of a read of `length` bytes from `index` on. -/
def pastEnd (input : Input) (index length : Nat) : ClassError :=
  (ClassError.outOfBounds (min (index + (max length 1 - 1)) maxOffset) input.size).orOverflow
    maxOffset index

/-- The `length` bytes from `index` on, as an input of their own. -/
def slice (input : Input) (index length : Nat) : Except ClassError Input :=
  if index + length ≤ input.size then .ok ⟨input.data.extract index (index + length)⟩
  else .error (input.pastEnd index length)

/-- The `length` bytes from `index` on. -/
def bytes (input : Input) (index length : Nat) : Except ClassError (List UInt8) :=
  (input.slice index length).map toList

/-- The byte at `index`. -/
def u8 (input : Input) (index : Nat) : Except ClassError UInt8 :=
  if h : index < input.data.size then .ok input.data[index] else .error (input.pastEnd index 1)

/-- The number in the two bytes from `index` on. -/
def u16 (input : Input) (index : Nat) : Except ClassError UInt16 :=
  if h : index + 2 ≤ input.data.size then
    .ok (input.data[index].toUInt16 * 256 + input.data[index + 1].toUInt16)
  else .error (input.pastEnd index 2)

/-- The number in the four bytes from `index` on. -/
def u32 (input : Input) (index : Nat) : Except ClassError UInt32 :=
  if h : index + 4 ≤ input.data.size then
    .ok (input.data[index].toUInt32 * 16777216 + input.data[index + 1].toUInt32 * 65536 +
      input.data[index + 2].toUInt32 * 256 + input.data[index + 3].toUInt32)
  else .error (input.pastEnd index 4)

/-- The number in the eight bytes from `index` on. -/
def u64 (input : Input) (index : Nat) : Except ClassError UInt64 :=
  if index + 8 ≤ input.data.size then do
    let high ← input.u32 index
    let low ← input.u32 (index + 4)
    return high.toUInt64 * 4294967296 + low.toUInt64
  else .error (input.pastEnd index 8)

/-- The signed number in the byte at `index`. -/
def i8 (input : Input) (index : Nat) : Except ClassError Int8 :=
  (input.u8 index).map UInt8.toInt8

/-- The signed number in the two bytes from `index` on. -/
def i16 (input : Input) (index : Nat) : Except ClassError Int16 :=
  (input.u16 index).map UInt16.toInt16

/-- The signed number in the four bytes from `index` on. -/
def i32 (input : Input) (index : Nat) : Except ClassError Int32 :=
  (input.u32 index).map UInt32.toInt32

/-- The signed number in the eight bytes from `index` on. -/
def i64 (input : Input) (index : Nat) : Except ClassError Int64 :=
  (input.u64 index).map UInt64.toInt64

end Input

end ClassFile
