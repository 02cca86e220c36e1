import ClassFile.AttributeKind
import ClassFile.Pool

/-!
# Class images

A `ClassImage` is the bytes of a class file together with the places of its main parts: the constant
pool, the header, and the attributes of the class, which stand behind all fields and methods.  To
find them, `ClassImage.ofInput?` has to step over every member.

Attributes that are not interpreted here are lists of `RawAttribute`.
-/

namespace ClassFile

/-- An attribute in a class file, by its name and the place of its contents. -/
structure RawAttribute where
  nameIndex : UInt16
  kind? : Option AttributeKind
  offset : Nat
  length : Nat
  deriving DecidableEq, Inhabited

/-- The bytes of a class file with the places of its main parts. -/
structure ClassImage where
  input : Input
  pool : Pool
  version : FormatVersion
  /-- The offset of the access flags, which follow the pool. -/
  headerOffset : Nat
  /-- The offset of the attributes of the class. -/
  attributesOffset : Nat
  deriving Inhabited

namespace ClassImage

/-- The number in the first four bytes of every class file. -/
def magic : UInt32 := 0xCAFEBABE

/-- The offset behind `count` attributes that start at `offset`. -/
def attributesStop (input : Input) (offset : Nat) : Nat → Except ClassError Nat
  | 0 => .ok offset
  | count + 1 => do
      let length ← input.u32 (offset + 2)
      attributesStop input (offset + 6 + length.toNat) count

/-- The offset behind the table of attributes at `offset`. -/
def skipAttributes (input : Input) (offset : Nat) : Except ClassError Nat := do
  let count ← input.u16 offset
  let stop ← attributesStop input (offset + 2) count.toNat
  if input.size < stop then
    throw ((ClassError.badAttributeLength offset).orOverflow Input.maxOffset stop)
  else return stop

/-- The offset behind `count` members that start at `offset`. -/
def membersStop (input : Input) (offset : Nat) : Nat → Except ClassError Nat
  | 0 => .ok offset
  | count + 1 => do membersStop input (← skipAttributes input (offset + 6)) count

/-- The offset behind the table of members at `offset`. -/
def skipMembers (input : Input) (offset : Nat) : Except ClassError Nat := do
  let count ← input.u16 offset
  membersStop input (offset + 2) count.toNat

/-- The `count` attributes that start at `offset`, and the offset behind them. -/
def listAttributes (pool : Pool) (offset : Nat) (found : Array RawAttribute) :
    Nat → Except ClassError (List RawAttribute × Nat)
  | 0 => .ok (found.toList, offset)
  | count + 1 => do
      let nameIndex ← pool.input.u16 offset
      let length ← pool.input.u32 (offset + 2)
      if pool.input.size < offset + 6 + length.toNat then
        throw ((ClassError.badAttributeLength (offset + 2)).orOverflow Input.maxOffset
          (offset + 6 + length.toNat))
      let stored ← pool.storedText nameIndex
      let entry := ⟨nameIndex, AttributeKind.ofStored? stored, offset + 6, length.toNat⟩
      listAttributes pool (offset + 6 + length.toNat) (found.push entry) count

/-- The attributes in the table at `offset`, and the offset behind it. -/
def rawAttributes (pool : Pool) (offset : Nat) :
    Except ClassError (List RawAttribute × Nat) := do
  let count ← pool.input.u16 offset
  listAttributes pool (offset + 2) #[] count.toNat

/-- The pool with the bootstrap methods that the attributes of the class hold; of several tables the
last counts. -/
def withBootstrapMethods (pool : Pool) (attributes : List RawAttribute) : Except ClassError Pool :=
  attributes.foldlM
    (fun pool entry =>
      if entry.kind? = some .bootstrapMethods then pool.withBootstrapMethods entry.offset
      else .ok pool)
    pool

/-- The image of the class file with the given bytes. -/
def ofInput? (input : Input) : Except ClassError ClassImage := do
  if (← input.u32 0) != magic then throw .badMagic
  let major ← input.u16 6
  let minor ← input.u16 4
  if FormatVersion.latestMajor < major then throw (.unsupportedVersion major)
  let pool ← Pool.ofInput? input
  let headerOffset := pool.stop
  let interfaces ← input.u16 (headerOffset + 6)
  let methodsOffset ← skipMembers input (headerOffset + 8 + interfaces.toNat * 2)
  let attributesOffset ← skipMembers input methodsOffset
  let (attributes, _) ← rawAttributes pool attributesOffset
  let pool ← withBootstrapMethods pool attributes
  return { input, pool, version := ⟨major, minor⟩, headerOffset, attributesOffset }

/-- The access flags in the header. -/
def access (image : ClassImage) : Except ClassError UInt32 :=
  (image.input.u16 image.headerOffset).map UInt16.toUInt32

/-- The name of the class. -/
def name (image : ClassImage) : Except ClassError Text := do
  image.pool.classRef (← image.input.u16 (image.headerOffset + 2))

/-- The name of the super class. -/
def super? (image : ClassImage) : Except ClassError (Option Text) := do
  Pool.optional image.pool.classRef (← image.input.u16 (image.headerOffset + 4))

/-- The class whose index is at `offset`. -/
def classAt (image : ClassImage) (offset : Nat) : Except ClassError Text := do
  image.pool.classRef (← image.input.u16 offset)

/-- The text whose index is at `offset`. -/
def textAt (image : ClassImage) (offset : Nat) : Except ClassError Text :=
  image.pool.textRefAt offset

/-- The names of the interfaces; each of them may be wrong on its own. -/
def interfaces (image : ClassImage) : Except ClassError (List (Except ClassError Text)) := do
  let count ← image.input.u16 (image.headerOffset + 6)
  return (List.range count.toNat).map fun position =>
    image.classAt (image.headerOffset + 8 + position * 2)

end ClassImage

end ClassFile
