import ClassFile.Bytes.Output
import ClassFile.Pool
import Std.Data.HashMap

/-!
# Building a constant pool

A `PoolBuilder` hands out indices for constants.  It stores every constant once: adding one that is
there already gives its index again.  What an entry refers to is added before the entry itself, so
that in a pool that is built from nothing every reference points back.

Bootstrap methods are kept beside the entries, each stored once too.  Two bootstrap methods are the
same if their bytes are.

An addition that fails leaves a builder behind: the entries added by then stay.
-/

namespace ClassFile

/-- An entry of a pool by what it is made of, references to other entries being indices. -/
inductive PoolKey where
  | utf8 (text : Text)
  | integer (value : Int32)
  | float (bits : UInt32)
  | long (value : Int64)
  | double (bits : UInt64)
  | classRef (name : UInt16)
  | string (value : UInt16)
  | fieldRef (owner member : UInt16)
  | methodRef (owner member : UInt16)
  | interfaceMethodRef (owner member : UInt16)
  | nameAndType (name descriptor : UInt16)
  | methodHandle (kind : UInt8) (member : UInt16)
  | methodType (descriptor : UInt16)
  | dynamic (bootstrap member : UInt16)
  | invokeDynamic (bootstrap member : UInt16)
  | moduleRef (name : UInt16)
  | packageRef (name : UInt16)
  deriving DecidableEq, Inhabited, Hashable

namespace PoolKey

/-- The kind of the entry. -/
def tag : PoolKey → PoolTag
  | .utf8 _ => .utf8
  | .integer _ => .integer
  | .float _ => .float
  | .long _ => .long
  | .double _ => .double
  | .classRef _ => .classRef
  | .string _ => .string
  | .fieldRef .. => .fieldRef
  | .methodRef .. => .methodRef
  | .interfaceMethodRef .. => .interfaceMethodRef
  | .nameAndType .. => .nameAndType
  | .methodHandle .. => .methodHandle
  | .methodType _ => .methodType
  | .dynamic .. => .dynamic
  | .invokeDynamic .. => .invokeDynamic
  | .moduleRef _ => .moduleRef
  | .packageRef _ => .packageRef

/-- The number of indices that the entry takes. -/
def width (key : PoolKey) : Nat :=
  if key.tag.isWide then 2 else 1

/-- Appends what follows the tag byte. -/
def writeBody (key : PoolKey) (output : Output) : Output :=
  match key with
  | .utf8 text =>
      let stored := text.encode
      (output.u16 stored.length.toUInt16).bytes stored
  | .integer value => output.u32 value.toUInt32
  | .float bits => output.u32 bits
  | .long value => output.u64 value.toUInt64
  | .double bits => output.u64 bits
  | .classRef index | .string index | .methodType index | .moduleRef index | .packageRef index =>
      output.u16 index
  | .fieldRef first second | .methodRef first second | .interfaceMethodRef first second
  | .nameAndType first second | .dynamic first second | .invokeDynamic first second =>
      (output.u16 first).u16 second
  | .methodHandle kind member => (output.u8 kind).u16 member

/-- The length of a text whose stored form is too long for an entry. -/
def overlong? : PoolKey → Option Nat
  | .utf8 text =>
      let size := text.encode.length
      if 65535 < size then some size else none
  | _ => none

/-- The entry of kind `tag` whose body is the whole of `body`. -/
def ofBody (tag : PoolTag) (body : Input) : Except ClassError PoolKey := do
  match tag with
  | .utf8 =>
      match Text.decode (body.toList.drop 2) with
      | .ok text => return .utf8 text
      | .error cause => throw (.badText cause)
  | .integer => return .integer (← body.i32 0)
  | .float => return .float (← body.u32 0)
  | .long => return .long (← body.i64 0)
  | .double => return .double (← body.u64 0)
  | .classRef => return .classRef (← body.u16 0)
  | .string => return .string (← body.u16 0)
  | .fieldRef => return .fieldRef (← body.u16 0) (← body.u16 2)
  | .methodRef => return .methodRef (← body.u16 0) (← body.u16 2)
  | .interfaceMethodRef => return .interfaceMethodRef (← body.u16 0) (← body.u16 2)
  | .nameAndType => return .nameAndType (← body.u16 0) (← body.u16 2)
  | .methodHandle => return .methodHandle (← body.u8 0) (← body.u16 1)
  | .methodType => return .methodType (← body.u16 0)
  | .dynamic => return .dynamic (← body.u16 0) (← body.u16 2)
  | .invokeDynamic => return .invokeDynamic (← body.u16 0) (← body.u16 2)
  | .moduleRef => return .moduleRef (← body.u16 0)
  | .packageRef => return .packageRef (← body.u16 0)

end PoolKey

/-- A constant pool under construction, and its bootstrap methods. -/
structure PoolBuilder where
  indices : Std.HashMap PoolKey UInt16
  /-- The bytes of the entries. -/
  entries : Output
  /-- One more than the greatest index in use. -/
  count : UInt16
  /-- The index of each bootstrap method, by its bytes. -/
  bootstrapIndices : Std.HashMap (List UInt8) UInt16
  bootstraps : Output
  bootstrapCount : UInt16
  deriving Inhabited

/-- Adding constants to a pool. -/
abbrev Pooling := ExceptT ClassError (StateM PoolBuilder)

namespace PoolBuilder

/-- The pool without entries. -/
def empty : PoolBuilder :=
  { indices := ∅, entries := .empty, count := 1,
    bootstrapIndices := ∅, bootstraps := .empty, bootstrapCount := 0 }

/-- The indices of the entries of `pool` from `index` on; of equal entries the first counts. -/
def indexEntries (pool : Pool) (index : Nat) (indices : Std.HashMap PoolKey UInt16) :
    Except ClassError (Std.HashMap PoolKey UInt16) :=
  if index < pool.size then do
    let (tag, body) ← pool.rawEntry index.toUInt16
    let key ← PoolKey.ofBody tag ⟨⟨body.toArray⟩⟩
    let indices := indices.insertIfNew key index.toUInt16
    if tag.isWide then indexEntries pool (index + 2) indices
    else indexEntries pool (index + 1) indices
  else .ok indices
termination_by pool.size - index

/-- Copies `count` bootstrap methods of `pool`, the first of them at `index`. -/
def copyBootstraps (pool : Pool) (index : Nat) (builder : PoolBuilder) :
    (count : Nat) → Except ClassError PoolBuilder
  | 0 => .ok builder
  | count + 1 => do
      let bytes ← pool.rawBootstrapMethod index.toUInt16
      copyBootstraps pool (index + 1)
        { builder with
          bootstrapIndices := builder.bootstrapIndices.insertIfNew bytes index.toUInt16,
          bootstraps := builder.bootstraps.bytes bytes,
          bootstrapCount := builder.bootstrapCount + 1 }
        count

/-- The builder that starts from a copy of `pool`, so that every index keeps its meaning. -/
def ofPool (pool : Pool) : Except ClassError PoolBuilder := do
  let bytes ← pool.rawBytes
  let indices ← indexEntries pool 1 ∅
  copyBootstraps pool 0
    { empty with indices, entries := ⟨bytes.data⟩, count := (max pool.size 1).toUInt16 }
    pool.bootstrapOffsets.size

/-- The builder with an entry under the next index. -/
def push (builder : PoolBuilder) (key : PoolKey) : PoolBuilder :=
  { builder with
    indices := builder.indices.insert key builder.count,
    entries := key.writeBody (builder.entries.u8 key.tag.code),
    count := builder.count + key.width.toUInt16 }

/-- Appends an entry under the next index.  The tag byte of a text that is too long stays. -/
def append (key : PoolKey) : Pooling UInt16 := do
  let index := (← get).count
  if 65535 < index.toNat + key.width then throw .poolOverflow
  match key.overlong? with
  | some size =>
      modify fun builder => { builder with entries := builder.entries.u8 key.tag.code }
      throw (.textTooLong size)
  | none =>
      modify fun builder => builder.push key
      return index

/-- The index of an entry, which is added if it is new. -/
def add (key : PoolKey) : Pooling UInt16 := do
  match (← get).indices[key]? with
  | some index => return index
  | none => append key

/-- Adds a text. -/
def text (value : Text) : Pooling UInt16 :=
  add (.utf8 value)

/-- Adds an integer. -/
def integer (value : Int32) : Pooling UInt16 :=
  add (.integer value)

/-- Adds a float.  Its bits count, so that the two zeros stay apart. -/
def float (bits : UInt32) : Pooling UInt16 :=
  add (.float bits)

/-- Adds a long. -/
def long (value : Int64) : Pooling UInt16 :=
  add (.long value)

/-- Adds a double, by its bits too. -/
def double (bits : UInt64) : Pooling UInt16 :=
  add (.double bits)

/-- Adds a class. -/
def classRef (name : Text) : Pooling UInt16 := do
  add (.classRef (← text name))

/-- Adds a string. -/
def string (value : Text) : Pooling UInt16 := do
  add (.string (← text value))

/-- Adds a name and type. -/
def nameAndType (name descriptor : Text) : Pooling UInt16 := do
  let name ← text name
  let descriptor ← text descriptor
  add (.nameAndType name descriptor)

/-- Adds a field. -/
def fieldRef (member : MemberRef) : Pooling UInt16 := do
  let owner ← classRef member.owner
  let target ← nameAndType member.name member.descriptor
  add (.fieldRef owner target)

/-- Adds a method of a class or of an interface. -/
def methodRef (member : MemberRef) (isInterface : Bool) : Pooling UInt16 := do
  let owner ← classRef member.owner
  let target ← nameAndType member.name member.descriptor
  add (if isInterface then .interfaceMethodRef owner target else .methodRef owner target)

/-- Adds a method handle. -/
def handle (value : Handle) : Pooling UInt16 := do
  let member : MemberRef := ⟨value.owner, value.name, value.descriptor⟩
  let target ←
    if value.kind.isField then fieldRef member else methodRef member value.isInterface
  add (.methodHandle value.kind.code target)

/-- Adds a method type. -/
def methodType (descriptor : Text) : Pooling UInt16 := do
  add (.methodType (← text descriptor))

/-- Adds a module. -/
def moduleRef (name : Text) : Pooling UInt16 := do
  add (.moduleRef (← text name))

/-- Adds a package. -/
def packageRef (name : Text) : Pooling UInt16 := do
  add (.packageRef (← text name))

/-- Adds a bootstrap method with the given bytes. -/
def bootstrapOfBytes (bytes : List UInt8) : Pooling UInt16 := do
  match (← get).bootstrapIndices[bytes]? with
  | some index => return index
  | none =>
      let index := (← get).bootstrapCount
      if index = 65535 then throw (.tooManyEntries "bootstrap methods")
      modify fun builder =>
        { builder with
          bootstrapIndices := builder.bootstrapIndices.insert bytes index,
          bootstraps := builder.bootstraps.bytes bytes,
          bootstrapCount := index + 1 }
      return index

/-- Adds a bootstrap method that takes `count` arguments, which `arguments` adds. -/
def bootstrapOf (method : Handle) (count : Nat) (arguments : Pooling (List UInt16)) :
    Pooling UInt16 := do
  let index ← handle method
  if 65535 < count then throw (.tooManyEntries "bootstrap method arguments")
  let indices ← arguments
  bootstrapOfBytes ((index :: count.toUInt16 :: indices).flatMap bigEndian16)

mutual

/-- Adds a constant. -/
def constant : Constant → Pooling UInt16
  | .integer value => integer value
  | .float bits => float bits
  | .long value => long value
  | .double bits => double bits
  | .string value => string value
  | .classRef name => classRef name
  | .methodType descriptor => methodType descriptor
  | .handle value => handle value
  | .dynamic name descriptor method arguments => do
      let bootstrap ← bootstrapOf method arguments.length (constants [] arguments)
      add (.dynamic bootstrap (← nameAndType name descriptor))

/-- Adds constants, and gives their indices behind those of `found`, last first. -/
def constants (found : List UInt16) : List Constant → Pooling (List UInt16)
  | [] => pure found.reverse
  | value :: rest => do
      let index ← constant value
      constants (index :: found) rest

end

/-- Adds a bootstrap method. -/
def bootstrap (method : Handle) (arguments : List Constant) : Pooling UInt16 :=
  bootstrapOf method arguments.length (constants [] arguments)

/-- Adds a dynamic call site. -/
def invokeDynamic (name descriptor : Text) (method : Handle) (arguments : List Constant) :
    Pooling UInt16 := do
  let bootstrap ← bootstrap method arguments
  add (.invokeDynamic bootstrap (← nameAndType name descriptor))

/-- Adds a constant if there is one; index zero stands for nothing. -/
def optional {α : Type} (add : α → Pooling UInt16) : Option α → Pooling UInt16
  | none => pure 0
  | some value => add value

/-- Appends the count and the entries. -/
def write (builder : PoolBuilder) (output : Output) : Output :=
  (output.u16 builder.count).append builder.entries

/-- Appends the count and the bytes of the bootstrap methods. -/
def writeBootstraps (builder : PoolBuilder) (output : Output) : Output :=
  (output.u16 builder.bootstrapCount).append builder.bootstraps

end PoolBuilder

end ClassFile
