import ClassFile.Bytes.Input

/-!
# The constant pool

A pool is read once for the places of its entries and then looked up by index: `Pool.ofInput?`
finds where each entry starts, `Pool.entry` and the getters for one kind of entry read it there.
The first index is 1, and an entry for a long or double number leaves the index behind it without
an entry.

Bootstrap methods stand outside the pool, and a pool learns their places later
(`Pool.withBootstrapMethods`).  Their arguments are constants again, so that a dynamic constant may
need others; `Pool.maxDynamicLevels` limits how deep.
-/

namespace ClassFile

/-- A dynamic constant or call site: the index of its bootstrap method, its name and descriptor. -/
structure DynamicRef where
  bootstrapIndex : UInt16
  name : Text
  descriptor : Text
  deriving DecidableEq, Inhabited

/-- An entry of the pool with everything it refers to inside the pool. -/
inductive PoolEntry where
  | utf8 (text : Text)
  | integer (value : Int32)
  | float (bits : UInt32)
  | long (value : Int64)
  | double (bits : UInt64)
  | classRef (name : Text)
  | string (value : Text)
  | fieldRef (member : MemberRef)
  | methodRef (member : MemberRef)
  | interfaceMethodRef (member : MemberRef)
  | nameAndType (value : NameAndType)
  | methodHandle (handle : Handle)
  | methodType (descriptor : Text)
  | dynamic (value : DynamicRef)
  | invokeDynamic (value : DynamicRef)
  | moduleRef (name : Text)
  | packageRef (name : Text)
  deriving DecidableEq, Inhabited

/-- A pool inside the bytes of a class file. -/
structure Pool where
  input : Input
  /-- For each index the offset of its entry, zero where there is none. -/
  offsets : Array Nat
  /-- The offset behind the last entry. -/
  stop : Nat
  /-- The offsets of the bootstrap methods. -/
  bootstrapOffsets : Array Nat
  deriving Inhabited

namespace Pool

/-- The offset of the first entry in a class file. -/
def firstOffset : Nat := 10

/-- How many dynamic constants may be needed one inside the other. -/
def maxDynamicLevels : Nat := 32

/-- The kind of the entry whose tag byte is at `offset`. -/
def tagAt (input : Input) (offset : Nat) : Except ClassError PoolTag := do
  let byte ← input.u8 offset
  match PoolTag.ofCode? byte with
  | some tag => return tag
  | none => throw (.badPoolTag byte offset)

/-- The length of the body of an entry of kind `tag` that starts at `offset`. -/
def bodySize (input : Input) (tag : PoolTag) (offset : Nat) : Except ClassError Nat :=
  match tag.bodySize? with
  | some size => .ok size
  | none => (input.u16 offset).map fun length => 2 + length.toNat

/-- Finds the entries from `index` on, which start at `offset`, and the offset behind the last. -/
def findEntries (input : Input) (count index offset : Nat) (offsets : Array Nat) :
    Except ClassError (Array Nat × Nat) :=
  if index < count then do
    let tag ← tagAt input offset
    if tag.isWide && decide (count ≤ index + 1) then
      throw (.badPoolIndex (index + 1).toUInt16 count)
    let size ← bodySize input tag (offset + 1)
    let offsets := offsets.push offset
    if tag.isWide then findEntries input count (index + 2) (offset + 1 + size) (offsets.push 0)
    else findEntries input count (index + 1) (offset + 1 + size) offsets
  else .ok (offsets, offset)
termination_by count - index

/-- The pool of the class file with the given bytes, its bootstrap methods still unknown. -/
def ofInput? (input : Input) : Except ClassError Pool := do
  let count := (← input.u16 8).toNat
  let (offsets, stop) ←
    findEntries input count 1 firstOffset (if count = 0 then #[] else #[0])
  return { input, offsets, stop, bootstrapOffsets := #[] }

/-- The number of indices, the unused index 0 included. -/
def size (pool : Pool) : Nat :=
  pool.offsets.size

/-- Whether the pool has no entry. -/
def isEmpty (pool : Pool) : Bool :=
  decide (pool.size ≤ 1)

/-- Finds `count` bootstrap methods from `offset` on. -/
def findBootstrapMethods (input : Input) (offset : Nat) (offsets : Array Nat) :
    Nat → Except ClassError (Array Nat)
  | 0 => .ok offsets
  | count + 1 => do
      let arguments ← input.u16 (offset + 2)
      findBootstrapMethods input (offset + 4 + arguments.toNat * 2) (offsets.push offset) count

/-- The pool with the bootstrap methods whose table starts at `offset`. -/
def withBootstrapMethods (pool : Pool) (offset : Nat) : Except ClassError Pool := do
  let count ← pool.input.u16 offset
  let offsets ← findBootstrapMethods pool.input (offset + 2) #[] count.toNat
  return { pool with bootstrapOffsets := offsets }

/-- The offset of the entry with a given index. -/
def offsetOf (pool : Pool) (index : UInt16) : Except ClassError Nat :=
  match pool.offsets[index.toNat]? with
  | some 0 => .error (.noPoolEntry index)
  | some offset => .ok offset
  | none => .error (.badPoolIndex index pool.size)

/-- The kind of the entry with a given index. -/
def tag (pool : Pool) (index : UInt16) : Except ClassError PoolTag := do
  tagAt pool.input (← pool.offsetOf index)

/-- The offset of the body of an entry that has to be of kind `expected`. -/
def bodyOf (pool : Pool) (expected : PoolTag) (index : UInt16) : Except ClassError Nat := do
  let offset ← pool.offsetOf index
  let actual ← tagAt pool.input offset
  if actual = expected then return offset + 1 else throw (.wrongPoolTag expected actual)

/-- The bytes of all entries. -/
def rawBytes (pool : Pool) : Except ClassError Input :=
  pool.input.slice firstOffset (pool.stop - firstOffset)

/-- The kind of an entry and the bytes of its body. -/
def rawEntry (pool : Pool) (index : UInt16) : Except ClassError (PoolTag × List UInt8) := do
  let offset ← pool.offsetOf index
  let tag ← tagAt pool.input offset
  let size ← bodySize pool.input tag (offset + 1)
  return (tag, ← pool.input.bytes (offset + 1) size)

/-- The stored bytes of the text whose length is at `offset`. -/
def storedTextAt (pool : Pool) (offset : Nat) : Except ClassError (List UInt8) := do
  let length ← pool.input.u16 offset
  pool.input.bytes (offset + 2) length.toNat

/-- The text whose length is at `offset`. -/
def textAt (pool : Pool) (offset : Nat) : Except ClassError Text := do
  match Text.decode (← pool.storedTextAt offset) with
  | .ok text => return text
  | .error cause => throw (.badText cause)

/-- The stored bytes of a text entry. -/
def storedText (pool : Pool) (index : UInt16) : Except ClassError (List UInt8) := do
  pool.storedTextAt (← pool.bodyOf .utf8 index)

/-- A text entry. -/
def text (pool : Pool) (index : UInt16) : Except ClassError Text := do
  pool.textAt (← pool.bodyOf .utf8 index)

/-- The text entry whose index is at `offset`. -/
def textRefAt (pool : Pool) (offset : Nat) : Except ClassError Text := do
  pool.text (← pool.input.u16 offset)

/-- An entry that only names a text, of kind `tag`. -/
def named (pool : Pool) (tag : PoolTag) (index : UInt16) : Except ClassError Text := do
  pool.textRefAt (← pool.bodyOf tag index)

/-- An integer entry. -/
def integer (pool : Pool) (index : UInt16) : Except ClassError Int32 := do
  pool.input.i32 (← pool.bodyOf .integer index)

/-- The bits of a float entry. -/
def float (pool : Pool) (index : UInt16) : Except ClassError UInt32 := do
  pool.input.u32 (← pool.bodyOf .float index)

/-- A long entry. -/
def long (pool : Pool) (index : UInt16) : Except ClassError Int64 := do
  pool.input.i64 (← pool.bodyOf .long index)

/-- The bits of a double entry. -/
def double (pool : Pool) (index : UInt16) : Except ClassError UInt64 := do
  pool.input.u64 (← pool.bodyOf .double index)

/-- The name of a class entry. -/
def classRef (pool : Pool) (index : UInt16) : Except ClassError Text :=
  pool.named .classRef index

/-- The value of a string entry. -/
def string (pool : Pool) (index : UInt16) : Except ClassError Text :=
  pool.named .string index

/-- The descriptor of a method type entry. -/
def methodType (pool : Pool) (index : UInt16) : Except ClassError Text :=
  pool.named .methodType index

/-- The name of a module entry. -/
def moduleRef (pool : Pool) (index : UInt16) : Except ClassError Text :=
  pool.named .moduleRef index

/-- The name of a package entry. -/
def packageRef (pool : Pool) (index : UInt16) : Except ClassError Text :=
  pool.named .packageRef index

/-- The name and descriptor whose indices are at `offset`. -/
def nameAndTypeAt (pool : Pool) (offset : Nat) : Except ClassError NameAndType := do
  let name ← pool.textRefAt offset
  let descriptor ← pool.textRefAt (offset + 2)
  return ⟨name, descriptor⟩

/-- A name and type entry. -/
def nameAndType (pool : Pool) (index : UInt16) : Except ClassError NameAndType := do
  pool.nameAndTypeAt (← pool.bodyOf .nameAndType index)

/-- The member whose class and name and type have their indices at `offset`. -/
def memberAt (pool : Pool) (offset : Nat) : Except ClassError MemberRef := do
  let owner ← pool.classRef (← pool.input.u16 offset)
  let member ← pool.nameAndType (← pool.input.u16 (offset + 2))
  return ⟨owner, member.name, member.descriptor⟩

/-- A member entry of kind `tag`. -/
def member (pool : Pool) (tag : PoolTag) (index : UInt16) : Except ClassError MemberRef := do
  pool.memberAt (← pool.bodyOf tag index)

/-- A field entry. -/
def fieldRef (pool : Pool) (index : UInt16) : Except ClassError MemberRef :=
  pool.member .fieldRef index

/-- A method entry for a class. -/
def methodRef (pool : Pool) (index : UInt16) : Except ClassError MemberRef :=
  pool.member .methodRef index

/-- A method entry for an interface. -/
def interfaceMethodRef (pool : Pool) (index : UInt16) : Except ClassError MemberRef :=
  pool.member .interfaceMethodRef index

/-- A method entry of either kind, and whether it is for an interface. -/
def anyMethodRef (pool : Pool) (index : UInt16) : Except ClassError (MemberRef × Bool) := do
  let offset ← pool.offsetOf index
  match ← tagAt pool.input offset with
  | .methodRef => return (← pool.memberAt (offset + 1), false)
  | .interfaceMethodRef => return (← pool.memberAt (offset + 1), true)
  | actual => throw (.wrongPoolTag .methodRef actual)

/-- The method handle whose kind is at `offset`. -/
def handleAt (pool : Pool) (offset : Nat) : Except ClassError Handle := do
  let byte ← pool.input.u8 offset
  match HandleKind.ofCode? byte with
  | none => throw (.badHandleKind byte)
  | some kind =>
      let index ← pool.input.u16 (offset + 1)
      let (member, isInterface) ← match kind with
        | .getField | .getStatic | .putField | .putStatic => do
            pure (← pool.fieldRef index, false)
        | .invokeVirtual | .newInvokeSpecial => do pure (← pool.methodRef index, false)
        | .invokeInterface => do pure (← pool.interfaceMethodRef index, true)
        | .invokeStatic | .invokeSpecial => pool.anyMethodRef index
      return ⟨kind, member.owner, member.name, member.descriptor, isInterface⟩

/-- A method handle entry. -/
def handle (pool : Pool) (index : UInt16) : Except ClassError Handle := do
  pool.handleAt (← pool.bodyOf .methodHandle index)

/-- The dynamic constant or call site whose bootstrap index is at `offset`. -/
def dynamicAt (pool : Pool) (offset : Nat) : Except ClassError DynamicRef := do
  let bootstrapIndex ← pool.input.u16 offset
  let member ← pool.nameAndType (← pool.input.u16 (offset + 2))
  return ⟨bootstrapIndex, member.name, member.descriptor⟩

/-- A dynamic constant entry. -/
def dynamicRef (pool : Pool) (index : UInt16) : Except ClassError DynamicRef := do
  pool.dynamicAt (← pool.bodyOf .dynamic index)

/-- A dynamic call site entry. -/
def invokeDynamicRef (pool : Pool) (index : UInt16) : Except ClassError DynamicRef := do
  pool.dynamicAt (← pool.bodyOf .invokeDynamic index)

/-- The entry with a given index, of any kind. -/
def entry (pool : Pool) (index : UInt16) : Except ClassError PoolEntry := do
  let offset ← pool.offsetOf index
  let body := offset + 1
  match ← tagAt pool.input offset with
  | .utf8 => return .utf8 (← pool.textAt body)
  | .integer => return .integer (← pool.input.i32 body)
  | .float => return .float (← pool.input.u32 body)
  | .long => return .long (← pool.input.i64 body)
  | .double => return .double (← pool.input.u64 body)
  | .classRef => return .classRef (← pool.textRefAt body)
  | .string => return .string (← pool.textRefAt body)
  | .fieldRef => return .fieldRef (← pool.memberAt body)
  | .methodRef => return .methodRef (← pool.memberAt body)
  | .interfaceMethodRef => return .interfaceMethodRef (← pool.memberAt body)
  | .nameAndType => return .nameAndType (← pool.nameAndTypeAt body)
  | .methodHandle => return .methodHandle (← pool.handleAt body)
  | .methodType => return .methodType (← pool.textRefAt body)
  | .dynamic => return .dynamic (← pool.dynamicAt body)
  | .invokeDynamic => return .invokeDynamic (← pool.dynamicAt body)
  | .moduleRef => return .moduleRef (← pool.textRefAt body)
  | .packageRef => return .packageRef (← pool.textRefAt body)

/-- A look-up where index zero means that there is nothing. -/
def optional {α : Type} (look : UInt16 → Except ClassError α) (index : UInt16) :
    Except ClassError (Option α) :=
  if index = 0 then .ok none else (look index).map some

/-- The offset of a bootstrap method. -/
def bootstrapOffset (pool : Pool) (index : UInt16) : Except ClassError Nat :=
  match pool.bootstrapOffsets[index.toNat]? with
  | some offset => .ok offset
  | none => .error (.noPoolEntry index)

/-- The bytes of a bootstrap method: its handle, the number of its arguments, the arguments. -/
def rawBootstrapMethod (pool : Pool) (index : UInt16) : Except ClassError (List UInt8) := do
  let offset ← pool.bootstrapOffset index
  let arguments ← pool.input.u16 (offset + 2)
  pool.input.bytes offset (4 + arguments.toNat * 2)

/-- Reads `count` arguments of a bootstrap method from `offset` on, last first before `found`. -/
def readArguments (pool : Pool) (constant : UInt16 → Except ClassError Constant) (offset : Nat)
    (found : List Constant) : Nat → Except ClassError (List Constant)
  | 0 => .ok found.reverse
  | count + 1 => do
      let value ← constant (← pool.input.u16 offset)
      readArguments pool constant (offset + 2) (value :: found) count

/-- A bootstrap method whose arguments are read by `constant`. -/
def bootstrapWith (pool : Pool) (constant : UInt16 → Except ClassError Constant)
    (index : UInt16) : Except ClassError (Handle × List Constant) := do
  let offset ← pool.bootstrapOffset index
  let handle ← pool.handle (← pool.input.u16 offset)
  let count ← pool.input.u16 (offset + 2)
  let arguments ← readArguments pool constant (offset + 4) [] count.toNat
  return (handle, arguments)

/-- A constant in which dynamic constants stand one inside the other at most `levels` deep. -/
def constantWithin (pool : Pool) : (levels : Nat) → (index : UInt16) → Except ClassError Constant
  | levels, index => do
      match ← pool.tag index with
      | .integer => return .integer (← pool.integer index)
      | .float => return .float (← pool.float index)
      | .long => return .long (← pool.long index)
      | .double => return .double (← pool.double index)
      | .string => return .string (← pool.string index)
      | .classRef => return .classRef (← pool.classRef index)
      | .methodType => return .methodType (← pool.methodType index)
      | .methodHandle => return .handle (← pool.handle index)
      | .dynamic =>
          let reference ← pool.dynamicRef index
          match levels with
          | 0 => throw .tooDeepNesting
          | levels + 1 =>
              let (handle, arguments) ←
                pool.bootstrapWith (constantWithin pool levels) reference.bootstrapIndex
              return .dynamic reference.name reference.descriptor handle arguments
      | actual => throw (.wrongPoolTag .integer actual)

/-- A constant that an instruction can load. -/
def constant (pool : Pool) (index : UInt16) : Except ClassError Constant :=
  pool.constantWithin maxDynamicLevels index

/-- A bootstrap method: its handle and its arguments. -/
def bootstrapMethod (pool : Pool) (index : UInt16) :
    Except ClassError (Handle × List Constant) :=
  pool.bootstrapWith (pool.constantWithin maxDynamicLevels) index

/-- A dynamic constant. -/
def dynamicConstant (pool : Pool) (index : UInt16) : Except ClassError Constant := do
  let reference ← pool.dynamicRef index
  let (handle, arguments) ←
    pool.bootstrapWith (pool.constantWithin (maxDynamicLevels - 1)) reference.bootstrapIndex
  return .dynamic reference.name reference.descriptor handle arguments

/-- The next index with an entry behind `index`, if the pool has one. -/
def next? (pool : Pool) (index : Nat) : Option Nat :=
  let last := pool.size - 1
  if index < last then
    let next := index + 1
    let next := if pool.offsets.getD next 0 = 0 ∧ next < last then next + 1 else next
    if pool.offsets.getD next 0 = 0 then none else some next
  else none

theorem lt_of_next? {pool : Pool} {index next : Nat} (found : pool.next? index = some next) :
    index < next ∧ next ≤ pool.size - 1 := by
  unfold next? at found
  grind

/-- The entries behind `index`, in order, after those of `found`. -/
def entriesFrom (pool : Pool) (index : Nat) (found : Array (Except ClassError PoolEntry)) :
    Array (Except ClassError PoolEntry) :=
  match _step : pool.next? index with
  | none => found
  | some next => entriesFrom pool next (found.push (pool.entry next.toUInt16))
termination_by pool.size - index
decreasing_by
  have bounds := lt_of_next? _step
  omega

/-- All entries, in the order of their indices. -/
def entries (pool : Pool) : Array (Except ClassError PoolEntry) :=
  pool.entriesFrom 0 #[]

/-- The least and the greatest number of entries that a pool of this size can have. -/
def entryBounds (pool : Pool) : Nat × Nat :=
  ((pool.size - 1) / 2, pool.size - 1)

end Pool

end ClassFile
