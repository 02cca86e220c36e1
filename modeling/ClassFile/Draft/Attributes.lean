import ClassFile.Access
import ClassFile.AttributeKind
import ClassFile.Draft

/-!
# Drafts of attribute tables

An attribute is an index of its name, the length of its contents in four bytes, and the contents.
The contents are made before the name is added to the pool.
-/

namespace ClassFile

/-- A table of attributes that is being written. -/
structure AttributeTable where
  table : Table := {}
  deriving Inhabited

namespace AttributeTable

/-- Adds an attribute whose name has the given index. -/
def addNamed (name : UInt16) (body : Output) : Draft AttributeTable Unit := do
  if 4294967296 ≤ body.size then failure (.tooManyEntries "attribute bytes")
  let entry := ((Output.ofU16 name).u32 body.size.toUInt32).append body
  Draft.tryChange fun attributes => return { table := ← attributes.table.add "attributes" entry }

/-- Adds an attribute that the format defines. -/
def add (kind : AttributeKind) (body : Output) : Draft AttributeTable Unit := do
  addNamed (← Draft.pooled (PoolBuilder.text kind.text)) body

/-- Adds an attribute of one index, if there is one. -/
def addIndex (kind : AttributeKind) (index? : Option UInt16) : Draft AttributeTable Unit := do
  if let some index := index? then add kind (.ofU16 index)

/-- Adds a table that has entries. -/
def addTable (kind : AttributeKind) (table : Table) : Draft AttributeTable Unit := do
  if ! table.isEmpty then add kind table.toOutput

/-- Adds a table if there is one. -/
def addOptional (kind : AttributeKind) (table? : Option Table) : Draft AttributeTable Unit := do
  if let some table := table? then add kind table.toOutput

/-- Appends the contents of an attribute. -/
def writeFields (output : Output) : List AttributeField → Pooling Output
  | [] => pure output
  | .number value :: rest => writeFields (output.u16 value) rest
  | .text value :: rest => do writeFields (output.u16 (← PoolBuilder.text value)) rest
  | .refused cause :: _ => throw cause

/-- The contents of an attribute. -/
def content : AttributeContent → Pooling Output
  | .raw bytes => pure (Output.empty.bytes bytes)
  | .fields fields => writeFields .empty fields

/-- Adds an attribute that the format does not define. -/
def addCustom (entry : Attribute) : Draft AttributeTable Unit := do
  let body ← Draft.pooled (content entry.content)
  addNamed (← Draft.pooled (PoolBuilder.text entry.name)) body

/-- Adds what is told by access flags but stands in attributes, and a generic signature. -/
def addCommon (access : UInt32) (major : UInt16) (signature? : Option UInt16) :
    Draft AttributeTable Unit := do
  if Access.needsSyntheticAttribute access major then add .synthetic .empty
  addIndex .signature signature?
  if access &&& Access.deprecated != 0 then add .deprecated .empty

end AttributeTable

end ClassFile
