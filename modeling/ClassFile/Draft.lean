import ClassFile.Consumer
import ClassFile.Pool.Builder

/-!
# Drafts

A part of a class file that is being written is a draft: bytes and indices into a pool that grows
along with it.  `Draft σ` is the setting in which a part of type `σ` is written.  What fails leaves
the part and the pool as they were at that point.

`Table` is the form in which a class file lists things: a count of two bytes, and the entries.
-/

namespace ClassFile

/-- Writing a part of type `σ` of a class file. -/
abbrev Draft (σ : Type) := Step (σ × PoolBuilder)

namespace Draft

variable {σ τ α : Type}

/-- Adds to the pool. -/
def pooled (adding : Pooling α) : Draft σ α :=
  ExceptT.mk fun (part, pool) =>
    match adding.run.run pool with
    | (.ok value, pool) => (.ok value, part, pool)
    | (.error cause, pool) => (.error (.error cause), part, pool)

/-- Adds to the pool what is there; index zero stands for nothing. -/
def pooledIfPresent (add : α → Pooling UInt16) (value? : Option α) : Draft σ UInt16 :=
  pooled (PoolBuilder.optional add value?)

/-- Looks at the part. -/
def look (view : σ → α) : Draft σ α := do
  return view (← get).1

/-- Changes the part. -/
def change (update : σ → σ) : Draft σ Unit :=
  modify fun (part, pool) => (update part, pool)

/-- Changes the part by an update that may fail. -/
def tryChange (update : σ → Except ClassError σ) : Draft σ Unit :=
  ExceptT.mk fun (part, pool) =>
    match update part with
    | .ok next => (.ok (), next, pool)
    | .error cause => (.error (.error cause), part, pool)

/-- Writes a part of the part. -/
def within (get : σ → τ) (put : τ → σ → σ) (write : Draft τ α) : Draft σ α :=
  ExceptT.mk fun (whole, pool) =>
    match write.run.run (get whole, pool) with
    | (result, part, pool) => (result, put part whole, pool)

end Draft

/-- Pieces of output, last first. -/
abbrev Pieces := List Output

namespace Pieces

/-- Appends the pieces, first first. -/
def write (pieces : Pieces) (output : Output) : Output :=
  pieces.reverse.foldl Output.append output

end Pieces

/-- A counted list of entries. -/
structure Table where
  count : UInt16 := 0
  entries : Pieces := []
  deriving Inhabited

namespace Table

/-- The table without entries. -/
def empty : Table := {}

/-- The table that counts one entry more, which is still to be written. -/
def raise (what : String) (table : Table) : Except ClassError Table :=
  if table.count = 65535 then .error (.tooManyEntries what)
  else .ok { table with count := table.count + 1 }

/-- The table with bytes behind those that are there. -/
def put (piece : Output) (table : Table) : Table :=
  { table with entries := piece :: table.entries }

/-- The table with one entry more. -/
def add (what : String) (entry : Output) (table : Table) : Except ClassError Table :=
  (table.raise what).map (put entry)

/-- Whether there is no entry. -/
def isEmpty (table : Table) : Bool :=
  table.count == 0

/-- Appends the count and the entries. -/
def write (table : Table) (output : Output) : Output :=
  table.entries.write (output.u16 table.count)

/-- The bytes of the table. -/
def toOutput (table : Table) : Output :=
  table.write .empty

end Table

namespace Output

/-- Two bytes. -/
def ofU16 (value : UInt16) : Output :=
  empty.u16 value

/-- Numbers of two bytes. -/
def ofU16s (values : List UInt16) : Output :=
  values.foldl u16 empty

end Output

end ClassFile
