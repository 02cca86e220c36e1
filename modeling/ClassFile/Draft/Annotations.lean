import ClassFile.Draft.Attributes

/-!
# Drafts of annotations

An annotation is the index of its type and a counted list of named values; an array is a counted
list of values without names.  `AnnotationDraft` is an annotation that is being written, with the
arrays and annotations inside it that are still open.  Its bytes are complete at every moment: they
hold what was told so far.

`AnnotationTables` are the annotations of a class, a member or a record component.
-/

namespace ClassFile

/-- A list of values that is being written. -/
structure ElementList where
  /-- Whether the values have names. -/
  named : Bool
  /-- The number of values, none where a value stands alone and is not counted. -/
  count? : Option UInt16
  pieces : Pieces := []
  deriving Inhabited

namespace ElementList

/-- The list of named values of an annotation. -/
def namedValues : ElementList := ⟨true, some 0, []⟩

/-- The list of values of an array. -/
def arrayValues : ElementList := ⟨false, some 0, []⟩

/-- A single value. -/
def singleValue : ElementList := ⟨false, none, []⟩

/-- The list that counts one value more, which is still to be written. -/
def raise (list : ElementList) : Except ClassError ElementList :=
  match list.count? with
  | none => .ok list
  | some 65535 => .error (.tooManyEntries "annotation elements")
  | some count => .ok { list with count? := some (count + 1) }

/-- Appends the count, if there is one, and the values. -/
def write (list : ElementList) (output : Output) : Output :=
  list.pieces.write (list.count?.elim output output.u16)

end ElementList

/-- An annotation that is being written: the innermost list that is open, and the lists around it,
from the inside out. -/
structure AnnotationDraft where
  inner : ElementList
  outer : List ElementList := []
  deriving Inhabited

namespace AnnotationDraft

/-- All bytes written so far. -/
def toOutput (draft : AnnotationDraft) : Output :=
  (draft.inner :: draft.outer).foldr ElementList.write .empty

/-- Appends to the innermost list. -/
def put (piece : Output) : Draft AnnotationDraft Unit :=
  Draft.change fun draft =>
    { draft with inner := { draft.inner with pieces := piece :: draft.inner.pieces } }

/-- Appends an index. -/
def putIndex (adding : Pooling UInt16) : Draft AnnotationDraft Unit := do
  put (.ofU16 (← Draft.pooled adding))

/-- Appends the letter of a sort of value. -/
def putTag (letter : Char) : Draft AnnotationDraft Unit :=
  put (Output.empty.u8 letter.toUInt8)

/-- Starts a value: counts it, and writes its name where values have names. -/
def beginElement (name? : Option Text) : Draft AnnotationDraft Unit := do
  Draft.tryChange fun draft => return { draft with inner := ← draft.inner.raise }
  if ← Draft.look (·.inner.named) then
    putIndex (PoolBuilder.text (name?.getD ElementItem.standardName))

/-- Opens a list inside the innermost one. -/
def openList (list : ElementList) : Draft AnnotationDraft Unit :=
  Draft.change fun draft => { inner := list, outer := draft.inner :: draft.outer }

/-- The draft with its innermost list closed, none if that is the annotation itself. -/
def closed? (draft : AnnotationDraft) : Option AnnotationDraft :=
  match draft.outer with
  | [] => none
  | around :: outer =>
      some ⟨{ around with pieces := draft.inner.write .empty :: around.pieces }, outer⟩

end AnnotationDraft

namespace AnnotationConstant

/-- The letter of the sort of value. -/
def letter : AnnotationConstant → Char
  | .byte _ => 'B'
  | .char _ => 'C'
  | .double _ => 'D'
  | .float _ => 'F'
  | .int _ => 'I'
  | .long _ => 'J'
  | .short _ => 'S'
  | .boolean _ => 'Z'
  | .string _ => 's'
  | .classRef _ => 'c'

/-- Adds the value to the pool. -/
def pooled : AnnotationConstant → Pooling UInt16
  | .byte value => PoolBuilder.integer value.toInt32
  | .char value => PoolBuilder.integer value.toUInt32.toInt32
  | .double bits => PoolBuilder.double bits
  | .float bits => PoolBuilder.float bits
  | .int value => PoolBuilder.integer value
  | .long value => PoolBuilder.long value
  | .short value => PoolBuilder.integer value.toInt32
  | .boolean value => PoolBuilder.integer (if value then 1 else 0)
  | .string value | .classRef value => PoolBuilder.text value

end AnnotationConstant

namespace AnnotationDraft

/-- Writes a value. -/
def element : ElementItem → Draft AnnotationDraft Unit
  | .constant name? value => do
      beginElement name?
      putTag value.letter
      putIndex value.pooled
  | .enumeration name? descriptor value => do
      beginElement name?
      putTag 'e'
      putIndex (PoolBuilder.text descriptor)
      putIndex (PoolBuilder.text value)

/-- Opens an annotation inside the annotation. -/
def openNested (name? : Option Text) (descriptor : Text) : Draft AnnotationDraft Unit := do
  beginElement name?
  putTag '@'
  putIndex (PoolBuilder.text descriptor)
  openList .namedValues

/-- Opens an array. -/
def openArray (name? : Option Text) : Draft AnnotationDraft Unit := do
  beginElement name?
  putTag '['
  openList .arrayValues

end AnnotationDraft

/-- The annotations of one sort that something has. -/
abbrev AnnotationSet := Table

namespace AnnotationSet

/-- Counts one annotation more. -/
def raise : Draft AnnotationSet Unit :=
  Draft.tryChange (Table.raise "annotations")

/-- Starts an annotation: everything in front of its values. -/
def begin (descriptor : Text) : Draft AnnotationSet Unit := do
  raise
  let index ← Draft.pooled (PoolBuilder.text descriptor)
  Draft.change (Table.put (.ofU16 index))

/-- Starts a type annotation. -/
def beginType (use : TypeUse) : Draft AnnotationSet Unit := do
  raise
  Draft.change (Table.put (use.path.write (use.target.write .none .empty)))
  let index ← Draft.pooled (PoolBuilder.text use.descriptor)
  Draft.change (Table.put (.ofU16 index))

end AnnotationSet

/-- Where a finished annotation belongs. -/
inductive AnnotationPlace where
  | plain (visible : Bool)
  | ofType (visible : Bool)
  | parameter (position : UInt8) (visible : Bool)
  /-- The type annotation of a body that was started last. -/
  | code
  | default
  deriving DecidableEq, Inhabited

/-- The annotations, and the attributes that the format does not define, of a class, a member or a
record component. -/
structure AnnotationTables where
  visible : AnnotationSet := {}
  invisible : AnnotationSet := {}
  visibleTypes : AnnotationSet := {}
  invisibleTypes : AnnotationSet := {}
  /-- The attributes, last first. -/
  attributes : List Attribute := []
  deriving Inhabited

namespace AnnotationTables

/-- The annotations that are visible at run time, or those that are not. -/
def plain (tables : AnnotationTables) (visible : Bool) : AnnotationSet :=
  if visible then tables.visible else tables.invisible

/-- Replaces a set of annotations. -/
def setPlain (visible : Bool) (set : AnnotationSet) (tables : AnnotationTables) :
    AnnotationTables :=
  if visible then { tables with visible := set } else { tables with invisible := set }

/-- The type annotations that are visible at run time, or those that are not. -/
def types (tables : AnnotationTables) (visible : Bool) : AnnotationSet :=
  if visible then tables.visibleTypes else tables.invisibleTypes

/-- Replaces a set of type annotations. -/
def setTypes (visible : Bool) (set : AnnotationSet) (tables : AnnotationTables) :
    AnnotationTables :=
  if visible then { tables with visibleTypes := set } else { tables with invisibleTypes := set }

/-- Starts an annotation. -/
def begin (descriptor : Text) (visible : Bool) : Draft AnnotationTables AnnotationPlace := do
  Draft.within (plain · visible) (setPlain visible) (AnnotationSet.begin descriptor)
  return .plain visible

/-- Starts a type annotation. -/
def beginType (use : TypeUse) : Draft AnnotationTables AnnotationPlace := do
  Draft.within (types · use.visible) (setTypes use.visible) (AnnotationSet.beginType use)
  return .ofType use.visible

/-- The tables with the values of an annotation that was started before. -/
def keep (place : AnnotationPlace) (values : Output) (tables : AnnotationTables) :
    AnnotationTables :=
  match place with
  | .plain visible => setPlain visible ((tables.plain visible).put values) tables
  | .ofType visible => setTypes visible ((tables.types visible).put values) tables
  | _ => tables

/-- The tables with one attribute more. -/
def addAttribute (entry : Attribute) (tables : AnnotationTables) : AnnotationTables :=
  { tables with attributes := entry :: tables.attributes }

/-- Adds the annotations to the attributes. -/
def writePlain (tables : AnnotationTables) : Draft AttributeTable Unit := do
  AttributeTable.addTable .runtimeVisibleAnnotations tables.visible
  AttributeTable.addTable .runtimeInvisibleAnnotations tables.invisible

/-- Adds the type annotations to the attributes. -/
def writeTypes (tables : AnnotationTables) : Draft AttributeTable Unit := do
  AttributeTable.addTable .runtimeVisibleTypeAnnotations tables.visibleTypes
  AttributeTable.addTable .runtimeInvisibleTypeAnnotations tables.invisibleTypes

/-- Adds the attributes that the format does not define. -/
def writeCustom (tables : AnnotationTables) : Draft AttributeTable Unit :=
  tables.attributes.reverse.forM AttributeTable.addCustom

end AnnotationTables

/-- The annotations of the parameters of a method. -/
structure ParameterAnnotations where
  /-- The number of parameters that can have annotations, if it was told. -/
  annotable? : Option UInt8 := none
  sets : Array AnnotationSet := #[]
  deriving Inhabited

namespace ParameterAnnotations

/-- The annotations of a parameter. -/
def parameter (annotations : ParameterAnnotations) (position : UInt8) : AnnotationSet :=
  annotations.sets.getD position.toNat Table.empty

/-- Replaces the annotations of a parameter; every parameter in front of it gets a set too. -/
def setParameter (position : UInt8) (set : AnnotationSet) (annotations : ParameterAnnotations) :
    ParameterAnnotations :=
  let missing := position.toNat + 1 - annotations.sets.size
  let sets := annotations.sets ++ Array.replicate missing Table.empty
  { annotations with sets := sets.set! position.toNat set }

/-- Whether nothing was told. -/
def isEmpty (annotations : ParameterAnnotations) : Bool :=
  annotations.annotable?.isNone && annotations.sets.all Table.isEmpty

/-- The number of sets that are written. -/
def size (annotations : ParameterAnnotations) : Nat :=
  max ((annotations.annotable?.map UInt8.toNat).getD 0) annotations.sets.size

/-- The bytes of the sets; of their number only the low byte is written. -/
def toOutput (annotations : ParameterAnnotations) : Output :=
  (List.range annotations.size).foldl
    (fun output position => (annotations.sets.getD position Table.empty).write output)
    (Output.empty.u8 annotations.size.toUInt8)

end ParameterAnnotations

end ClassFile
