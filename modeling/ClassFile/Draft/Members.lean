import ClassFile.Draft.Code

/-!
# Drafts of members

A field, a method or a record component is written when it is finished: then its attributes are put
together, and an entry is added to the table that it belongs to.  A member that is left before it is
finished writes nothing, but what it added to the pool stays there.
-/

namespace ClassFile

/-- A field that is being written. -/
structure FieldDraft where
  access : UInt32
  name : UInt16
  descriptor : UInt16
  signature? : Option UInt16
  value? : Option UInt16
  annotations : AnnotationTables := {}
  deriving Inhabited

namespace FieldDraft

/-- Adds the value that a field starts with to the pool. -/
def pooledValue : FieldValue → Pooling UInt16
  | .integer value => PoolBuilder.integer value
  | .float bits => PoolBuilder.float bits
  | .long value => PoolBuilder.long value
  | .double bits => PoolBuilder.double bits
  | .string value => PoolBuilder.string value

/-- Starts a field. -/
def begin {σ : Type} (header : FieldHeader) : Draft σ FieldDraft := do
  let name ← Draft.pooled (PoolBuilder.text header.name)
  let descriptor ← Draft.pooled (PoolBuilder.text header.descriptor)
  let signature? ← CodeDraft.signatureIndex? header.signature?
  let value? ← match header.value? with
    | none => pure none
    | some value => do pure (some (← Draft.pooled (pooledValue value)))
  return { access := header.access, name, descriptor, signature?, value? }

/-- The bytes of a finished field. -/
def write {σ : Type} (draft : FieldDraft) (major : UInt16) : Draft σ Output := do
  let attributes ← CodeDraft.written {} do
    AttributeTable.addIndex .constantValue draft.value?
    AttributeTable.addCommon draft.access major draft.signature?
    draft.annotations.writePlain
    draft.annotations.writeTypes
    draft.annotations.writeCustom
  return attributes.table.write
    (.ofU16s [Access.stored draft.access major, draft.name, draft.descriptor])

end FieldDraft

/-- A record component that is being written. -/
structure ComponentDraft where
  name : UInt16
  descriptor : UInt16
  signature? : Option UInt16
  annotations : AnnotationTables := {}
  deriving Inhabited

namespace ComponentDraft

/-- Starts a record component. -/
def begin {σ : Type} (header : ComponentHeader) : Draft σ ComponentDraft := do
  let name ← Draft.pooled (PoolBuilder.text header.name)
  let descriptor ← Draft.pooled (PoolBuilder.text header.descriptor)
  let signature? ← CodeDraft.signatureIndex? header.signature?
  return { name, descriptor, signature? }

/-- The bytes of a finished record component. -/
def write {σ : Type} (draft : ComponentDraft) : Draft σ Output := do
  let attributes ← CodeDraft.written {} do
    AttributeTable.addIndex .signature draft.signature?
    draft.annotations.writePlain
    draft.annotations.writeTypes
    draft.annotations.writeCustom
  return attributes.table.write (.ofU16s [draft.name, draft.descriptor])

end ComponentDraft

/-- A method that is being written. -/
structure MethodDraft where
  access : UInt32
  name : Text
  nameIndex : UInt16
  descriptor : UInt16
  signature? : Option UInt16
  exceptions : List UInt16
  /-- The parameters by index of the name and access flags, last first. -/
  parameters : List (UInt16 × UInt16) := []
  default? : Option Pieces := none
  annotations : AnnotationTables := {}
  visibleParameters : ParameterAnnotations := {}
  invisibleParameters : ParameterAnnotations := {}
  code? : Option CodeDraft := none
  deriving Inhabited

namespace MethodDraft

/-- Adds classes to the pool, and gives their indices behind those of `found`, last first. -/
def classIndices {σ : Type} (found : List UInt16) : List Text → Draft σ (List UInt16)
  | [] => pure found.reverse
  | name :: rest => do
      let index ← Draft.pooled (PoolBuilder.classRef name)
      classIndices (index :: found) rest

/-- Starts a method. -/
def begin {σ : Type} (header : MethodHeader) : Draft σ MethodDraft := do
  let nameIndex ← Draft.pooled (PoolBuilder.text header.name)
  let descriptor ← Draft.pooled (PoolBuilder.text header.descriptor)
  let signature? ← CodeDraft.signatureIndex? header.signature?
  let exceptions ← classIndices [] header.exceptions
  return { access := header.access, name := header.name, nameIndex, descriptor, signature?,
           exceptions }

/-- The body, which starts to exist when it is first needed. -/
def code (draft : MethodDraft) : CodeDraft :=
  draft.code?.getD {}

/-- Replaces the body. -/
def setCode (code : CodeDraft) (draft : MethodDraft) : MethodDraft :=
  { draft with code? := some code }

/-- Writes in the body. -/
def inCode {α : Type} (write : Draft CodeDraft α) : Draft MethodDraft α :=
  Draft.within code setCode write

/-- The annotations of parameters that are visible at run time, or those that are not. -/
def parameterAnnotations (draft : MethodDraft) (visible : Bool) : ParameterAnnotations :=
  if visible then draft.visibleParameters else draft.invisibleParameters

/-- Replaces annotations of parameters. -/
def setParameterAnnotations (visible : Bool) (annotations : ParameterAnnotations)
    (draft : MethodDraft) : MethodDraft :=
  if visible then { draft with visibleParameters := annotations }
  else { draft with invisibleParameters := annotations }

/-- Changes the annotations of a parameter. -/
def setParameter (position : UInt8) (visible : Bool) (set : AnnotationSet)
    (draft : MethodDraft) : MethodDraft :=
  draft.setParameterAnnotations visible
    ((draft.parameterAnnotations visible).setParameter position set)

/-- Records an event of the method scope. -/
def item : MethodItem → Draft MethodDraft Unit
  | .parameter entry => do
      let name ← Draft.pooledIfPresent PoolBuilder.text entry.name?
      Draft.change fun draft =>
        { draft with parameters := (name, entry.access) :: draft.parameters }
  | .annotableParameterCount count visible =>
      Draft.change fun draft =>
        draft.setParameterAnnotations visible
          { draft.parameterAnnotations visible with annotable? := some count }
  | .code => inCode (pure ())
  | .instruction element => inCode (CodeDraft.instruction element)
  | .tryCatch block => inCode (CodeDraft.tryCatch block)
  | .localVariable entry => inCode (CodeDraft.localVariable entry)
  | .maxs stack locals =>
      inCode (Draft.change fun code => { code with maxStack := stack, maxLocals := locals })

/-- Records an attribute, in the body if it belongs there. -/
def addAttribute (entry : Attribute) (draft : MethodDraft) : MethodDraft :=
  if entry.inCode then
    draft.setCode { draft.code with attributes := entry :: draft.code.attributes }
  else { draft with annotations := draft.annotations.addAttribute entry }

/-- Starts a type annotation of the body. -/
def beginCodeAnnotation (use : TypeUse) (anchor : CodeAnchor) :
    Draft MethodDraft AnnotationPlace := do
  let index ← Draft.pooled (PoolBuilder.text use.descriptor)
  inCode (Draft.change (CodeDraft.beginAnnotation use anchor index))
  return .code

/-- Starts an annotation: where it belongs and the list that its values go to. -/
def beginAnnotation : Opening → Draft MethodDraft (Option (AnnotationPlace × ElementList))
  | .annotate descriptor visible => do
      let place ← Draft.within annotations (fun part draft => { draft with annotations := part })
        (AnnotationTables.begin descriptor visible)
      return some (place, .namedValues)
  | .annotateType use => do
      let place ← Draft.within annotations (fun part draft => { draft with annotations := part })
        (AnnotationTables.beginType use)
      return some (place, .namedValues)
  | .annotationDefault => do
      Draft.change fun draft => { draft with default? := some [] }
      return some (.default, .singleValue)
  | .annotateParameter position descriptor visible => do
      Draft.within (fun draft => (draft.parameterAnnotations visible).parameter position)
        (setParameter position visible) (AnnotationSet.begin descriptor)
      return some (.parameter position visible, .namedValues)
  | .annotateInstruction use => do
      let position ← Draft.look fun draft => draft.code.lastInstruction?.getD 0
      return some (← beginCodeAnnotation use (.item position), .namedValues)
  | .annotateTryCatch use => do return some (← beginCodeAnnotation use .none, .namedValues)
  | .annotateLocal use ranges => do
      return some (← beginCodeAnnotation use (.ranges ranges), .namedValues)
  | _ => return none

/-- The draft with the values of an annotation that was started before. -/
def keep (place : AnnotationPlace) (values : Output) (draft : MethodDraft) : MethodDraft :=
  match place with
  | .plain _ | .ofType _ => { draft with annotations := draft.annotations.keep place values }
  | .parameter position visible =>
      let set := (draft.parameterAnnotations visible).parameter position
      draft.setParameter position visible (set.put values)
  | .code => draft.setCode (draft.code.keepAnnotation values)
  | .default => { draft with default? := some (values :: draft.default?.getD []) }

/-- The contents of the attribute with the parameters. -/
def parameterTable {σ : Type} (parameters : List (UInt16 × UInt16)) : Draft σ Output := do
  let count := parameters.length
  if 255 < count then failure (.tooManyEntries "method parameters")
  return parameters.foldl (fun output entry => (output.u16 entry.1).u16 entry.2)
    (Output.empty.u8 count.toUInt8)

/-- The bytes of the exceptions. -/
def writeExceptions : List UInt16 → Draft Table Unit
  | [] => pure ()
  | index :: rest => do
      Draft.tryChange (Table.add "exceptions" (.ofU16 index))
      writeExceptions rest

/-- Writes the annotations of the parameters. -/
def writeParameterAnnotations (kind : AttributeKind) (annotations : ParameterAnnotations) :
    Draft AttributeTable Unit := do
  if ! annotations.isEmpty then AttributeTable.add kind annotations.toOutput

/-- Writes the attributes of a finished method. -/
def writeAttributes (draft : MethodDraft) (major : UInt16) : Draft AttributeTable Unit := do
  if let some code := draft.code? then
    AttributeTable.add .code (← code.write draft.name)
  AttributeTable.addTable .exceptions
    (← CodeDraft.written {} (writeExceptions draft.exceptions))
  AttributeTable.addCommon draft.access major draft.signature?
  draft.annotations.writePlain
  writeParameterAnnotations .runtimeVisibleParameterAnnotations draft.visibleParameters
  writeParameterAnnotations .runtimeInvisibleParameterAnnotations draft.invisibleParameters
  draft.annotations.writeTypes
  if let some values := draft.default? then
    AttributeTable.add .annotationDefault (values.write .empty)
  if ! draft.parameters.isEmpty then
    AttributeTable.add .methodParameters (← parameterTable draft.parameters.reverse)
  draft.annotations.writeCustom

/-- The bytes of a finished method. -/
def write {σ : Type} (draft : MethodDraft) (major : UInt16) : Draft σ Output := do
  let attributes ← CodeDraft.written {} (writeAttributes draft major)
  return attributes.table.write
    (.ofU16s [Access.stored draft.access major, draft.nameIndex, draft.descriptor])

end MethodDraft

end ClassFile
