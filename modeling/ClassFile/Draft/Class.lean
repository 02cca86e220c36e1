import ClassFile.Draft.Members
import ClassFile.Image

/-!
# Drafts of classes

`ClassDraft.writer` is the consumer that writes the class it is told, and `ClassDraft.write` puts
the file together.  The pool stands in front of everything that refers to it, so the file can be
written only when everything else is known.

The draft holds at most one open member and, inside it or the class, one open annotation.
-/

namespace ClassFile

/-- A module declaration that is being written. -/
structure ModuleDraft where
  name : UInt16
  access : UInt16
  version : UInt16
  requires : Table := {}
  exports : Table := {}
  opens : Table := {}
  uses : Table := {}
  provides : Table := {}
  packages? : Option Table := none
  mainClass? : Option UInt16 := none
  deriving Inhabited

namespace ModuleDraft

/-- Starts a module declaration. -/
def begin {σ : Type} (header : ModuleHeader) : Draft σ ModuleDraft := do
  let name ← Draft.pooled (PoolBuilder.moduleRef header.name)
  let version ← Draft.pooledIfPresent PoolBuilder.text header.version?
  return { name, access := header.access, version }

/-- Adds modules to the pool, and gives their indices behind those of `found`, last first. -/
def moduleIndices {σ : Type} (found : List UInt16) : List Text → Draft σ (List UInt16)
  | [] => pure found.reverse
  | name :: rest => do
      let index ← Draft.pooled (PoolBuilder.moduleRef name)
      moduleIndices (index :: found) rest

/-- Indices behind their number, of which the low two bytes are written. -/
def counted (indices : List UInt16) : List UInt16 :=
  indices.length.toUInt16 :: indices

/-- The entry for a package that is exported or opened. -/
def relation {σ : Type} (entry : Relation) : Draft σ Output := do
  let package ← Draft.pooled (PoolBuilder.packageRef entry.package)
  let modules ← moduleIndices [] entry.modules
  return .ofU16s (package :: entry.access :: counted modules)

/-- Records an event of the module scope. -/
def item : ModuleItem → Draft ModuleDraft Unit
  | .mainClass name => do
      let index ← Draft.pooled (PoolBuilder.classRef name)
      Draft.change fun draft => { draft with mainClass? := some index }
  | .package name => do
      let index ← Draft.pooled (PoolBuilder.packageRef name)
      Draft.tryChange fun draft =>
        return { draft with
          packages? := some (← (draft.packages?.getD {}).add "packages" (.ofU16 index)) }
  | .requires entry => do
      let name ← Draft.pooled (PoolBuilder.moduleRef entry.name)
      let version ← Draft.pooledIfPresent PoolBuilder.text entry.version?
      let bytes := Output.ofU16s [name, entry.access, version]
      Draft.tryChange fun draft =>
        return { draft with requires := ← draft.requires.add "requires" bytes }
  | .exports entry => do
      let bytes ← relation entry
      Draft.tryChange fun draft =>
        return { draft with exports := ← draft.exports.add "exports" bytes }
  | .opens entry => do
      let bytes ← relation entry
      Draft.tryChange fun draft =>
        return { draft with opens := ← draft.opens.add "opens" bytes }
  | .uses service => do
      let index ← Draft.pooled (PoolBuilder.classRef service)
      Draft.tryChange fun draft =>
        return { draft with uses := ← draft.uses.add "uses" (.ofU16 index) }
  | .provides entry => do
      let service ← Draft.pooled (PoolBuilder.classRef entry.service)
      let providers ← MethodDraft.classIndices [] entry.providers
      let bytes := Output.ofU16s (service :: counted providers)
      Draft.tryChange fun draft =>
        return { draft with provides := ← draft.provides.add "provides" bytes }

/-- Writes the attributes of the module declaration. -/
def writeAttributes (draft : ModuleDraft) : Draft AttributeTable Unit := do
  let tables := [draft.requires, draft.exports, draft.opens, draft.uses, draft.provides]
  AttributeTable.add .moduleDeclaration
    (tables.foldl (fun output table => table.write output)
      (.ofU16s [draft.name, draft.access, draft.version]))
  AttributeTable.addOptional .modulePackages draft.packages?
  AttributeTable.addIndex .moduleMainClass draft.mainClass?

end ModuleDraft

/-- A member that is open. -/
inductive MemberDraft where
  | none
  | moduleScope
  | component (draft : ComponentDraft)
  | field (draft : FieldDraft)
  | method (draft : MethodDraft)
  deriving Inhabited

/-- A class that is being written. -/
structure ClassDraft where
  version : FormatVersion := .standard
  access : UInt32 := 0
  thisClass : UInt16 := 0
  superClass : UInt16 := 0
  interfaces : List UInt16 := []
  signature? : Option UInt16 := none
  sourceFile? : Option UInt16 := none
  sourceDebug? : Option Output := none
  module? : Option ModuleDraft := none
  nestHost? : Option UInt16 := none
  enclosingMethod? : Option (UInt16 × UInt16) := none
  annotations : AnnotationTables := {}
  nestMembers? : Option Table := none
  permittedSubclasses? : Option Table := none
  innerClasses? : Option Table := none
  components : Table := {}
  fields : Table := {}
  methods : Table := {}
  member : MemberDraft := .none
  /-- The annotation that is open and where it belongs. -/
  annotation? : Option (AnnotationPlace × AnnotationDraft) := none
  deriving Inhabited

namespace ClassDraft

/-- Writes in the open module declaration. -/
def inModule (write : Draft ModuleDraft Unit) : Draft ClassDraft Unit := do
  match ← Draft.look (·.module?) with
  | none => pure ()
  | some module =>
      Draft.within (fun _ => module) (fun part draft => { draft with module? := some part }) write

/-- Writes in the open method. -/
def inMethod (write : Draft MethodDraft Unit) : Draft ClassDraft Unit := do
  match ← Draft.look (·.member) with
  | .method method =>
      Draft.within (fun _ => method) (fun part draft => { draft with member := .method part })
        write
  | _ => pure ()

/-- Writes in the open annotation. -/
def inAnnotation (write : Draft AnnotationDraft Unit) : Draft ClassDraft Unit := do
  match ← Draft.look (·.annotation?) with
  | none => pure ()
  | some (place, annotation) =>
      Draft.within (fun _ => annotation)
        (fun part draft => { draft with annotation? := some (place, part) }) write

/-- Records the head of the class. -/
def header (head : ClassHeader) : Draft ClassDraft Unit := do
  Draft.change fun draft => { draft with version := head.version, access := head.access }
  let thisClass ← Draft.pooled (PoolBuilder.classRef head.name)
  Draft.change fun draft => { draft with thisClass }
  let signature? ← CodeDraft.signatureIndex? head.signature?
  Draft.change fun draft => { draft with signature? }
  let superClass ← Draft.pooledIfPresent PoolBuilder.classRef head.super?
  Draft.change fun draft => { draft with superClass }
  if 65535 < head.interfaces.length then failure (.tooManyEntries "interfaces")
  let interfaces ← MethodDraft.classIndices [] head.interfaces
  Draft.change fun draft => { draft with interfaces }

/-- Records an event of the class scope. -/
def item : ClassItem → Draft ClassDraft Unit
  | .header head => header head
  | .source file? debug? => do
      if let some file := file? then
        let index ← Draft.pooled (PoolBuilder.text file)
        Draft.change fun draft => { draft with sourceFile? := some index }
      if let some debug := debug? then
        let bytes := Output.empty.bytes debug.encode
        Draft.change fun draft => { draft with sourceDebug? := some bytes }
  | .nestHost name => do
      let index ← Draft.pooled (PoolBuilder.classRef name)
      Draft.change fun draft => { draft with nestHost? := some index }
  | .outerClass owner name? descriptor? => do
      let owner ← Draft.pooled (PoolBuilder.classRef owner)
      let method ← match name?, descriptor? with
        | some name, some descriptor =>
            Draft.pooled (PoolBuilder.nameAndType name descriptor)
        | _, _ => pure 0
      Draft.change fun draft => { draft with enclosingMethod? := some (owner, method) }
  | .nestMember name => do
      let index ← Draft.pooled (PoolBuilder.classRef name)
      Draft.tryChange fun draft =>
        return { draft with
          nestMembers? :=
            some (← (draft.nestMembers?.getD {}).add "nest members" (.ofU16 index)) }
  | .permittedSubclass name => do
      let index ← Draft.pooled (PoolBuilder.classRef name)
      Draft.tryChange fun draft =>
        return { draft with
          permittedSubclasses? :=
            some (← (draft.permittedSubclasses?.getD {}).add "permitted subclasses"
              (.ofU16 index)) }
  | .innerClass entry => do
      let name ← Draft.pooled (PoolBuilder.classRef entry.name)
      let outer ← Draft.pooledIfPresent PoolBuilder.classRef entry.outer?
      let inner ← Draft.pooledIfPresent PoolBuilder.text entry.inner?
      let bytes := Output.ofU16s [name, outer, inner, entry.access]
      Draft.tryChange fun draft =>
        return { draft with
          innerClasses? := some (← (draft.innerClasses?.getD {}).add "inner classes" bytes) }

/-- Records an attribute of the class or of the open member. -/
def addAttribute (entry : Attribute) (draft : ClassDraft) : ClassDraft :=
  match draft.member with
  | .none => { draft with annotations := draft.annotations.addAttribute entry }
  | .moduleScope => draft
  | .component part =>
      { draft with
        member := .component { part with annotations := part.annotations.addAttribute entry } }
  | .field part =>
      { draft with
        member := .field { part with annotations := part.annotations.addAttribute entry } }
  | .method part => { draft with member := .method (part.addAttribute entry) }

/-- Replaces the annotations of the class, or of the open field or record component. -/
def setAnnotations (tables : AnnotationTables) (draft : ClassDraft) : ClassDraft :=
  match draft.member with
  | .component part => { draft with member := .component { part with annotations := tables } }
  | .field part => { draft with member := .field { part with annotations := tables } }
  | _ => { draft with annotations := tables }

/-- The annotations of the class, or of the open field or record component. -/
def openAnnotations (draft : ClassDraft) : AnnotationTables :=
  match draft.member with
  | .component part => part.annotations
  | .field part => part.annotations
  | _ => draft.annotations

/-- Starts an annotation that is not one of a method. -/
def beginPlain : Opening → Draft ClassDraft (Option (AnnotationPlace × ElementList))
  | .annotate descriptor visible => do
      let place ← Draft.within openAnnotations setAnnotations
        (AnnotationTables.begin descriptor visible)
      return some (place, .namedValues)
  | .annotateType use => do
      let place ← Draft.within openAnnotations setAnnotations (AnnotationTables.beginType use)
      return some (place, .namedValues)
  | _ => return none

/-- Starts an annotation of the class or of the open member. -/
def beginAnnotation (opening : Opening) : Draft ClassDraft Unit := do
  let begun? ← match ← Draft.look (·.member) with
    | .method method =>
        Draft.within (fun _ => method) (fun part draft => { draft with member := .method part })
          (MethodDraft.beginAnnotation opening)
    | _ => beginPlain opening
  if let some (place, list) := begun? then
    Draft.change fun draft => { draft with annotation? := some (place, ⟨list, []⟩) }

/-- Opens a scope. -/
def enter : Opening → Draft ClassDraft Unit
  | .moduleScope head => do
      let part ← ModuleDraft.begin head
      Draft.change fun draft => { draft with module? := some part, member := .moduleScope }
  | .component head => do
      let part ← ComponentDraft.begin head
      Draft.change fun draft => { draft with member := .component part }
  | .field head => do
      let part ← FieldDraft.begin head
      Draft.change fun draft => { draft with member := .field part }
  | .method head => do
      let part ← MethodDraft.begin head
      Draft.change fun draft => { draft with member := .method part }
  | .nested name? descriptor => inAnnotation (AnnotationDraft.openNested name? descriptor)
  | .array name? => inAnnotation (AnnotationDraft.openArray name?)
  | opening => beginAnnotation opening

/-- The draft with the values of an annotation that was started before. -/
def keep (place : AnnotationPlace) (values : Output) (draft : ClassDraft) : ClassDraft :=
  match draft.member with
  | .method part => { draft with member := .method (part.keep place values) }
  | _ => draft.setAnnotations (draft.openAnnotations.keep place values)

/-- Adds the finished member to its table. -/
def finishMember : Draft ClassDraft Unit := do
  let major ← Draft.look (·.version.major)
  match ← Draft.look (·.member) with
  | .none | .moduleScope => pure ()
  | .component part =>
      let bytes ← part.write
      Draft.tryChange fun draft =>
        return { draft with components := ← draft.components.add "record components" bytes }
  | .field part =>
      let bytes ← part.write major
      Draft.tryChange fun draft =>
        return { draft with fields := ← draft.fields.add "fields" bytes }
  | .method part =>
      let bytes ← part.write major
      Draft.tryChange fun draft =>
        return { draft with methods := ← draft.methods.add "methods" bytes }

/-- Closes the innermost scope.  A member is added to its table only if it was finished; the values
of an annotation are kept in any case. -/
def exit (finished : Bool) : Draft ClassDraft Unit := do
  match ← Draft.look (·.annotation?) with
  | some (place, annotation) =>
      match annotation.closed? with
      | some around =>
          Draft.change fun draft => { draft with annotation? := some (place, around) }
      | none =>
          Draft.change fun draft =>
            { draft.keep place annotation.toOutput with annotation? := none }
  | none =>
      if finished then finishMember
      Draft.change fun draft => { draft with member := .none }

/-- Records an event. -/
def record : Event → Draft ClassDraft Unit
  | .enter opening => enter opening
  | .classItem part => item part
  | .moduleItem part => inModule (ModuleDraft.item part)
  | .element part => inAnnotation (AnnotationDraft.element part)
  | .methodItem part => inMethod (MethodDraft.item part)
  | .attribute entry => Draft.change (addAttribute entry)
  | .finish => exit true
  | .leave => exit false

/-- The consumer that writes the class it is told. -/
def writer : Consumer (ClassDraft × PoolBuilder) where
  step event := do
    record event
    return .entered

/-- Writes the attributes of the class. -/
def writeAttributes (draft : ClassDraft) : Draft AttributeTable Unit := do
  AttributeTable.addOptional .innerClasses draft.innerClasses?
  if let some (owner, method) := draft.enclosingMethod? then
    AttributeTable.add .enclosingMethod (.ofU16s [owner, method])
  AttributeTable.addCommon draft.access draft.version.major draft.signature?
  AttributeTable.addIndex .sourceFile draft.sourceFile?
  if let some debug := draft.sourceDebug? then
    AttributeTable.add .sourceDebugExtension debug
  draft.annotations.writePlain
  draft.annotations.writeTypes
  if let some module := draft.module? then module.writeAttributes
  AttributeTable.addIndex .nestHost draft.nestHost?
  AttributeTable.addOptional .nestMembers draft.nestMembers?
  AttributeTable.addOptional .permittedSubclasses draft.permittedSubclasses?
  if draft.access &&& Access.record != 0 || ! draft.components.isEmpty then
    AttributeTable.add .record draft.components.toOutput
  draft.annotations.writeCustom
  let pool := (← get).2
  if pool.bootstrapCount != 0 then
    AttributeTable.add .bootstrapMethods (pool.writeBootstraps .empty)

/-- Puts the file together. -/
def write : Draft ClassDraft Output := do
  let draft ← Draft.look id
  let attributes ← CodeDraft.written {} draft.writeAttributes
  let pool := (← get).2
  let major := draft.version.major
  let output := ((Output.empty.u32 ClassImage.magic).u16 draft.version.minor).u16 major
  let output := pool.write output
  let output := output.append (.ofU16s
    ([Access.stored draft.access major, draft.thisClass, draft.superClass] ++
      ModuleDraft.counted draft.interfaces))
  return attributes.table.write (draft.methods.write (draft.fields.write output))

end ClassDraft

end ClassFile
