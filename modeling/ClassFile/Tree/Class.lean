import ClassFile.Tree.Method
import ClassFile.Tree.Module

/-!
# Classes

A `ClassTree` is a class as a whole, made from the script that tells about it and told again in the
usual order.  A script may leave out constructs that its listener does not know; `ClassTree.check`
says beforehand whether it will.
-/

namespace ClassFile

/-- The member of a class that encloses the class: its class and, if it is a method, its name and
descriptor. -/
structure EnclosingMember where
  owner : Text
  name? : Option Text
  descriptor? : Option Text
  deriving DecidableEq, Inhabited

/-- The head of a class whose head was never told. -/
def ClassHeader.untold : ClassHeader :=
  ⟨.standard, 0, .empty, none, none, []⟩

/-- A class. -/
structure ClassTree where
  header : ClassHeader := .untold
  sourceFile? : Option Text := none
  sourceDebug? : Option Text := none
  module? : Option ModuleTree := none
  nestHost? : Option Text := none
  enclosing? : Option EnclosingMember := none
  attachments : Attachments := {}
  nestMembers : List Text := []
  permittedSubclasses : List Text := []
  innerClasses : List InnerClass := []
  components : List ComponentTree := []
  fields : List FieldTree := []
  methods : List MethodTree := []
  deriving Inhabited

namespace ClassTree

/-- The event of the class scope. -/
def classItem? : Item → Option ClassItem
  | .event (.classItem item) => some item
  | _ => none

/-- The names of the source file and its debug text, as told last. -/
def sources (events : List ClassItem) : Option Text × Option Text :=
  ((events.filterMap fun
    | .source file? debug? => some (file?, debug?)
    | _ => none).getLast?).getD (none, none)

/-- The class that a script tells about.  Of what a class has only once the last told counts, and a
class whose head was never told has no name. -/
def ofScript (script : Script) : ClassTree :=
  let events := script.filterMap classItem?
  { header := ((events.filterMap fun
      | .header header => some header
      | _ => none).getLast?).getD .untold
    sourceFile? := (sources events).1
    sourceDebug? := (sources events).2
    module? := (script.filterMap ModuleTree.ofItem?).getLast?
    nestHost? := (events.filterMap fun
      | .nestHost name => some name
      | _ => none).getLast?
    enclosing? := (events.filterMap fun
      | .outerClass owner name? descriptor? => some ⟨owner, name?, descriptor?⟩
      | _ => none).getLast?
    attachments := .ofItems script
    nestMembers := events.filterMap fun
      | .nestMember name => some name
      | _ => none
    permittedSubclasses := events.filterMap fun
      | .permittedSubclass name => some name
      | _ => none
    innerClasses := events.filterMap fun
      | .innerClass entry => some entry
      | _ => none
    components := script.filterMap ComponentTree.ofItem?
    fields := script.filterMap FieldTree.ofItem?
    methods := script.filterMap MethodTree.ofItem? }

/-- What is told about events of the class scope. -/
def tellAll (events : List ClassItem) : Script :=
  events.map fun event => .event (.classItem event)

/-- The event that tells where the class comes from, unless nothing is known. -/
def sourceEvents (tree : ClassTree) : List ClassItem :=
  if tree.sourceFile?.isSome || tree.sourceDebug?.isSome then
    [.source tree.sourceFile? tree.sourceDebug?]
  else []

/-- What is told about a class to a consumer of version `api` whose fields and methods are told to
consumers of version `memberApi`. -/
def script (api memberApi : Api) (tree : ClassTree) : Script :=
  tellAll (.header tree.header :: tree.sourceEvents) ++
    Script.since (tree.module?.toList.map ModuleTree.item) .v6 api ++
    (tellAll (tree.nestHost?.toList.map .nestHost)).since .v7 api ++
    tellAll (tree.enclosing?.toList.map fun enclosing =>
      .outerClass enclosing.owner enclosing.name? enclosing.descriptor?) ++
    tree.attachments.annotationScript ++
    tree.attachments.typeAnnotationScript.since .v5 api ++
    tree.attachments.attributeScript ++
    (tellAll (tree.nestMembers.map .nestMember)).since .v7 api ++
    (tellAll (tree.permittedSubclasses.map .permittedSubclass)).since .v9 api ++
    tellAll (tree.innerClasses.map .innerClass) ++
    Script.since (tree.components.map ComponentTree.item) .v8 api ++
    tree.fields.map (FieldTree.item memberApi) ++
    tree.methods.map (MethodTree.item memberApi) ++
    [.event .finish]

/-- Fails with the first construct, in the order of the script, that a consumer of the given version
does not know. -/
def check (tree : ClassTree) (api : Api) : Except ClassError Unit := do
  api.requireFor tree.module?.isSome "module" .v6
  api.requireFor tree.nestHost?.isSome "nest host" .v7
  tree.attachments.check api
  api.requireFor (! tree.nestMembers.isEmpty) "nest members" .v7
  api.requireFor (! tree.permittedSubclasses.isEmpty) "permitted subclasses" .v9
  api.requireFor (! tree.components.isEmpty) "record components" .v8
  tree.fields.forM fun field => field.attachments.check api
  tree.methods.forM fun method => method.check api

end ClassTree

end ClassFile
