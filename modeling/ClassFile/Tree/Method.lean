import ClassFile.Tree.Member

/-!
# Methods

A `MethodTree` is a method with its code as a list of instructions.  It is made from the items that
tell about a method, in whatever order they come, and told again in the usual order: parameters, the
default value, annotations, attributes, and then the code, if there is any.

An annotation of an instruction stands on the last real instruction before it; where there is none
it is dropped.  An annotation of a handler stands on the handler that its target names or, where it
names none, on the last one; where that handler does not exist it is dropped.
-/

namespace ClassFile

/-- An element of a body together with its type annotations. -/
structure InstructionTree where
  instruction : Instruction
  typeAnnotations : List TypeAnnotationTree := []
  deriving Inhabited

namespace InstructionTree

/-- The elements of a body that items tell about, and before them the annotations that belong to an
instruction in front of these items. -/
def gather (item : Item) (after : List TypeAnnotationTree × List InstructionTree) :
    List TypeAnnotationTree × List InstructionTree :=
  match item with
  | .event (.methodItem (.instruction instruction)) =>
      if instruction.isReal then ([], ⟨instruction, after.1⟩ :: after.2)
      else (after.1, ⟨instruction, []⟩ :: after.2)
  | .scope (.annotateInstruction use) body =>
      (⟨use, Element.ofItems body⟩ :: after.1, after.2)
  | _ => after

/-- The elements of a body that items tell about. -/
def ofItems (items : List Item) : List InstructionTree :=
  (items.foldr gather ([], [])).2

/-- What is told about an element of a body. -/
def script (api : Api) (tree : InstructionTree) : Script :=
  match api.requireFor tree.instruction.usesDynamicConstant "dynamic constants" .v7 with
  | .error cause => [.fault cause]
  | .ok _ =>
      .event (.methodItem (.instruction tree.instruction)) ::
        (TypeAnnotationTree.script .annotateInstruction tree.typeAnnotations).since .v5 api

/-- Fails where a consumer is too old for the element. -/
def check (tree : InstructionTree) (api : Api) : Except ClassError Unit := do
  api.requireFor (! tree.typeAnnotations.isEmpty) "instruction annotations" .v5
  api.requireFor tree.instruction.usesDynamicConstant "dynamic constants" .v7

end InstructionTree

/-- An exception handler. -/
structure HandlerTree where
  block : TryCatch
  typeAnnotations : List TypeAnnotationTree := []
  deriving Inhabited

namespace HandlerTree

/-- The position of the handler that a type annotation stands on, among `count` of them. -/
def position (target : TypeTarget) (count : Nat) : Nat :=
  match target with
  | .exceptionParameter block => block.toNat
  | _ => count - 1

/-- The handlers with one more item understood. -/
def gather (handlers : Array HandlerTree) (item : Item) : Array HandlerTree :=
  match item with
  | .event (.methodItem (.tryCatch block)) => handlers.push ⟨block, []⟩
  | .scope (.annotateTryCatch use) body =>
      handlers.modify (position use.target handlers.size) fun handler =>
        { handler with
          typeAnnotations := handler.typeAnnotations ++ [⟨use, Element.ofItems body⟩] }
  | _ => handlers

/-- The handlers that items tell about. -/
def ofItems (items : List Item) : List HandlerTree :=
  (items.foldl gather #[]).toList

/-- What is told about handlers, and then about their annotations. -/
def script (api : Api) (handlers : List HandlerTree) : Script :=
  handlers.map (fun handler => .event (.methodItem (.tryCatch handler.block))) ++
    Script.since
      (handlers.flatMap fun handler =>
        TypeAnnotationTree.script .annotateTryCatch handler.typeAnnotations)
      .v5 api

end HandlerTree

/-- A type annotation of a local variable. -/
structure LocalAnnotationTree where
  use : TypeUse
  ranges : List LabelRange
  elements : List Element
  deriving Inhabited

namespace LocalAnnotationTree

/-- The annotation of a local variable that an item tells about. -/
def ofItem? : Item → Option LocalAnnotationTree
  | .scope (.annotateLocal use ranges) body => some ⟨use, ranges, Element.ofItems body⟩
  | _ => none

/-- What is told about an annotation of a local variable. -/
def item (tree : LocalAnnotationTree) : Item :=
  .scope (.annotateLocal tree.use tree.ranges) (Element.items tree.elements)

end LocalAnnotationTree

/-- An annotation of a parameter. -/
structure ParameterAnnotationTree where
  parameter : UInt8
  descriptor : Text
  visible : Bool
  elements : List Element
  deriving Inhabited

namespace ParameterAnnotationTree

/-- The annotation of a parameter that an item tells about. -/
def ofItem? : Item → Option ParameterAnnotationTree
  | .scope (.annotateParameter parameter descriptor visible) body =>
      some ⟨parameter, descriptor, visible, Element.ofItems body⟩
  | _ => none

/-- What is told about an annotation of a parameter. -/
def item (tree : ParameterAnnotationTree) : Item :=
  .scope (.annotateParameter tree.parameter tree.descriptor tree.visible)
    (Element.items tree.elements)

/-- What is told about the annotations of parameters that are visible or not: for how many
parameters there are annotations, if that is known, and the annotations parameter by parameter. -/
def script (visible : Bool) (count? : Option UInt8) (trees : List ParameterAnnotationTree) :
    Script :=
  let chosen := trees.filter fun tree => tree.visible == visible
  count?.toList.map
      (fun count => .event (.methodItem (.annotableParameterCount count visible))) ++
    (chosen.mergeSort fun first second => decide (first.parameter ≤ second.parameter)).map item

end ParameterAnnotationTree

/-- A method. -/
structure MethodTree where
  header : MethodHeader
  parameters : List Parameter := []
  /-- The default value of an annotation element. -/
  default? : Option Element := none
  attachments : Attachments := {}
  visibleParameterCount? : Option UInt8 := none
  invisibleParameterCount? : Option UInt8 := none
  parameterAnnotations : List ParameterAnnotationTree := []
  instructions : List InstructionTree := []
  handlers : List HandlerTree := []
  localVariables : List LocalVariable := []
  localAnnotations : List LocalAnnotationTree := []
  maxStack : UInt16 := 0
  maxLocals : UInt16 := 0
  deriving Inhabited

namespace MethodTree

/-- The event of a method scope. -/
def methodItem? : Item → Option MethodItem
  | .event (.methodItem item) => some item
  | _ => none

/-- The contents of the scope of a default value. -/
def defaultBody : Item → List Item
  | .scope .annotationDefault body => body
  | _ => []

/-- For how many parameters there are annotations, as told last. -/
def parameterCount? (visible : Bool) (events : List MethodItem) : Option UInt8 :=
  (events.filterMap fun
    | .annotableParameterCount count of => if of == visible then some count else none
    | _ => none).getLast?

/-- The sizes of stack and locals, as told last. -/
def maxs (events : List MethodItem) : UInt16 × UInt16 :=
  ((events.filterMap fun
    | .maxs stack locals => some (stack, locals)
    | _ => none).getLast?).getD (0, 0)

/-- The method with the given head whose scope holds the given items. -/
def ofItems (header : MethodHeader) (items : List Item) : MethodTree :=
  let events := items.filterMap methodItem?
  { header
    parameters := events.filterMap fun
      | .parameter parameter => some parameter
      | _ => none
    default? := (Element.singlesOfItems (items.flatMap defaultBody)).getLast?
    attachments := .ofItems items
    visibleParameterCount? := parameterCount? true events
    invisibleParameterCount? := parameterCount? false events
    parameterAnnotations := items.filterMap ParameterAnnotationTree.ofItem?
    instructions := InstructionTree.ofItems items
    handlers := HandlerTree.ofItems items
    localVariables := events.filterMap fun
      | .localVariable entry => some entry
      | _ => none
    localAnnotations := items.filterMap LocalAnnotationTree.ofItem?
    maxStack := (maxs events).1
    maxLocals := (maxs events).2 }

/-- The method that an item tells about. -/
def ofItem? : Item → Option MethodTree
  | .scope (.method header) body => some (ofItems header body)
  | _ => none

/-- Whether the method has code. -/
def hasCode (tree : MethodTree) : Bool :=
  ! tree.instructions.isEmpty

/-- What is told about the code. -/
def codeScript (api : Api) (tree : MethodTree) : Script :=
  [.event (.methodItem .code)] ++
    HandlerTree.script api tree.handlers ++
    tree.instructions.flatMap (InstructionTree.script api) ++
    tree.localVariables.map (fun entry => .event (.methodItem (.localVariable entry))) ++
    Script.since
      ((visibleFirst (·.use.visible) tree.localAnnotations).map LocalAnnotationTree.item)
      .v5 api ++
    Attribute.script (tree.attachments.attributes.filter (·.inCode)) ++
    [.event (.methodItem (.maxs tree.maxStack tree.maxLocals))]

/-- What is told inside the scope of the method, to a consumer of the given version. -/
def script (api : Api) (tree : MethodTree) : Script :=
  Script.since
      (tree.parameters.map fun parameter => .event (.methodItem (.parameter parameter)))
      .v5 api ++
    (tree.default?.toList.map fun element => .scope .annotationDefault [element.item]) ++
    tree.attachments.annotationScript ++
    tree.attachments.typeAnnotationScript.since .v5 api ++
    ParameterAnnotationTree.script true tree.visibleParameterCount? tree.parameterAnnotations ++
    ParameterAnnotationTree.script false tree.invisibleParameterCount? tree.parameterAnnotations ++
    Attribute.script (tree.attachments.attributes.filter fun entry => ! entry.inCode) ++
    if tree.hasCode then tree.codeScript api else []

/-- What is told about a method to a consumer of the given version. -/
def item (api : Api) (tree : MethodTree) : Item :=
  .scope (.method tree.header) (tree.script api)

/-- Whether there is a type annotation on the method, a handler or a local variable. -/
def hasTypeAnnotations (tree : MethodTree) : Bool :=
  ! tree.attachments.typeAnnotations.isEmpty || ! tree.localAnnotations.isEmpty ||
    tree.handlers.any fun handler => ! handler.typeAnnotations.isEmpty

/-- Fails with the first construct that a consumer of the given version does not know. -/
def check (tree : MethodTree) (api : Api) : Except ClassError Unit := do
  api.requireFor (! tree.parameters.isEmpty) "parameters" .v5
  api.requireFor tree.hasTypeAnnotations "type annotations" .v5
  tree.instructions.forM fun element => element.check api

end MethodTree

end ClassFile
