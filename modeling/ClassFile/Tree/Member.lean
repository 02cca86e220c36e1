import ClassFile.Tree.Element

/-!
# Annotated members

What a class, a field, a record component and a method have in common are their `Attachments`:
annotations, type annotations and attributes that the format does not define.  Whatever the order in
which they were told, the annotations that are visible at run time are told first.
-/

namespace ClassFile

/-- The visible ones first, and each group in its order. -/
def visibleFirst {α : Type} (visible : α → Bool) (entries : List α) : List α :=
  entries.filter visible ++ entries.filter fun entry => ! visible entry

/-- What is told to a consumer that understands constructs of `required`, and nothing to others. -/
def Script.since (script : Script) (required api : Api) : Script :=
  if api.supports required then script else []

/-- An annotation of a class or member. -/
structure AnnotationTree where
  descriptor : Text
  visible : Bool
  elements : List Element
  deriving Inhabited

namespace AnnotationTree

/-- The annotation that an item tells about. -/
def ofItem? : Item → Option AnnotationTree
  | .scope (.annotate descriptor visible) body => some ⟨descriptor, visible, Element.ofItems body⟩
  | _ => none

/-- What is told about an annotation. -/
def item (tree : AnnotationTree) : Item :=
  .scope (.annotate tree.descriptor tree.visible) (Element.items tree.elements)

end AnnotationTree

/-- A type annotation. -/
structure TypeAnnotationTree where
  use : TypeUse
  elements : List Element
  deriving Inhabited

namespace TypeAnnotationTree

/-- The type annotation of a class or member that an item tells about. -/
def ofItem? : Item → Option TypeAnnotationTree
  | .scope (.annotateType use) body => some ⟨use, Element.ofItems body⟩
  | _ => none

/-- What is told about a type annotation whose scope has the given sort of head. -/
def item (opening : TypeUse → Opening) (tree : TypeAnnotationTree) : Item :=
  .scope (opening tree.use) (Element.items tree.elements)

/-- What is told about type annotations whose scopes have the given sort of head. -/
def script (opening : TypeUse → Opening) (trees : List TypeAnnotationTree) : Script :=
  (visibleFirst (·.use.visible) trees).map (item opening)

end TypeAnnotationTree

/-- The attribute that an item tells about. -/
def Attribute.ofItem? : Item → Option Attribute
  | .event (.attribute entry) => some entry
  | _ => none

/-- What is told about attributes. -/
def Attribute.script (entries : List Attribute) : Script :=
  entries.map fun entry => .event (.attribute entry)

/-- What stands on a class or member besides what makes it up. -/
structure Attachments where
  annotations : List AnnotationTree := []
  typeAnnotations : List TypeAnnotationTree := []
  attributes : List Attribute := []
  deriving Inhabited

namespace Attachments

/-- The attachments that the items of a scope tell about. -/
def ofItems (items : List Item) : Attachments where
  annotations := items.filterMap AnnotationTree.ofItem?
  typeAnnotations := items.filterMap TypeAnnotationTree.ofItem?
  attributes := items.filterMap Attribute.ofItem?

/-- What is told about the annotations. -/
def annotationScript (attachments : Attachments) : Script :=
  (visibleFirst (·.visible) attachments.annotations).map AnnotationTree.item

/-- What is told about the type annotations. -/
def typeAnnotationScript (attachments : Attachments) : Script :=
  TypeAnnotationTree.script .annotateType attachments.typeAnnotations

/-- What is told about the attributes. -/
def attributeScript (attachments : Attachments) : Script :=
  Attribute.script attachments.attributes

/-- Fails where a consumer is too old for the type annotations. -/
def check (attachments : Attachments) (api : Api) : Except ClassError Unit :=
  api.requireFor (! attachments.typeAnnotations.isEmpty) "type annotations" .v5

end Attachments

/-- A record component. -/
structure ComponentTree where
  header : ComponentHeader
  attachments : Attachments := {}
  deriving Inhabited

namespace ComponentTree

/-- The record component that an item tells about. -/
def ofItem? : Item → Option ComponentTree
  | .scope (.component header) body => some ⟨header, .ofItems body⟩
  | _ => none

/-- What is told about a record component.  Whoever knows record components knows type annotations
as well. -/
def item (tree : ComponentTree) : Item :=
  .scope (.component tree.header)
    (tree.attachments.annotationScript ++ tree.attachments.typeAnnotationScript ++
      tree.attachments.attributeScript)

end ComponentTree

/-- A field. -/
structure FieldTree where
  header : FieldHeader
  attachments : Attachments := {}
  deriving Inhabited

namespace FieldTree

/-- The field that an item tells about. -/
def ofItem? : Item → Option FieldTree
  | .scope (.field header) body => some ⟨header, .ofItems body⟩
  | _ => none

/-- What is told about a field to a consumer of the given version. -/
def item (api : Api) (tree : FieldTree) : Item :=
  .scope (.field tree.header)
    (tree.attachments.annotationScript ++ tree.attachments.typeAnnotationScript.since .v5 api ++
      tree.attachments.attributeScript)

end FieldTree

end ClassFile
