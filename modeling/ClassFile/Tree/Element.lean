import ClassFile.Script

/-!
# Values of annotations

An `Element` is a value of an annotation with everything inside it.  `Element.ofItem?` understands
what a script tells about a value, and `Element.item` tells it again.
-/

namespace ClassFile

/-- A value of an annotation or array.  Values of an array have no name. -/
inductive Element where
  | constant (name? : Option Text) (value : AnnotationConstant)
  | enumeration (name? : Option Text) (descriptor value : Text)
  | nested (name? : Option Text) (descriptor : Text) (elements : List Element)
  | array (name? : Option Text) (elements : List Element)
  deriving Inhabited

namespace Element

/-- The name that a value keeps: where values have names, one that was told none has the standard
name; elsewhere none has a name. -/
def keptName (named : Bool) (name? : Option Text) : Option Text :=
  if named then some (name?.getD ElementItem.standardName) else none

mutual

/-- The value that an item tells about, none if it tells about something else. -/
def ofItem? (named : Bool) : Item → Option Element
  | .event (.element (.constant name? value)) => some (.constant (keptName named name?) value)
  | .event (.element (.enumeration name? descriptor value)) =>
      some (.enumeration (keptName named name?) descriptor value)
  | .scope (.nested name? descriptor) body =>
      some (.nested (keptName named name?) descriptor (ofItemsAfter true [] body))
  | .scope (.array name?) body =>
      some (.array (keptName named name?) (ofItemsAfter false [] body))
  | _ => none

/-- The values that items tell about, behind those of `found`, which are last first. -/
def ofItemsAfter (named : Bool) (found : List Element) : List Item → List Element
  | [] => found.reverse
  | item :: rest =>
      match ofItem? named item with
      | some element => ofItemsAfter named (element :: found) rest
      | none => ofItemsAfter named found rest

end

/-- The named values that items tell about. -/
def ofItems (items : List Item) : List Element :=
  ofItemsAfter true [] items

/-- The single values that items tell about. -/
def singlesOfItems (items : List Item) : List Element :=
  ofItemsAfter false [] items

mutual

/-- What is told about a value. -/
def item : Element → Item
  | .constant name? value => .event (.element (.constant name? value))
  | .enumeration name? descriptor value => .event (.element (.enumeration name? descriptor value))
  | .nested name? descriptor elements => .scope (.nested name? descriptor) (itemsAfter [] elements)
  | .array name? elements => .scope (.array name?) (itemsAfter [] elements)

/-- What is told about values, behind the items of `told`, which are last first. -/
def itemsAfter (told : List Item) : List Element → List Item
  | [] => told.reverse
  | element :: rest => itemsAfter (element.item :: told) rest

end

/-- What is told about values. -/
def items (elements : List Element) : Script :=
  itemsAfter [] elements

end Element

end ClassFile
