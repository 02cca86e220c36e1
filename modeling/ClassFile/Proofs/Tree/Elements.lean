import ClassFile.Tree.Element

/-!
# Values that are told again

A value of an annotation that has a name where names belong, and none where they don't, is told again by
the tree as it was told before.
-/

namespace ClassFile

namespace Element

@[simp]
theorem itemsAfter_eq (told : List Item) (elements : List Element) :
    itemsAfter told elements = told.reverse ++ elements.map item := by
  induction elements generalizing told with
  | nil => simp [itemsAfter]
  | cons element rest ih => simp [itemsAfter, ih]

@[simp]
theorem items_eq_map (elements : List Element) : items elements = elements.map item := by
  simp [items]

@[simp]
theorem ofItemsAfter_eq (named : Bool) (found : List Element) (items : List Item) :
    ofItemsAfter named found items = found.reverse ++ items.filterMap (ofItem? named) := by
  induction items generalizing found with
  | nil => simp [ofItemsAfter]
  | cons item rest ih =>
      cases understood : ofItem? named item with
      | none => simp [ofItemsAfter, understood, ih]
      | some element => simp [ofItemsAfter, understood, ih]

@[simp]
theorem ofItems_eq_filterMap (items : List Item) : ofItems items = items.filterMap (ofItem? true) := by
  simp [ofItems]

@[simp]
theorem singlesOfItems_eq_filterMap (items : List Item) :
    singlesOfItems items = items.filterMap (ofItem? false) := by
  simp [singlesOfItems]

@[simp]
theorem keptName_isSome (name? : Option Text) : keptName name?.isSome name? = name? := by
  cases name? <;> rfl

end Element

namespace Item

open Element

/-- Whether an item tells about a value, with a name or without, that is told again as it was. -/
def IsElement (named : Bool) (item : Item) : Prop :=
  ∃ element, ofItem? named item = some element ∧ element.item = item

theorem map_item_filterMap {named : Bool} {body : List Item}
    (elements : ∀ item ∈ body, item.IsElement named) :
    (body.filterMap (ofItem? named)).map Element.item = body := by
  induction body with
  | nil => rfl
  | cons item rest ih =>
      rw [List.forall_mem_cons] at elements
      rcases elements with ⟨⟨element, understood, again⟩, others⟩
      simp [understood, again, ih others]

theorem isElement_constant (name? : Option Text) (value : AnnotationConstant) :
    (Item.event (.element (.constant name? value))).IsElement name?.isSome :=
  ⟨_, rfl, by simp [Element.item]⟩

theorem isElement_enumeration (name? : Option Text) (descriptor value : Text) :
    (Item.event (.element (.enumeration name? descriptor value))).IsElement name?.isSome :=
  ⟨_, rfl, by simp [Element.item]⟩

theorem isElement_nested (name? : Option Text) (descriptor : Text) {body : List Item}
    (elements : ∀ item ∈ body, item.IsElement true) :
    (Item.scope (.nested name? descriptor) body).IsElement name?.isSome :=
  ⟨_, rfl, by simp [Element.item, map_item_filterMap elements]⟩

theorem isElement_array (name? : Option Text) {body : List Item}
    (elements : ∀ item ∈ body, item.IsElement false) :
    (Item.scope (.array name?) body).IsElement name?.isSome :=
  ⟨_, rfl, by simp [Element.item, map_item_filterMap elements]⟩

/-- Whether the values in the scope of an annotation are told again as they were, a source names anything
at all, and the annotation of a handler is one of an exception parameter. -/
def Keeps : Item → Prop
  | .event (.classItem (.source file? debug?)) => file?.isSome ∨ debug?.isSome
  | .scope .annotationDefault body => ∃ item, body = [item] ∧ item.IsElement false
  | .scope (.annotateTryCatch use) body =>
      (∃ block, use.target = .exceptionParameter block) ∧ ∀ item ∈ body, item.IsElement true
  | .scope _ body => ∀ item ∈ body, item.IsElement true
  | _ => True

end Item

end ClassFile
