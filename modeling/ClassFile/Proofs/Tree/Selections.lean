import ClassFile.Proofs.Story.Turns
import ClassFile.Proofs.Tree.Elements
import ClassFile.Tree.Class

/-!
# What a tree selects

A tree finds its parts in a script by their kinds.  Each kind has a turn of its own, so what is selected
and told again is the items of that turn, in their order.
-/

namespace ClassFile

open Item

/-- What is selected from one turn only and told again as it was is the items of that turn. -/
theorem map_filterMap_eq {α : Type} {select : Item → Option α} {retell : α → Item} {turn : Turn}
    {items : List Item}
    (here : ∀ item ∈ items, item.At turn → ∃ value, select item = some value ∧ retell value = item)
    (elsewhere : ∀ item value, select item = some value → item.turn = turn) :
    (items.filterMap select).map retell = ofTurn turn items := by
  induction items with
  | nil => rfl
  | cons item rest ih =>
      rw [List.forall_mem_cons] at here
      have others := ih here.2
      simp only [ofTurn] at others ⊢
      by_cases isTurn : item.turn = turn
      · rcases here.1 (at_of_turn isTurn) with ⟨value, selected, again⟩
        simp [selected, again, isTurn, others]
      · have none : select item = none := by
          cases selected : select item with
          | none => rfl
          | some value => exact absurd (elsewhere item value selected) isTurn
        simp [none, isTurn, others]

/-- Of what is selected at most once the last is all there is. -/
theorem map_last_eq {α : Type} {list : List α} {retell : α → Item} {turn : Turn} {items : List Item}
    (all : list.map retell = ofTurn turn items) (few : (ofTurn turn items).length ≤ 1) :
    list.getLast?.toList.map retell = ofTurn turn items := by
  rw [← all, List.length_map] at few
  match list, few, all with
  | [], _, all => exact all
  | [value], _, all => exact all

/-- What is selected from the events of a scope is the items of a turn. -/
theorem map_events_eq {α β : Type} {unwrap : Item → Option β} {tell : β → Item} {kind : β → Option α}
    {wrap : α → β} {turn : Turn} {items : List Item}
    (unwraps : ∀ item content, unwrap item = some content ↔ item = tell content)
    (here : ∀ item : Item, item.At turn →
      ∃ content value, item = tell content ∧ kind content = some value ∧ wrap value = content)
    (elsewhere : ∀ content value, kind content = some value → (tell content).turn = turn) :
    ((items.filterMap unwrap).filterMap kind).map (fun value => tell (wrap value)) =
      ofTurn turn items := by
  rw [List.filterMap_filterMap]
  apply map_filterMap_eq
  · intro item _ isAt
    rcases here item isAt with ⟨content, value, rfl, chosen, again⟩
    refine ⟨value, ?_, by rw [again]⟩
    rw [(unwraps _ content).mpr rfl]
    exact chosen
  · intro item value selected
    rcases Option.bind_eq_some_iff.mp selected with ⟨content, found, chosen⟩
    rw [(unwraps item content).mp found]
    exact elsewhere content value chosen

section Attachments

variable {items : List Item}

theorem AnnotationTree.turn_of_ofItem? {item : Item} {tree : AnnotationTree}
    (selected : AnnotationTree.ofItem? item = some tree) :
    item.turn = if tree.visible then .visibleAnnotations else .invisibleAnnotations := by
  unfold AnnotationTree.ofItem? at selected
  split at selected
  · cases selected
    rfl
  · cases selected

theorem TypeAnnotationTree.turn_of_ofItem? {item : Item} {tree : TypeAnnotationTree}
    (selected : TypeAnnotationTree.ofItem? item = some tree) :
    item.turn = if tree.use.visible then .visibleTypeAnnotations else .invisibleTypeAnnotations := by
  unfold TypeAnnotationTree.ofItem? at selected
  split at selected
  · cases selected
    rfl
  · cases selected

theorem Attribute.turn_of_ofItem? {item : Item} {entry : Attribute}
    (selected : Attribute.ofItem? item = some entry) :
    item.turn = if entry.inCode then .codeAttribute else .attribute := by
  unfold Attribute.ofItem? at selected
  split at selected
  · cases selected
    rfl
  · cases selected

/-- The annotations are told again as they were, the visible ones first. -/
theorem Attachments.annotationScript_ofItems
    (keeps : ∀ item ∈ items, item.turn ∈ Turn.annotations → item.Keeps) :
    (Attachments.ofItems items).annotationScript =
      ofTurn .visibleAnnotations items ++ ofTurn .invisibleAnnotations items := by
  simp only [annotationScript, ofItems, visibleFirst, List.map_append, List.filter_filterMap]
  congr 1
  · apply map_filterMap_eq
    · intro item member isAt
      cases isAt with
      | visibleAnnotations descriptor body =>
          have elements := keeps _ member (by simp [turn, Opening.turn, Turn.annotations])
          exact ⟨_, rfl, by simp [AnnotationTree.item, map_item_filterMap elements]⟩
    · intro item tree selected
      rcases Option.filter_eq_some_iff.mp selected with ⟨found, visible⟩
      rw [AnnotationTree.turn_of_ofItem? found, if_pos visible]
  · apply map_filterMap_eq
    · intro item member isAt
      cases isAt with
      | invisibleAnnotations descriptor body =>
          have elements := keeps _ member (by simp [turn, Opening.turn, Turn.annotations])
          exact ⟨_, rfl, by simp [AnnotationTree.item, map_item_filterMap elements]⟩
    · intro item tree selected
      rcases Option.filter_eq_some_iff.mp selected with ⟨found, invisible⟩
      rw [AnnotationTree.turn_of_ofItem? found, if_neg (by simpa using invisible)]

theorem Attachments.typeAnnotationScript_ofItems
    (keeps : ∀ item ∈ items, item.turn ∈ Turn.annotations → item.Keeps) :
    (Attachments.ofItems items).typeAnnotationScript =
      ofTurn .visibleTypeAnnotations items ++ ofTurn .invisibleTypeAnnotations items := by
  simp only [typeAnnotationScript, TypeAnnotationTree.script, ofItems, visibleFirst, List.map_append,
    List.filter_filterMap]
  congr 1
  · apply map_filterMap_eq
    · intro item member isAt
      cases isAt with
      | visibleTypeAnnotations use visible body =>
          have elements := keeps _ member (by simp [turn, Opening.turn, Turn.annotations, visible])
          refine ⟨_, Option.filter_eq_some_iff.mpr ⟨rfl, visible⟩, ?_⟩
          simp [TypeAnnotationTree.item, map_item_filterMap elements]
    · intro item tree selected
      rcases Option.filter_eq_some_iff.mp selected with ⟨found, visible⟩
      rw [TypeAnnotationTree.turn_of_ofItem? found, if_pos visible]
  · apply map_filterMap_eq
    · intro item member isAt
      cases isAt with
      | invisibleTypeAnnotations use invisible body =>
          have elements := keeps _ member (by simp [turn, Opening.turn, Turn.annotations, invisible])
          refine ⟨_, Option.filter_eq_some_iff.mpr ⟨rfl, by simpa using invisible⟩, ?_⟩
          simp [TypeAnnotationTree.item, map_item_filterMap elements]
    · intro item tree selected
      rcases Option.filter_eq_some_iff.mp selected with ⟨found, invisible⟩
      rw [TypeAnnotationTree.turn_of_ofItem? found, if_neg (by simpa using invisible)]

theorem Attribute.script_outside (items : List Item) :
    Attribute.script ((items.filterMap Attribute.ofItem?).filter fun entry => ! entry.inCode) =
      ofTurn .attribute items := by
  rw [Attribute.script, List.filter_filterMap]
  apply map_filterMap_eq
  · intro item _ isAt
    cases isAt with
    | «attribute» entry outside =>
        exact ⟨entry, Option.filter_eq_some_iff.mpr ⟨rfl, by simpa using outside⟩, rfl⟩
  · intro item entry selected
    rcases Option.filter_eq_some_iff.mp selected with ⟨found, outside⟩
    rw [Attribute.turn_of_ofItem? found, if_neg (by simpa using outside)]

theorem Attribute.script_inside (items : List Item) :
    Attribute.script ((items.filterMap Attribute.ofItem?).filter fun entry => entry.inCode) =
      ofTurn .codeAttribute items := by
  rw [Attribute.script, List.filter_filterMap]
  apply map_filterMap_eq
  · intro item _ isAt
    cases isAt with
    | codeAttribute entry inside =>
        exact ⟨entry, Option.filter_eq_some_iff.mpr ⟨rfl, inside⟩, rfl⟩
  · intro item entry selected
    rcases Option.filter_eq_some_iff.mp selected with ⟨found, inside⟩
    rw [Attribute.turn_of_ofItem? found, if_pos inside]

/-- Where there is no code, all attributes stand outside of it. -/
theorem Attachments.attributeScript_ofItems (outside : ofTurn .codeAttribute items = []) :
    (Attachments.ofItems items).attributeScript = ofTurn .attribute items := by
  rw [← Attribute.script_outside, attributeScript, ofItems]
  congr 1
  symm
  apply List.filter_eq_self.mpr
  intro entry member
  rcases List.mem_filterMap.mp member with ⟨item, itemMember, found⟩
  have isTurn := Attribute.turn_of_ofItem? found
  have notInside : item.turn ≠ .codeAttribute := by
    intro isInside
    have isThere : item ∈ ofTurn .codeAttribute items :=
      List.mem_filter.mpr ⟨itemMember, decide_eq_true isInside⟩
    simp [outside] at isThere
  cases place : entry.inCode with
  | true => simp [isTurn, place] at notInside
  | false => rfl

/-! ### Members and modules -/

theorem InTurn.memberScript {body : List Item} (inTurn : InTurn Keeps Turn.ofMember body) :
    (Attachments.ofItems body).annotationScript ++ (Attachments.ofItems body).typeAnnotationScript ++
      (Attachments.ofItems body).attributeScript = body := by
  rw [Attachments.annotationScript_ofItems fun item member _ => inTurn.all_good item member,
    Attachments.typeAnnotationScript_ofItems fun item member _ => inTurn.all_good item member,
    Attachments.attributeScript_ofItems (inTurn.ofTurn_of_not_mem (by decide))]
  conv_rhs => rw [inTurn.eq_flatMap (by decide)]
  simp [Turn.ofMember, Turn.annotations]

theorem ComponentTree.item_ofItems {body : List Item} (inTurn : InTurn Keeps Turn.ofMember body)
    (header : ComponentHeader) :
    (ComponentTree.mk header (.ofItems body)).item = .scope (.component header) body := by
  simp only [ComponentTree.item, inTurn.memberScript]

theorem FieldTree.item_ofItems {body : List Item} (inTurn : InTurn Keeps Turn.ofMember body)
    (header : FieldHeader) :
    (FieldTree.mk header (.ofItems body)).item .latest = .scope (.field header) body := by
  have supports : Api.latest.supports .v5 = true := rfl
  simp only [FieldTree.item, Script.since, supports, if_true, inTurn.memberScript]

theorem ModuleTree.moduleItem?_eq_some (item : Item) (content : ModuleItem) :
    ModuleTree.moduleItem? item = some content ↔ item = .event (.moduleItem content) := by
  unfold ModuleTree.moduleItem?
  split
  · simp
  · rename_i other
    simp only [reduceCtorEq, false_iff]
    exact other content

theorem ModuleTree.item_ofEvents {body : List Item} (inTurn : InTurn Keeps Turn.ofModule body)
    (header : ModuleHeader) :
    (ModuleTree.ofEvents header (body.filterMap moduleItem?)).item = .scope (.moduleScope header) body := by
  rw [ModuleTree.item, events]
  refine congrArg (Item.scope _) ?_
  conv_rhs => rw [inTurn.eq_flatMap (by decide)]
  simp only [Turn.ofModule, List.flatMap_cons, List.flatMap_nil, List.append_nil, List.map_append,
    ← List.append_assoc, ofEvents, List.map_map, Function.comp_def]
  refine congrArg₂ _ (congrArg₂ _ (congrArg₂ _ (congrArg₂ _ (congrArg₂ _ (congrArg₂ _
    (map_last_eq ?_ ((inTurn.atTurn (by decide) .mainClass).single rfl)) ?_) ?_) ?_) ?_) ?_) ?_
  all_goals
    apply map_events_eq moduleItem?_eq_some
    · rintro _ ⟨⟩
      exact ⟨_, _, rfl, rfl, rfl⟩
    · intro content value chosen
      split at chosen <;> cases chosen
      rfl

end Attachments

end ClassFile
