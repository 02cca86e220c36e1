import ClassFile.Proofs.Tree.Methods

/-!
# Classes that are told again

A class that is told turn by turn is told again by its tree as it was, but for the order of the annotations
in the groups of its bodies (`ClassTree.regrouped_script`).
-/

namespace ClassFile

open Item

namespace ClassTree

variable {items : List Item}

theorem classItem?_eq_some (item : Item) (content : ClassItem) :
    classItem? item = some content ↔ item = .event (.classItem content) := by
  unfold classItem?
  split
  · simp
  · rename_i other
    simp only [reduceCtorEq, false_iff]
    exact other content

/-- The source is told again if it names anything. -/
theorem tellAll_sourceEvents (told : ∀ item ∈ items, item.IsTold)
    (few : (ofTurn .source items).length ≤ 1) :
    tellAll (ofScript items).sourceEvents = ofTurn .source items := by
  have last (named : List (Option Text × Option Text))
      (all : named.map (fun names => Item.event (.classItem (.source names.1 names.2))) =
        ofTurn .source items) :
      tellAll (if (named.getLast?.getD (none, none)).1.isSome ||
          (named.getLast?.getD (none, none)).2.isSome then
        [.source (named.getLast?.getD (none, none)).1 (named.getLast?.getD (none, none)).2] else []) =
        ofTurn .source items := by
    rw [← all, List.length_map] at few
    match named, few, all with
    | [], _, all => simpa [tellAll] using all
    | [names], _, all =>
        have member : .event (.classItem (.source names.1 names.2)) ∈ items := by
          apply List.mem_of_mem_filter (p := fun item => decide (item.turn = .source))
          rw [← ofTurn, ← all]
          simp
        have isSome : names.1.isSome ∨ names.2.isSome := (told _ member).1
        simpa [tellAll, isSome] using all
  apply last
  apply map_events_eq classItem?_eq_some
  · rintro _ ⟨⟩
    exact ⟨_, _, rfl, rfl, rfl⟩
  · intro content value chosen
    split at chosen <;> cases chosen
    rfl

theorem map_components (told : ∀ item ∈ items, item.IsTold) (whole : AreWhole items) :
    (ofScript items).components.map ComponentTree.item = ofTurn .component items := by
  apply map_filterMap_eq
  · intro item member isAt
    cases isAt with
    | component header body =>
        have isWhole : AreWhole body := areWhole_iff.mp whole _ member
        exact ⟨_, rfl, ComponentTree.item_ofItems ((told _ member).2 isWhole).keeps header⟩
  · intro item tree selected
    unfold ComponentTree.ofItem? at selected
    split at selected <;> cases selected
    rfl

theorem map_fields (told : ∀ item ∈ items, item.IsTold) (whole : AreWhole items) :
    (ofScript items).fields.map (FieldTree.item .latest) = ofTurn .field items := by
  apply map_filterMap_eq
  · intro item member isAt
    cases isAt with
    | field header body =>
        have isWhole : AreWhole body := areWhole_iff.mp whole _ member
        exact ⟨_, rfl, FieldTree.item_ofItems ((told _ member).2 isWhole).keeps header⟩
  · intro item tree selected
    unfold FieldTree.ofItem? at selected
    split at selected <;> cases selected
    rfl

theorem map_module (told : ∀ item ∈ items, item.IsTold) (whole : AreWhole items)
    (few : (ofTurn .moduleScope items).length ≤ 1) :
    (ofScript items).module?.toList.map ModuleTree.item = ofTurn .moduleScope items := by
  apply map_last_eq _ few
  apply map_filterMap_eq
  · intro item member isAt
    cases isAt with
    | moduleScope header body =>
        have isWhole : AreWhole body := areWhole_iff.mp whole _ member
        exact ⟨_, rfl, ModuleTree.item_ofEvents ((told _ member).2 isWhole).keeps header⟩
  · intro item tree selected
    unfold ModuleTree.ofItem? at selected
    split at selected <;> cases selected
    rfl

theorem regrouped_methods (told : ∀ item ∈ items, item.IsTold) (whole : AreWhole items)
    (named : ∀ header body, .scope (.method header) body ∈ items → NamesHandlers body) :
    Regrouped (ofTurn .method items) ((ofScript items).methods.map (MethodTree.item .latest)) := by
  show Regrouped _ ((items.filterMap MethodTree.ofItem?).map (MethodTree.item .latest))
  induction items with
  | nil => exact .nil
  | cons item rest ih =>
      rw [List.forall_mem_cons] at told
      have others := ih told.2 whole.2 fun header body member =>
        named header body (List.mem_cons_of_mem _ member)
      simp only [ofTurn] at others ⊢
      by_cases isMethod : item.turn = .method
      · cases at_of_turn isMethod with
        | method header body =>
            have regrouped := MethodTree.regrouped_script (told.1.2 whole.1) (named header body (by simp)) header
            exact .method header regrouped others
      · have none : MethodTree.ofItem? item = none := by
          unfold MethodTree.ofItem?
          split
          · exact absurd rfl isMethod
          · rfl
        simpa [none, isMethod] using others

/-- Names, or other values, of the class scope are told again. -/
theorem map_classItems {α : Type} {kind : ClassItem → Option α} {wrap : α → ClassItem} {turn : Turn}
    (here : ∀ item : Item, item.At turn →
      ∃ content value, item = .event (.classItem content) ∧ kind content = some value ∧
        wrap value = content)
    (elsewhere : ∀ content value, kind content = some value → content.turn = turn) :
    tellAll (((items.filterMap classItem?).filterMap kind).map wrap) = ofTurn turn items := by
  rw [tellAll, List.map_map]
  exact map_events_eq classItem?_eq_some here elsewhere

theorem map_lastClassItem {α : Type} {kind : ClassItem → Option α} {wrap : α → ClassItem} {turn : Turn}
    (few : (ofTurn turn items).length ≤ 1)
    (here : ∀ item : Item, item.At turn →
      ∃ content value, item = .event (.classItem content) ∧ kind content = some value ∧
        wrap value = content)
    (elsewhere : ∀ content value, kind content = some value → content.turn = turn) :
    tellAll (((items.filterMap classItem?).filterMap kind).getLast?.toList.map wrap) =
      ofTurn turn items := by
  rw [tellAll, List.map_map]
  exact map_last_eq (map_events_eq classItem?_eq_some here elsewhere) few

/-- A class is told again as it was, but for the order of the annotations in the groups of its bodies. -/
theorem regrouped_script {header : ClassHeader} {inside : List Item} (fits : header.Fits)
    (inTurn : InTurn IsTold Turn.ofClass inside) (whole : AreWhole inside)
    (named : ∀ header body, .scope (.method header) body ∈ inside → NamesHandlers body) :
    Regrouped (.event (.classItem (.header header)) :: (inside ++ [.event .finish]))
      ((ofScript (.event (.classItem (.header header)) :: inside)).script .latest .latest) := by
  have first : AtTurn IsTold .header [.event (.classItem (.header header))] := .one rfl fits
  have headers : ofTurn .header (.event (.classItem (.header header)) :: inside) =
      [.event (.classItem (.header header))] := by
    rw [← List.singleton_append, ofTurn_append, first.ofTurn, inTurn.ofTurn_of_not_mem (by decide)]
    rfl
  rw [← List.cons_append]
  generalize same : Item.event (.classItem (.header header)) :: inside = items at headers ⊢
  have inTurn : InTurn IsTold (.header :: Turn.ofClass) items := same ▸ InTurn.cons first inTurn
  have whole : AreWhole items := same ▸ ⟨trivial, whole⟩
  have named : ∀ header body, .scope (.method header) body ∈ items → NamesHandlers body := by
    intro header body member
    rw [← same] at member
    simp at member
    exact named header body member
  have told := inTurn.all_good
  have atTurn := inTurn.atTurn (by decide)
  have keeps : ∀ item ∈ items, item.turn ∈ Turn.annotations → item.Keeps := by
    intro item member isTurn
    have isTold := told item member
    simp only [Turn.annotations, List.mem_cons, List.not_mem_nil, or_false] at isTurn
    rcases isTurn with isTurn | isTurn | isTurn | isTurn
    all_goals
      cases at_of_turn isTurn
      exact @Fits.keeps AttributeKind.ofClass _ isTold
  have head : [Item.event (.classItem (.header (ofScript items).header))] = ofTurn .header items := by
    have last (found? : Option ClassHeader)
        (told : tellAll (found?.toList.map .header) = ofTurn .header items) :
        [Item.event (.classItem (.header (found?.getD .untold)))] = ofTurn .header items := by
      cases found? with
      | none => simp [headers, tellAll] at told
      | some content => exact told
    apply last
    apply map_lastClassItem ((atTurn .header).single rfl)
    · rintro _ ⟨⟩
      exact ⟨_, _, rfl, rfl, rfl⟩
    · intro content value chosen
      split at chosen <;> cases chosen
      rfl
  have nestHost : tellAll ((ofScript items).nestHost?.toList.map .nestHost) = ofTurn .nestHost items := by
    apply map_lastClassItem ((atTurn .nestHost).single rfl)
    · rintro _ ⟨⟩
      exact ⟨_, _, rfl, rfl, rfl⟩
    · intro content value chosen
      split at chosen <;> cases chosen
      rfl
  have outerClass : tellAll ((ofScript items).enclosing?.toList.map fun enclosing =>
      .outerClass enclosing.owner enclosing.name? enclosing.descriptor?) = ofTurn .outerClass items := by
    apply map_lastClassItem ((atTurn .outerClass).single rfl)
    · rintro _ ⟨⟩
      exact ⟨_, _, rfl, rfl, rfl⟩
    · intro content value chosen
      split at chosen <;> cases chosen
      rfl
  have nestMembers : tellAll ((ofScript items).nestMembers.map .nestMember) = ofTurn .nestMember items := by
    apply map_classItems
    · rintro _ ⟨⟩
      exact ⟨_, _, rfl, rfl, rfl⟩
    · intro content value chosen
      split at chosen <;> cases chosen
      rfl
  have permitted : tellAll ((ofScript items).permittedSubclasses.map .permittedSubclass) =
      ofTurn .permittedSubclass items := by
    apply map_classItems
    · rintro _ ⟨⟩
      exact ⟨_, _, rfl, rfl, rfl⟩
    · intro content value chosen
      split at chosen <;> cases chosen
      rfl
  have innerClasses : tellAll ((ofScript items).innerClasses.map .innerClass) = ofTurn .innerClass items := by
    apply map_classItems
    · rintro _ ⟨⟩
      exact ⟨_, _, rfl, rfl, rfl⟩
    · intro content value chosen
      split at chosen <;> cases chosen
      rfl
  have sources := tellAll_sourceEvents told ((atTurn .source).single rfl)
  have moduleScope := map_module told whole ((atTurn .moduleScope).single rfl)
  have annotations : (ofScript items).attachments.annotationScript = _ :=
    Attachments.annotationScript_ofItems keeps
  have typeAnnotations : (ofScript items).attachments.typeAnnotationScript = _ :=
    Attachments.typeAnnotationScript_ofItems keeps
  have attributes : (ofScript items).attachments.attributeScript = _ :=
    Attachments.attributeScript_ofItems (inTurn.ofTurn_of_not_mem (by decide))
  have front : tellAll (.header (ofScript items).header :: (ofScript items).sourceEvents) =
      ofTurn .header items ++ ofTurn .source items := by
    rw [← head, ← sources]
    rfl
  rw [script]
  simp only [Script.since_latest]
  rw [front, moduleScope, nestHost, outerClass, annotations, typeAnnotations, attributes, nestMembers,
    permitted, innerClasses, map_components told whole, map_fields told whole]
  apply Regrouped.append_right
  conv => arg 1; rw [inTurn.eq_flatMap (by decide)]
  simp only [Turn.ofClass, Turn.annotations, List.cons_append, List.nil_append, List.flatMap_cons,
    List.flatMap_nil, List.append_nil, ← List.append_assoc]
  apply Regrouped.append_left
  exact regrouped_methods told whole named

end ClassTree

end ClassFile
