import ClassFile.Proofs.Story.Classes
import ClassFile.Proofs.Tree.Regrouping
import ClassFile.Proofs.Tree.Selections

/-!
# Methods that are told again

A method that is told in turn is told again by the tree as it was, but for the order of the annotations in
the groups of its body (`MethodTree.regrouped_script`).
-/

namespace ClassFile

open Item

theorem supports_latest (required : Api) : Api.latest.supports required = true := by
  cases required <;> rfl

theorem Script.since_latest (script : Script) (required : Api) : script.since required .latest = script := by
  simp [Script.since, supports_latest]

/-! ### Instructions -/

namespace InstructionTree

theorem gather_of_turn_ne {item : Item} (other : item.turn ≠ .step)
    (after : List TypeAnnotationTree × List InstructionTree) : gather item after = after := by
  unfold gather
  split
  · exact absurd rfl other
  · exact absurd rfl other
  · rfl

theorem foldr_gather_ofTurn (items : List Item) :
    items.foldr gather ([], []) = (ofTurn .step items).foldr gather ([], []) := by
  induction items with
  | nil => rfl
  | cons item rest ih =>
      simp only [ofTurn] at ih ⊢
      by_cases isStep : item.turn = .step
      · simp [isStep, ih]
      · simp [isStep, ih, gather_of_turn_ne]

theorem script_latest (tree : InstructionTree) :
    tree.script .latest = .event (.methodItem (.instruction tree.instruction)) ::
      TypeAnnotationTree.script .annotateInstruction tree.typeAnnotations := by
  simp [script, Api.requireFor, supports_latest, Script.since_latest]

/-- The annotations right behind an instruction are gathered. -/
theorem foldr_gather_notes {notes : List Item}
    (annotations : ∀ item ∈ notes,
      ∃ use body, item = .scope (.annotateInstruction use) body ∧ item.Fits AttributeKind.ofMethod)
    (trees : List InstructionTree) :
    ∃ gathered : List TypeAnnotationTree, notes.foldr gather ([], trees) = (gathered, trees) ∧
      gathered.map (TypeAnnotationTree.item .annotateInstruction) = notes := by
  induction notes with
  | nil => exact ⟨[], rfl, rfl⟩
  | cons note rest ih =>
      rw [List.forall_mem_cons] at annotations
      rcases annotations with ⟨⟨use, body, rfl, fits⟩, others⟩
      rcases ih others with ⟨gathered, same, again⟩
      refine ⟨⟨use, Element.ofItems body⟩ :: gathered, by simp [same, gather], ?_⟩
      have elements : ∀ item ∈ body, item.IsElement true := fits.keeps
      simp [again, TypeAnnotationTree.item, map_item_filterMap elements]

/-- What stands in a code array is told again, but for the order of the annotations of an instruction. -/
theorem regrouped_steps {steps : List Item} (areSteps : AreSteps steps) :
    ∃ trees : List InstructionTree, steps.foldr gather ([], []) = ([], trees) ∧
      (trees = [] → steps = []) ∧ Regrouped steps (trees.flatMap (script .latest)) := by
  induction areSteps with
  | nil => exact ⟨[], rfl, fun _ => rfl, .nil⟩
  | @step instruction notes rest _ annotations real _ ih =>
      rcases ih with ⟨trees, same, -, regrouped⟩
      rcases foldr_gather_notes annotations trees with ⟨gathered, sameNotes, again⟩
      refine ⟨⟨instruction, gathered⟩ :: trees, ?_, by simp, ?_⟩
      · rw [List.foldr_cons, List.foldr_append, same, sameNotes]
        by_cases isReal : instruction.isReal
        · simp [gather, isReal]
        · have none : notes = [] := by
            by_contra some
            exact isReal (real some)
          have noTrees : gathered = [] := by simpa [none] using again
          simp [gather, isReal, noTrees]
      · rw [List.flatMap_cons, script_latest, List.cons_append]
        apply Regrouped.cons
        apply Regrouped.append _ regrouped
        apply Regrouped.of_perm
        · rw [← again]
          exact ((visibleFirst_perm _ gathered).map _).symm
        · intro first isFirst second isSecond
          rcases annotations first isFirst with ⟨use, body, rfl, -⟩
          rcases annotations second isSecond with ⟨use', body', rfl, -⟩
          exact .instruction use use' body body'

theorem regrouped_ofItems {items : List Item} (areSteps : AreSteps (ofTurn .step items)) :
    Regrouped (ofTurn .step items) ((ofItems items).flatMap (script .latest)) := by
  rcases regrouped_steps areSteps with ⟨trees, same, -, regrouped⟩
  rw [ofItems, foldr_gather_ofTurn, same]
  exact regrouped

theorem ofItems_eq_nil_iff {items : List Item} (areSteps : AreSteps (ofTurn .step items)) :
    ofItems items = [] ↔ ofTurn .step items = [] := by
  rcases regrouped_steps areSteps with ⟨trees, same, isNil, -⟩
  rw [ofItems, foldr_gather_ofTurn, same]
  refine ⟨isNil, fun none => ?_⟩
  rw [none] at same
  cases same
  rfl

end InstructionTree

/-! ### Handlers -/

/-- Whether the annotations of exception parameters in a body name handlers that exist. -/
def NamesHandlers (items : List Item) : Prop :=
  ∀ use body block, .scope (.annotateTryCatch use) body ∈ items →
    use.target = .exceptionParameter block → block.toNat < (ofTurn .handler items).length

namespace HandlerTree

/-- The item that tells about a handler. -/
def blockItem (block : TryCatch) : Item :=
  .event (.methodItem (.tryCatch block))

theorem foldl_gather_of_turn_ne {items : List Item}
    (others : ∀ item ∈ items, item.turn ≠ .handler ∧ item.turn ≠ .handlerAnnotations)
    (handlers : Array HandlerTree) : items.foldl gather handlers = handlers := by
  induction items with
  | nil => rfl
  | cons item rest ih =>
      rw [List.forall_mem_cons] at others
      have same : gather handlers item = handlers := by
        unfold gather
        split
        · exact absurd rfl others.1.1
        · exact absurd rfl others.1.2
        · rfl
      rw [List.foldl_cons, same, ih others.2]

theorem foldl_gather_blocks {items : List Item} (areHandlers : AtTurn Keeps .handler items)
    (handlers : Array HandlerTree) :
    ∃ blocks : List TryCatch, blocks.map blockItem = items ∧
      (items.foldl gather handlers).toList = handlers.toList ++ blocks.map (HandlerTree.mk · []) := by
  have all := areHandlers.turn_eq
  clear areHandlers
  induction items generalizing handlers with
  | nil => exact ⟨[], rfl, by simp⟩
  | cons item rest ih =>
      rw [List.forall_mem_cons] at all
      cases at_of_turn all.1 with
      | handler block =>
          rcases ih (handlers.push ⟨block, []⟩) all.2 with ⟨blocks, same, gathered⟩
          refine ⟨block :: blocks, by simp [same, blockItem], ?_⟩
          rw [List.foldl_cons, gather, gathered]
          simp

/-- An annotation is added to one handler. -/
theorem flatMap_modify_perm {handlers : List HandlerTree} {place : Nat} (inside : place < handlers.length)
    (note : TypeAnnotationTree) :
    ((handlers.modify place fun handler =>
        { handler with typeAnnotations := handler.typeAnnotations ++ [note] }).flatMap
          (·.typeAnnotations)).Perm (handlers.flatMap (·.typeAnnotations) ++ [note]) := by
  rw [List.modify_eq_take_cons_drop inside]
  conv_rhs => rw [← List.take_append_drop place handlers, List.drop_eq_getElem_cons inside]
  simp only [List.flatMap_append, List.flatMap_cons, List.append_assoc]
  apply List.Perm.append_left
  apply List.Perm.append_left
  exact List.perm_append_comm

theorem map_block_modify (handlers : List HandlerTree) (place : Nat) (note : TypeAnnotationTree) :
    (handlers.modify place fun handler =>
        { handler with typeAnnotations := handler.typeAnnotations ++ [note] }).map (·.block) =
      handlers.map (·.block) := by
  apply List.ext_getElem
  · simp
  · intro other _ _
    simp only [List.getElem_map, List.getElem_modify]
    split <;> rfl

theorem foldl_gather_notes {notes : List Item} (areNotes : AtTurn Keeps .handlerAnnotations notes)
    {handlers : Array HandlerTree}
    (named : ∀ use body block, .scope (.annotateTryCatch use) body ∈ notes →
      use.target = .exceptionParameter block → block.toNat < handlers.size) :
    ∃ gathered : List TypeAnnotationTree,
      gathered.map (TypeAnnotationTree.item .annotateTryCatch) = notes ∧
        (notes.foldl gather handlers).toList.map (·.block) = handlers.toList.map (·.block) ∧
          ((notes.foldl gather handlers).toList.flatMap (·.typeAnnotations)).Perm
            (handlers.toList.flatMap (·.typeAnnotations) ++ gathered) := by
  have all := fun item member => And.intro (areNotes.turn_eq item member) (areNotes.good item member)
  clear areNotes
  induction notes generalizing handlers with
  | nil => exact ⟨[], rfl, rfl, by simp⟩
  | cons note rest ih =>
      rw [List.forall_mem_cons] at all
      rcases all with ⟨⟨isNote, keeps⟩, others⟩
      cases at_of_turn isNote with
      | handlerAnnotations use body =>
          rcases keeps with ⟨⟨block, target⟩, elements⟩
          have inside : block.toNat < handlers.size := named use body block (by simp) target
          have one : (gather handlers (.scope (.annotateTryCatch use) body)).toList =
              handlers.toList.modify block.toNat fun handler =>
                { handler with typeAnnotations := handler.typeAnnotations ++ [⟨use, Element.ofItems body⟩] } := by
            simp [gather, position, target]
          have sameSize : (gather handlers (.scope (.annotateTryCatch use) body)).size = handlers.size := by
            simp [gather]
          have namedBehind : ∀ use' body' block', .scope (.annotateTryCatch use') body' ∈ rest →
              use'.target = .exceptionParameter block' →
                block'.toNat < (gather handlers (.scope (.annotateTryCatch use) body)).size := by
            intro use' body' block' member target'
            rw [sameSize]
            exact named use' body' block' (List.mem_cons_of_mem _ member) target'
          rcases ih namedBehind others with ⟨gathered, again, blocks, perm⟩
          refine ⟨⟨use, Element.ofItems body⟩ :: gathered, ?_, ?_, ?_⟩
          · simp [again, TypeAnnotationTree.item, map_item_filterMap elements]
          · rw [List.foldl_cons, blocks, one, map_block_modify]
          · rw [List.foldl_cons]
            apply perm.trans
            rw [one]
            have isPlace : block.toNat < handlers.toList.length := by simpa using inside
            have added := flatMap_modify_perm isPlace ⟨use, Element.ofItems body⟩
            simpa using added.append_right gathered

/-- The handlers are told again, and then their annotations in some order. -/
theorem regrouped_ofItems {before after : List Turn} {items : List Item}
    (inTurn : InTurn Keeps (before ++ .handler :: .handlerAnnotations :: after) items)
    (once : (before ++ .handler :: .handlerAnnotations :: after).Nodup) (named : NamesHandlers items) :
    Regrouped (ofTurn .handler items ++ ofTurn .handlerAnnotations items)
      (script .latest (ofItems items)) := by
  have areHandlers := inTurn.atTurn once .handler
  have areNotes := inTurn.atTurn once .handlerAnnotations
  have whole : ofItems items = ((ofTurn .handlerAnnotations items).foldl gather
      ((ofTurn .handler items).foldl gather #[])).toList := by
    rw [List.nodup_append] at once
    simp only [List.nodup_cons, List.mem_cons, not_or] at once
    rcases once with ⟨-, ⟨⟨-, notHandler⟩, notNote, -⟩, apart⟩
    rcases inTurn.exists_append with ⟨front, others, rfl, inFront, inOthers⟩
    rcases inOthers with _ | ⟨isHandler, inOthers⟩
    rcases inOthers with _ | ⟨isNote, inRest⟩
    have frontHandler : .handler ∉ before := fun member => apart _ member _ (by simp) rfl
    have frontNote : .handlerAnnotations ∉ before := fun member => apart _ member _ (by simp) rfl
    simp only [ofTurn_append, inFront.ofTurn_of_not_mem frontHandler,
      inFront.ofTurn_of_not_mem frontNote, isHandler.ofTurn, isNote.ofTurn, List.nil_append,
      isNote.ofTurn_of_ne (show Turn.handlerAnnotations ≠ .handler by decide),
      isHandler.ofTurn_of_ne (show Turn.handler ≠ .handlerAnnotations by decide),
      inRest.ofTurn_of_not_mem notHandler, inRest.ofTurn_of_not_mem notNote, List.append_nil]
    have elsewhere {turns : List Turn} {part : List Item} (inPart : InTurn Keeps turns part)
        (noHandler : .handler ∉ turns) (noNote : .handlerAnnotations ∉ turns) :
        ∀ item ∈ part, item.turn ≠ .handler ∧ item.turn ≠ .handlerAnnotations := by
      intro item member
      have isTurn := inPart.turn_mem item member
      constructor
      · rintro same
        exact noHandler (same ▸ isTurn)
      · rintro same
        exact noNote (same ▸ isTurn)
    rw [ofItems, List.foldl_append, List.foldl_append, List.foldl_append,
      foldl_gather_of_turn_ne (elsewhere inFront frontHandler frontNote),
      foldl_gather_of_turn_ne (elsewhere inRest notHandler notNote)]
  have member_notes {use : TypeUse} {body : List Item}
      (member : .scope (.annotateTryCatch use) body ∈ ofTurn .handlerAnnotations items) :
      .scope (.annotateTryCatch use) body ∈ items :=
    List.mem_of_mem_filter member
  rw [whole]
  generalize ofTurn .handlerAnnotations items = notes at *
  rcases foldl_gather_blocks areHandlers #[] with ⟨blocks, again, gathered⟩
  have size : ((ofTurn .handler items).foldl gather #[]).size = (ofTurn .handler items).length := by
    rw [← Array.length_toList, gathered, ← again]
    simp
  rcases foldl_gather_notes areNotes fun use body block member target =>
    size ▸ named use body block (member_notes member) target with ⟨noteTrees, againNotes, sameBlocks, perm⟩
  rw [script, Script.since_latest]
  apply Regrouped.append
  · have told := congrArg (List.map blockItem) sameBlocks
    rw [gathered] at told
    have same : (notes.foldl gather ((ofTurn .handler items).foldl gather #[])).toList.map
        (fun handler => Item.event (.methodItem (.tryCatch handler.block))) = ofTurn .handler items := by
      refine Eq.trans ?_ again
      simpa [Function.comp_def, blockItem] using told
    rw [same]
    exact .refl _
  · apply Regrouped.of_perm
    · have noneBefore : ((ofTurn .handler items).foldl gather #[]).toList.flatMap (·.typeAnnotations) = [] := by
        rw [gathered]
        simp [List.flatMap_map]
      rw [noneBefore, List.nil_append] at perm
      have retold := perm.map (TypeAnnotationTree.item .annotateTryCatch)
      rw [againNotes, List.map_flatMap] at retold
      apply List.Perm.trans retold.symm
      apply List.Perm.flatMap_left
      intro handler _
      exact ((visibleFirst_perm _ handler.typeAnnotations).map _).symm
    · intro first isFirst second isSecond
      have isAt := at_of_turn (areNotes.turn_eq first isFirst)
      have isAlsoAt := at_of_turn (areNotes.turn_eq second isSecond)
      cases isAt
      cases isAlsoAt
      exact .handlers ..

end HandlerTree

/-! ### In front of the body -/

section Front

variable {items : List Item}

theorem MethodTree.methodItem?_eq_some (item : Item) (content : MethodItem) :
    MethodTree.methodItem? item = some content ↔ item = .event (.methodItem content) := by
  unfold MethodTree.methodItem?
  split
  · simp
  · rename_i other
    simp only [reduceCtorEq, false_iff]
    exact other content

theorem MethodTree.map_default_eq (keeps : ∀ item ∈ items, item.Keeps) :
    (Element.singlesOfItems (items.flatMap defaultBody)).map
        (fun element => Item.scope .annotationDefault [element.item]) =
      ofTurn .annotationDefault items := by
  induction items with
  | nil => simp [ofTurn]
  | cons item rest ih =>
      rw [List.forall_mem_cons] at keeps
      have others := ih keeps.2
      simp only [ofTurn, Element.singlesOfItems_eq_filterMap] at others ⊢
      by_cases isDefault : item.turn = .annotationDefault
      · cases at_of_turn isDefault with
        | annotationDefault body =>
            rcases keeps.1 with ⟨inside, rfl, element, understood, again⟩
            simp [defaultBody, understood, again, others, turn, Opening.turn]
      · have none : defaultBody item = [] := by
          unfold defaultBody
          split
          · exact absurd rfl isDefault
          · rfl
        simp [none, isDefault, others]

/-- Annotations that come in the order of their parameters stay where they are. -/
theorem ParameterAnnotationTree.mergeSort_eq {trees : List ParameterAnnotationTree} {turn : Turn}
    (again : trees.map ParameterAnnotationTree.item = ofTurn turn items)
    (inOrder : AtTurn Keeps turn (ofTurn turn items)) :
    (trees.mergeSort fun first second => decide (first.parameter ≤ second.parameter)).map item =
      ofTurn turn items := by
  rw [List.mergeSort_of_pairwise]
  · exact again
  · have ordered := inOrder.ordered
    rw [← again, List.pairwise_map] at ordered
    apply ordered.imp
    intro first second before
    simpa [ParameterAnnotationTree.item, Item.parameter, UInt8.le_iff_toNat_le] using before

/-- The annotations of the parameters are told again as they were, with their number before them. -/
theorem ParameterAnnotationTree.script_ofItems {visible : Bool} {countTurn turn : Turn}
    (keeps : ∀ item ∈ items, item.Keeps)
    (isCount : ∀ count, (MethodItem.annotableParameterCount count visible).turn = countTurn)
    (isCountAt : ∀ item : Item, item.At countTurn →
      ∃ count, item = .event (.methodItem (.annotableParameterCount count visible)))
    (isTurn : ∀ parameter descriptor, (Opening.annotateParameter parameter descriptor visible).turn = turn)
    (isAt : ∀ item : Item, item.At turn →
      ∃ parameter descriptor body, item = .scope (.annotateParameter parameter descriptor visible) body)
    (few : (ofTurn countTurn items).length ≤ 1) (inOrder : AtTurn Keeps turn (ofTurn turn items)) :
    ParameterAnnotationTree.script visible
        (MethodTree.parameterCount? visible (items.filterMap MethodTree.methodItem?))
        (items.filterMap ParameterAnnotationTree.ofItem?) =
      ofTurn countTurn items ++ ofTurn turn items := by
  rw [script]
  congr 1
  · apply map_last_eq _ few
    apply map_events_eq MethodTree.methodItem?_eq_some
    · intro item itemAt
      rcases isCountAt item itemAt with ⟨count, rfl⟩
      exact ⟨_, count, rfl, by simp, rfl⟩
    · intro content count chosen
      split at chosen
      · split at chosen
        · rename_i same
          simp only [beq_iff_eq] at same
          subst same
          cases chosen
          exact isCount count
        · cases chosen
      · cases chosen
  · apply mergeSort_eq _ inOrder
    rw [List.filter_filterMap]
    apply map_filterMap_eq
    · intro item member itemAt
      rcases isAt item itemAt with ⟨parameter, descriptor, body, rfl⟩
      have elements : ∀ item ∈ body, item.IsElement true := keeps _ member
      refine ⟨_, Option.filter_eq_some_iff.mpr ⟨rfl, by simp⟩, ?_⟩
      simp [ParameterAnnotationTree.item, map_item_filterMap elements]
    · intro item tree selected
      rcases Option.filter_eq_some_iff.mp selected with ⟨found, same⟩
      unfold ParameterAnnotationTree.ofItem? at found
      split at found
      · rename_i parameter descriptor of body
        cases found
        simp only [beq_iff_eq] at same
        subst same
        exact isTurn parameter descriptor
      · cases found

end Front

/-! ### The whole method -/

/-- The turns of a method with its body. -/
def Turn.ofWholeMethod : List Turn :=
  Turn.ofMethod ++ .code :: (Turn.ofBody ++ [.maxs])

theorem IsBody.inTurn {items : List Item} (isBody : IsBody items) :
    InTurn Keeps (.code :: (Turn.ofBody ++ [.maxs])) items := by
  rcases isBody with ⟨inside, stack, locals, rfl, inTurn, -, -⟩
  have first : AtTurn Keeps .code [.event (.methodItem .code)] := .one rfl trivial
  have last : AtTurn Keeps .maxs [.event (.methodItem (.maxs stack locals))] := .one rfl trivial
  simpa using InTurn.cons first (inTurn.keeps.append (.cons last .nil))

theorem IsMethodStory.wholeInTurn {items : List Item} (story : IsMethodStory items) :
    InTurn Keeps Turn.ofWholeMethod items := by
  rcases story.inTurn with ⟨front, body, rfl, inFront, rfl | isBody⟩
  · exact inFront.keeps.append (.none _)
  · exact inFront.keeps.append isBody.inTurn

/-- What stands in front of the body is told again as it was. -/
theorem MethodTree.script_ofItems {items : List Item} (inTurn : InTurn Keeps Turn.ofWholeMethod items)
    (header : MethodHeader) :
    (ofItems header items).script .latest =
      (Turn.ofMethod.flatMap fun turn => ofTurn turn items) ++
        if (ofItems header items).hasCode then (ofItems header items).codeScript .latest else [] := by
  have atTurn := inTurn.atTurn (by decide)
  have keeps := inTurn.all_good
  have parameters : (ofItems header items).parameters.map
      (fun parameter => Item.event (.methodItem (.parameter parameter))) = ofTurn .parameter items := by
    apply map_events_eq methodItem?_eq_some
    · rintro _ ⟨⟩
      exact ⟨_, _, rfl, rfl, rfl⟩
    · intro content value chosen
      split at chosen <;> cases chosen
      rfl
  have default : ((ofItems header items).default?.toList.map fun element =>
      Item.scope .annotationDefault [element.item]) = ofTurn .annotationDefault items :=
    map_last_eq (map_default_eq keeps) ((atTurn .annotationDefault).single rfl)
  have visible := @ParameterAnnotationTree.script_ofItems items true .visibleCount .visibleParameter
    keeps (fun _ => rfl) (by rintro _ ⟨⟩; exact ⟨_, rfl⟩) (fun _ _ => rfl)
    (by rintro _ ⟨⟩; exact ⟨_, _, _, rfl⟩) ((atTurn .visibleCount).single rfl) (atTurn .visibleParameter)
  have invisible := @ParameterAnnotationTree.script_ofItems items false .invisibleCount
    .invisibleParameter keeps (fun _ => rfl) (by rintro _ ⟨⟩; exact ⟨_, rfl⟩) (fun _ _ => rfl)
    (by rintro _ ⟨⟩; exact ⟨_, _, _, rfl⟩) ((atTurn .invisibleCount).single rfl)
    (atTurn .invisibleParameter)
  rw [script, Script.since_latest, Script.since_latest, parameters, default]
  simp only [ofItems] at visible invisible ⊢
  rw [Attachments.annotationScript_ofItems fun item member _ => keeps item member,
    Attachments.typeAnnotationScript_ofItems fun item member _ => keeps item member, visible, invisible]
  have outside := Attribute.script_outside items
  simp only [Attachments.ofItems]
  rw [outside]
  simp [Turn.ofMethod, Turn.annotations]

/-- The code is told again as it was, but for the order of the annotations in a group. -/
theorem MethodTree.regrouped_codeScript {items : List Item} (inTurn : InTurn Keeps Turn.ofWholeMethod items)
    (areSteps : AreSteps (ofTurn .step items)) (named : NamesHandlers items)
    {stack locals : UInt16} (code : ofTurn .code items = [.event (.methodItem .code)])
    (maxs : ofTurn .maxs items = [.event (.methodItem (.maxs stack locals))]) (header : MethodHeader) :
    Regrouped ((.code :: (Turn.ofBody ++ [.maxs])).flatMap fun turn => ofTurn turn items)
      ((ofItems header items).codeScript .latest) := by
  have keeps := inTurn.all_good
  have handlers := @HandlerTree.regrouped_ofItems (Turn.ofMethod ++ [Turn.code])
    [.step, .variable, .variableAnnotations, .codeAttribute, .maxs] items inTurn (by decide) named
  have locals_eq : (ofItems header items).localVariables.map
      (fun entry => Item.event (.methodItem (.localVariable entry))) = ofTurn .variable items := by
    apply map_events_eq methodItem?_eq_some
    · rintro _ ⟨⟩
      exact ⟨_, _, rfl, rfl, rfl⟩
    · intro content value chosen
      split at chosen <;> cases chosen
      rfl
  have notes : (ofItems header items).localAnnotations.map LocalAnnotationTree.item =
      ofTurn .variableAnnotations items := by
    apply map_filterMap_eq
    · intro item member isAt
      cases isAt with
      | variableAnnotations use ranges body =>
          have elements : ∀ item ∈ body, item.IsElement true := keeps _ member
          exact ⟨_, rfl, by simp [LocalAnnotationTree.item, map_item_filterMap elements]⟩
    · intro item tree selected
      unfold LocalAnnotationTree.ofItem? at selected
      split at selected <;> cases selected
      rfl
  have sizes : MethodTree.maxs (items.filterMap methodItem?) = (stack, locals) := by
    have last (sizes : List (UInt16 × UInt16))
        (told : sizes.map (fun pair => Item.event (.methodItem (.maxs pair.1 pair.2))) = ofTurn .maxs items) :
        sizes.getLast?.getD (0, 0) = (stack, locals) := by
      rw [maxs] at told
      rcases List.map_eq_singleton_iff.mp told with ⟨pair, rfl, same⟩
      cases same
      rfl
    apply last
    apply map_events_eq methodItem?_eq_some
    · rintro _ ⟨⟩
      exact ⟨_, _, rfl, rfl, rfl⟩
    · intro content value chosen
      split at chosen <;> cases chosen
      rfl
  have regroupedNotes : Regrouped (ofTurn .variableAnnotations items)
      ((visibleFirst (·.use.visible) (ofItems header items).localAnnotations).map LocalAnnotationTree.item) := by
    rw [← notes]
    apply Regrouped.of_perm ((visibleFirst_perm _ _).map _).symm
    simp only [List.mem_map]
    rintro _ ⟨first, -, rfl⟩ _ ⟨second, -, rfl⟩
    exact .variables ..
  have inside := Attribute.script_inside items
  simp only [codeScript, Script.since_latest, locals_eq]
  simp only [ofItems, Attachments.ofItems] at regroupedNotes ⊢
  rw [inside, sizes, ← maxs, ← code]
  simp only [Turn.ofBody, List.cons_append, List.nil_append, List.flatMap_cons, List.flatMap_nil,
    List.append_nil, ← List.append_assoc]
  apply Regrouped.append_right
  apply Regrouped.append_right
  apply Regrouped.append _ regroupedNotes
  apply Regrouped.append_right
  apply Regrouped.append _ (InstructionTree.regrouped_ofItems areSteps)
  simpa using handlers.append_left _

/-- A method is told again as it was, but for the order of the annotations in the groups of its body. -/
theorem MethodTree.regrouped_script {items : List Item} (story : IsMethodStory items)
    (named : NamesHandlers items) (header : MethodHeader) :
    Regrouped items ((ofItems header items).script .latest) := by
  have inTurn := story.wholeInTurn
  rw [script_ofItems inTurn]
  rcases story.inTurn with ⟨front, body, rfl, inFront, rfl | isBody⟩
  · rw [List.append_nil] at *
    have none : InstructionTree.ofItems front = [] := by
      rw [InstructionTree.ofItems, InstructionTree.foldr_gather_ofTurn,
        inFront.ofTurn_of_not_mem (by decide)]
      rfl
    have noCode : (ofItems header front).hasCode = false := by
      simp [hasCode, ofItems, none]
    rw [noCode, ← inFront.eq_flatMap (by decide)]
    simpa using Regrouped.refl front
  · rcases isBody with ⟨inside, stack, locals, rfl, inInside, areSteps, some⟩
    have code : AtTurn Keeps .code [.event (.methodItem .code)] := .one rfl trivial
    have maxs : AtTurn Keeps .maxs [.event (.methodItem (.maxs stack locals))] := .one rfl trivial
    have ofTurn_body (turn : Turn) (notFront : turn ∉ Turn.ofMethod) : ofTurn turn (front ++
        .event (.methodItem .code) :: (inside ++ [.event (.methodItem (.maxs stack locals))])) =
        ofTurn turn [.event (.methodItem .code)] ++ (ofTurn turn inside ++
          ofTurn turn [.event (.methodItem (.maxs stack locals))]) := by
      rw [ofTurn_append, inFront.ofTurn_of_not_mem notFront, ← List.singleton_append, ofTurn_append,
        ofTurn_append, List.nil_append]
    have steps : ofTurn .step (front ++
        .event (.methodItem .code) :: (inside ++ [.event (.methodItem (.maxs stack locals))])) =
        ofTurn .step inside := by
      rw [ofTurn_body .step (by decide), code.ofTurn_of_ne (by decide), maxs.ofTurn_of_ne (by decide)]
      simp
    have hasCode : (ofItems header (front ++ .event (.methodItem .code) ::
        (inside ++ [.event (.methodItem (.maxs stack locals))]))).hasCode = true := by
      have notNil := (not_congr (InstructionTree.ofItems_eq_nil_iff (steps.symm ▸ areSteps))).mpr
        (steps.symm ▸ some)
      simpa [MethodTree.hasCode, ofItems] using notNil
    have regrouped := regrouped_codeScript inTurn (steps.symm ▸ areSteps) named
      (by rw [ofTurn_body .code (by decide), code.ofTurn, inInside.ofTurn_of_not_mem (by decide),
            maxs.ofTurn_of_ne (by decide)]; rfl)
      (by rw [ofTurn_body .maxs (by decide), code.ofTurn_of_ne (by decide),
            inInside.ofTurn_of_not_mem (by decide), maxs.ofTurn]; rfl) header
    rw [hasCode, if_pos rfl]
    conv_lhs => rw [inTurn.eq_flatMap (by decide), Turn.ofWholeMethod, List.flatMap_append]
    exact regrouped.append_left _

end ClassFile
