import ClassFile.Proofs.Gating.Pruning
import ClassFile.Proofs.Tree.Methods
import ClassFile.Tree.Class

/-!
# Trees that are told for less

A tree that is told for a version is told like the whole story of the tree without what is newer
(`ClassTree.gates_script`).  It goes on behind a dynamic constant that is not known, but nobody is told
what comes behind a fault.
-/

namespace ClassFile

open Item

namespace Api

/-- A version that supports a construct supports all that came with an earlier one. -/
theorem supports_trans {api required earlier : Api} (supports : api.supports required = true)
    (before : required.supports earlier = true) : api.supports earlier = true := by
  rw [Api.supports, decide_eq_true_iff] at *
  exact before.trans supports

theorem supports_first (api : Api) : api.supports .v4 = true := by
  cases api <;> rfl

end Api

/-! ### Items that are told alike -/

namespace Consumer

variable {σ : Type} {consumer : Consumer σ}

theorem tell_append (items others : List Item) :
    consumer.tell (items ++ others) = (do consumer.tell items; consumer.tell others) := by
  induction items with
  | nil => simp [tell]
  | cons item rest ih => simp [tell, ih]

/-- Nothing behind a fault is told. -/
theorem tell_fault (cause : ClassError) (items : List Item) :
    consumer.tell (.fault cause :: items) = failure cause := by
  rw [tell, tellItem]
  rfl

end Consumer

namespace Item

variable {items others more rest : List Item}

/-- Whether items are told like others, to whomever they are told. -/
def Alike (items others : List Item) : Prop :=
  ∀ ⦃σ : Type⦄ (consumer : Consumer σ), consumer.tell items = consumer.tell others

theorem Alike.refl (items : List Item) : Alike items items :=
  fun _ _ => rfl

theorem Alike.trans (alike : Alike items others) (next : Alike others more) : Alike items more :=
  fun _ consumer => (alike consumer).trans (next consumer)

theorem Alike.append (alike : Alike items others) (alikeRest : Alike more rest) :
    Alike (items ++ more) (others ++ rest) := by
  intro σ consumer
  rw [Consumer.tell_append, Consumer.tell_append, alike consumer, alikeRest consumer]

theorem Alike.scope (opening : Opening) (alike : Alike items others) :
    Alike [.scope opening items] [.scope opening others] := by
  intro σ consumer
  simp only [Consumer.tell, Consumer.tellItem, alike consumer]

theorem alike_fault (cause : ClassError) (items : List Item) :
    Alike (.fault cause :: items) [.fault cause] := by
  intro σ consumer
  rw [Consumer.tell_fault, Consumer.tell_fault]

end Item

/-! ### Items that came with a version -/

namespace Item

open ReadOptions

/-- Whether an item without faults came with a version and has nothing newer inside it.  Instructions are
not meant, since they can't be left out. -/
structure CameWith (required : Api) (item : Item) : Prop where
  whole : item.IsWhole
  inside : ∀ event ∈ item.events, event.IsKnownTo required
  /-- Who does not know the version is told nothing at all. -/
  dropped : ∀ api : Api, api.supports required = false → (upTo api).IsDropped item

variable {required api : Api}

theorem cameWith_event {event : Event} (came : event.since = required)
    (noInstruction : ∀ instruction, event ≠ .methodItem (.instruction instruction)) :
    CameWith required (.event event) where
  whole := trivial
  inside := by
    simp only [events, List.mem_singleton, forall_eq, Event.IsKnownTo, came]
    cases required <;> rfl
  dropped := by
    intro api unknown
    refine isDropped_event ?_ ?_
    · rw [passes, Bool.and_eq_true, Bool.not_eq_true', Bool.not_eq_true']
      constructor
      · unfold endsAt
        split <;> rfl
      · unfold refuses
        split
        · rename_i instruction same
          cases same
          exact absurd rfl (noInstruction instruction)
        · rfl
    · rw [← Bool.not_eq_true, upTo_tells, Event.IsKnownTo, came, unknown]
      exact Bool.false_ne_true

theorem cameWith_scope {opening : Opening} {body : List Item} (came : opening.since = required)
    (inside : ∀ item ∈ body, ∃ earlier, required.supports earlier = true ∧ item.CameWith earlier) :
    CameWith required (.scope opening body) where
  whole := by
    rw [IsWhole, areWhole_iff]
    intro item member
    rcases inside item member with ⟨earlier, -, isSound⟩
    exact isSound.whole
  inside := by
    rw [events, List.forall_mem_cons, List.forall_mem_append, forall_mem_allEvents]
    refine ⟨?_, fun item member event isEvent => ?_, ?_⟩
    · simp only [Event.IsKnownTo, Event.since, came]
      cases required <;> rfl
    · rcases inside item member with ⟨earlier, supports, isSound⟩
      exact Api.supports_trans supports (isSound.inside event isEvent)
    · simpa using Event.isKnownTo_first rfl
  dropped := by
    intro api unknown
    refine isDropped_scope ?_ body
    rw [← Bool.not_eq_true, upTo_tells, Event.IsKnownTo, Event.since, came, unknown]
    exact Bool.false_ne_true

/-- A scope with nothing but first things inside. -/
theorem cameWith_scope_first {opening : Opening} {body : List Item} (came : opening.since = required)
    (inside : ∀ item ∈ body, item.CameWith .v4) : CameWith required (.scope opening body) :=
  cameWith_scope came fun item member => ⟨.v4, required.supports_first, inside item member⟩

mutual

/-- What is known is told as it is. -/
theorem isUntouched_of_isKnown (item : Item) (isKnown : ∀ event ∈ item.events, event.IsKnownTo api) :
    (upTo api).IsUntouched item := by
  cases item with
  | event event => exact isUntouched_event (upTo_tells.mpr (by simpa [events] using isKnown))
  | fault cause => exact isUntouched_fault cause
  | scope opening body =>
      rw [events, List.forall_mem_cons, List.forall_mem_append] at isKnown
      exact isUntouched_scope (upTo_tells.mpr isKnown.1) (areUntouched_of_areKnown body isKnown.2.1)

theorem areUntouched_of_areKnown (items : List Item)
    (areKnown : ∀ event ∈ allEvents items, event.IsKnownTo api) :
    ∀ item ∈ items, (upTo api).IsUntouched item := by
  cases items with
  | nil => simp
  | cons item rest =>
      rw [allEvents, List.forall_mem_append] at areKnown
      rw [List.forall_mem_cons]
      exact ⟨isUntouched_of_isKnown item areKnown.1, areUntouched_of_areKnown rest areKnown.2⟩

end

end Item

/-! ### Stories that are told for a version -/

/-- Whether what is told for a version is told like what is left of a whole story. -/
structure Api.Gates (api : Api) (whole told : Script) : Prop where
  isWhole : AreWhole whole
  alike : Alike told ((ReadOptions.upTo api).pruneAll whole)

namespace Api

open ReadOptions

variable {api required : Api} {whole told more others items : Script}

theorem alike_pruneAll_append (front back : List Item) :
    Alike ((upTo api).pruneAll front ++ (upTo api).pruneAll back) ((upTo api).pruneAll (front ++ back)) := by
  induction front with
  | nil => exact Alike.refl _
  | cons item rest ih =>
      rw [List.cons_append, pruneAll, pruneAll, upTo_endsAt, if_neg Bool.false_ne_true,
        if_neg Bool.false_ne_true]
      split
      · exact alike_fault _ _
      · rw [List.append_assoc]
        exact (Alike.refl _).append ih

theorem Gates.append (gates : api.Gates whole told) (gatesMore : api.Gates more others) :
    api.Gates (whole ++ more) (told ++ others) where
  isWhole := by
    rw [areWhole_iff, List.forall_mem_append, ← areWhole_iff, ← areWhole_iff]
    exact ⟨gates.isWhole, gatesMore.isWhole⟩
  alike := (gates.alike.append gatesMore.alike).trans (alike_pruneAll_append whole more)

theorem gates_nil : api.Gates [] [] :=
  ⟨trivial, Alike.refl _⟩

theorem gates_flatMap {α : Type} {values : List α} {wholeOf toldOf : α → Script}
    (each : ∀ value ∈ values, api.Gates (wholeOf value) (toldOf value)) :
    api.Gates (values.flatMap wholeOf) (values.flatMap toldOf) := by
  induction values with
  | nil => exact gates_nil
  | cons value rest ih =>
      rw [List.forall_mem_cons] at each
      exact each.1.append (ih each.2)

/-- A scope that every version knows. -/
theorem Gates.scope {opening : Opening} (came : opening.since = .v4) (gates : api.Gates whole told) :
    api.Gates [.scope opening whole] [.scope opening told] where
  isWhole := ⟨gates.isWhole, trivial⟩
  alike := by
    have pruned : (upTo api).pruneAll [.scope opening whole] =
        [.scope opening ((upTo api).pruneAll whole)] := by
      have asked : (upTo api).tells (.enter opening) = true := tells_first came rfl
      simp [pruneAll, prune, endsAt, refuses, asked]
    rw [pruned]
    exact gates.alike.scope opening

theorem gates_map {α : Type} {values : List α} {wholeOf toldOf : α → Item}
    (each : ∀ value ∈ values, api.Gates [wholeOf value] [toldOf value]) :
    api.Gates (values.map wholeOf) (values.map toldOf) := by
  rw [List.map_eq_flatMap, List.map_eq_flatMap]
  exact gates_flatMap each

/-- What is known is told. -/
theorem gates_known (isWhole : AreWhole items)
    (areKnown : ∀ item ∈ items, ∀ event ∈ item.events, event.IsKnownTo api) : api.Gates items items where
  isWhole := isWhole
  alike := by
    rw [pruneAll_of_isUntouched fun item member => isUntouched_of_isKnown item (areKnown item member)]
    exact Alike.refl items

/-- Items that came with a version are told from that version on. -/
theorem gates_since (came : ∀ item ∈ items, item.CameWith required) :
    api.Gates items (items.since required api) := by
  have isWhole : AreWhole items := areWhole_iff.mpr fun item member => (came item member).whole
  rw [Script.since]
  cases supports : api.supports required with
  | false =>
      refine ⟨isWhole, ?_⟩
      rw [pruneAll_of_isDropped fun item member => (came item member).dropped api supports]
      exact Alike.refl []
  | true =>
      exact gates_known isWhole fun item member event isEvent =>
        supports_trans supports ((came item member).inside event isEvent)

/-- What came with the first version is told to everyone. -/
theorem gates_first (came : ∀ item ∈ items, item.CameWith .v4) : api.Gates items items := by
  have gates : api.Gates items (items.since .v4 api) := gates_since came
  rwa [Script.since, supports_first, if_pos rfl] at gates

end Api

/-! ### The parts of a tree -/

variable {api : Api}

theorem mem_visibleFirst {α : Type} {visible : α → Bool} {entries : List α} {entry : α} :
    entry ∈ visibleFirst visible entries ↔ entry ∈ entries :=
  (visibleFirst_perm visible entries).mem_iff

mutual

/-- Values of annotations came with the first version. -/
theorem Element.cameWith_item (element : Element) : element.item.CameWith .v4 := by
  cases element with
  | constant name? value =>
      rw [item]
      exact cameWith_event rfl (by simp)
  | enumeration name? descriptor value =>
      rw [item]
      exact cameWith_event rfl (by simp)
  | nested name? descriptor elements =>
      rw [item, itemsAfter_eq, List.reverse_nil, List.nil_append]
      exact cameWith_scope_first rfl (Element.cameWith_map_item elements)
  | array name? elements =>
      rw [item, itemsAfter_eq, List.reverse_nil, List.nil_append]
      exact cameWith_scope_first rfl (Element.cameWith_map_item elements)

theorem Element.cameWith_map_item (elements : List Element) :
    ∀ item ∈ elements.map Element.item, item.CameWith .v4 := by
  cases elements with
  | nil => simp
  | cons element rest =>
      rw [List.map_cons, List.forall_mem_cons]
      exact ⟨Element.cameWith_item element, Element.cameWith_map_item rest⟩

end

/-- An annotation came with the version that its scope came with. -/
theorem Element.cameWith_scope {opening : Opening} {required : Api} (came : opening.since = required)
    (elements : List Element) : CameWith required (.scope opening (items elements)) := by
  rw [items_eq_map]
  exact cameWith_scope_first came (cameWith_map_item elements)

theorem AnnotationTree.cameWith_item (tree : AnnotationTree) : tree.item.CameWith .v4 :=
  Element.cameWith_scope (by rfl) tree.elements

theorem TypeAnnotationTree.cameWith_script {opening : TypeUse → Opening}
    (came : ∀ use, (opening use).since = .v5) (trees : List TypeAnnotationTree) :
    ∀ item ∈ script opening trees, item.CameWith .v5 :=
  List.forall_mem_map.mpr fun tree _ => Element.cameWith_scope (came tree.use) tree.elements

theorem Attribute.cameWith_script (entries : List Attribute) :
    ∀ item ∈ Attribute.script entries, item.CameWith .v4 :=
  List.forall_mem_map.mpr fun _ _ => cameWith_event rfl (by simp)

namespace Attachments

variable (attachments : Attachments)

theorem cameWith_annotationScript : ∀ item ∈ attachments.annotationScript, item.CameWith .v4 :=
  List.forall_mem_map.mpr fun tree _ => tree.cameWith_item

theorem cameWith_typeAnnotationScript : ∀ item ∈ attachments.typeAnnotationScript, item.CameWith .v5 :=
  TypeAnnotationTree.cameWith_script (fun _ => rfl) _

theorem cameWith_attributeScript : ∀ item ∈ attachments.attributeScript, item.CameWith .v4 :=
  Attribute.cameWith_script _

end Attachments

theorem ComponentTree.cameWith_item (tree : ComponentTree) : tree.item.CameWith .v8 := by
  have inside : ∀ item ∈ tree.attachments.annotationScript ++ tree.attachments.typeAnnotationScript ++
      tree.attachments.attributeScript,
        ∃ earlier, Api.v8.supports earlier = true ∧ item.CameWith earlier := by
    rw [List.forall_mem_append, List.forall_mem_append]
    exact ⟨⟨fun item member => ⟨.v4, rfl, tree.attachments.cameWith_annotationScript item member⟩,
      fun item member => ⟨.v5, rfl, tree.attachments.cameWith_typeAnnotationScript item member⟩⟩,
      fun item member => ⟨.v4, rfl, tree.attachments.cameWith_attributeScript item member⟩⟩
  exact cameWith_scope rfl inside

theorem ModuleTree.cameWith_item (tree : ModuleTree) : tree.item.CameWith .v6 := by
  have inside : ∀ item ∈ tree.events.map fun event => Item.event (.moduleItem event),
      ∃ earlier, Api.v6.supports earlier = true ∧ item.CameWith earlier :=
    List.forall_mem_map.mpr fun event _ => ⟨.v6, rfl, cameWith_event rfl (by simp)⟩
  exact cameWith_scope rfl inside

/-- What is told of a field for a version is what is left of the whole field. -/
theorem FieldTree.gates_item (tree : FieldTree) : api.Gates [tree.item .latest] [tree.item api] := by
  refine Api.Gates.scope rfl (Api.Gates.append (Api.Gates.append ?_ ?_) ?_)
  · exact Api.gates_first tree.attachments.cameWith_annotationScript
  · rw [Script.since_latest]
    exact Api.gates_since tree.attachments.cameWith_typeAnnotationScript
  · exact Api.gates_first tree.attachments.cameWith_attributeScript

/-! ### Methods -/

namespace InstructionTree

theorem script_eq (tree : InstructionTree) (api : Api) : tree.script api =
    if tree.instruction.usesDynamicConstant && ! api.supports .v7 then [.fault api.refusal]
    else .event (.methodItem (.instruction tree.instruction)) ::
      (TypeAnnotationTree.script .annotateInstruction tree.typeAnnotations).since .v5 api := by
  rw [script, Api.requireFor]
  cases tree.instruction.usesDynamicConstant && ! api.supports .v7 <;> rfl

/-- An element of a body is told, or it is refused where it needs a dynamic constant that is not known. -/
theorem gates_script (tree : InstructionTree) : api.Gates (tree.script .latest) (tree.script api) := by
  have notes : ∀ item ∈ TypeAnnotationTree.script .annotateInstruction tree.typeAnnotations,
      item.CameWith .v5 := TypeAnnotationTree.cameWith_script (fun _ => rfl) _
  rw [script_latest, script_eq]
  split
  · rename_i refused
    refine ⟨⟨trivial, areWhole_iff.mpr fun item member => (notes item member).whole⟩, ?_⟩
    rw [ReadOptions.pruneAll]
    simp only [ReadOptions.endsAt, ReadOptions.refuses, ReadOptions.upTo, refused, if_true,
      Bool.false_eq_true, if_false]
    exact Alike.refl _
  · rename_i accepted
    have isKnown : (Event.methodItem (.instruction tree.instruction)).IsKnownTo api := by
      refine Event.isKnownTo_instruction fun uses => ?_
      simpa [uses] using accepted
    refine @Api.Gates.append _ [_] [_] _ _ ?_ (Api.gates_since notes)
    exact Api.gates_known ⟨trivial, trivial⟩ (by simpa [events] using isKnown)

end InstructionTree

theorem HandlerTree.gates_script (handlers : List HandlerTree) :
    api.Gates (script .latest handlers) (script api handlers) := by
  refine Api.Gates.append (Api.gates_first ?_) ?_
  · exact List.forall_mem_map.mpr fun _ _ => cameWith_event rfl (by simp)
  · rw [Script.since_latest]
    refine Api.gates_since fun item member => ?_
    rcases List.mem_flatMap.mp member with ⟨handler, -, isNote⟩
    exact TypeAnnotationTree.cameWith_script (fun _ => rfl) _ item isNote

theorem ParameterAnnotationTree.cameWith_script (visible : Bool) (count? : Option UInt8)
    (trees : List ParameterAnnotationTree) :
    ∀ item ∈ script visible count? trees, item.CameWith .v4 := by
  rw [script, List.forall_mem_append]
  exact ⟨List.forall_mem_map.mpr fun _ _ => cameWith_event rfl (by simp),
    List.forall_mem_map.mpr fun tree _ => Element.cameWith_scope (by rfl) tree.elements⟩

namespace MethodTree

variable (tree : MethodTree)

theorem gates_codeScript : api.Gates (tree.codeScript .latest) (tree.codeScript api) := by
  refine .append (.append (.append (.append (.append (.append ?_ ?_) ?_) ?_) ?_) ?_) ?_
  · exact Api.gates_first (List.forall_mem_singleton.mpr (cameWith_event rfl (by simp)))
  · exact HandlerTree.gates_script tree.handlers
  · exact Api.gates_flatMap fun element _ => element.gates_script
  · exact Api.gates_first (List.forall_mem_map.mpr fun _ _ => cameWith_event rfl (by simp))
  · rw [Script.since_latest]
    exact Api.gates_since (List.forall_mem_map.mpr fun note _ =>
      Element.cameWith_scope (by rfl) note.elements)
  · exact Api.gates_first (Attribute.cameWith_script _)
  · exact Api.gates_first (List.forall_mem_singleton.mpr (cameWith_event rfl (by simp)))

/-- What is told of a method for a version is what is left of the whole method. -/
theorem gates_script : api.Gates (tree.script .latest) (tree.script api) := by
  refine .append (.append (.append (.append (.append (.append (.append ?_ ?_) ?_) ?_) ?_) ?_) ?_) ?_
  · rw [Script.since_latest]
    exact Api.gates_since (List.forall_mem_map.mpr fun _ _ => cameWith_event rfl (by simp))
  · refine Api.gates_first (List.forall_mem_map.mpr fun element _ => ?_)
    exact cameWith_scope_first rfl (by simpa using element.cameWith_item)
  · exact Api.gates_first tree.attachments.cameWith_annotationScript
  · rw [Script.since_latest]
    exact Api.gates_since tree.attachments.cameWith_typeAnnotationScript
  · exact Api.gates_first (ParameterAnnotationTree.cameWith_script _ _ _)
  · exact Api.gates_first (ParameterAnnotationTree.cameWith_script _ _ _)
  · exact Api.gates_first (Attribute.cameWith_script _)
  · split
    · exact tree.gates_codeScript
    · exact Api.gates_nil

theorem gates_item : api.Gates [tree.item .latest] [tree.item api] :=
  tree.gates_script.scope rfl

end MethodTree

/-! ### Classes -/

namespace ClassTree

theorem cameWith_tellAll {items : List ClassItem} {required : Api}
    (came : ∀ item ∈ items, item.since = required) : ∀ item ∈ tellAll items, item.CameWith required :=
  List.forall_mem_map.mpr fun item member => cameWith_event (came item member) (by simp)

/-- What is told of a class for a version is what is left of the whole class. -/
theorem gates_script (tree : ClassTree) :
    api.Gates (tree.script .latest .latest) (tree.script api api) := by
  simp only [script, Script.since_latest]
  refine .append (.append (.append (.append (.append (.append (.append (.append (.append (.append
    (.append (.append (.append ?_ ?_) ?_) ?_) ?_) ?_) ?_) ?_) ?_) ?_) ?_) ?_) ?_) ?_
  · refine Api.gates_first (cameWith_tellAll ?_)
    rw [List.forall_mem_cons, sourceEvents]
    refine ⟨rfl, ?_⟩
    split <;> simp [ClassItem.since]
  · exact Api.gates_since (List.forall_mem_map.mpr fun declared _ => declared.cameWith_item)
  · exact Api.gates_since (cameWith_tellAll (List.forall_mem_map.mpr fun _ _ => rfl))
  · exact Api.gates_first (cameWith_tellAll (List.forall_mem_map.mpr fun _ _ => rfl))
  · exact Api.gates_first tree.attachments.cameWith_annotationScript
  · exact Api.gates_since tree.attachments.cameWith_typeAnnotationScript
  · exact Api.gates_first tree.attachments.cameWith_attributeScript
  · exact Api.gates_since (cameWith_tellAll (List.forall_mem_map.mpr fun _ _ => rfl))
  · exact Api.gates_since (cameWith_tellAll (List.forall_mem_map.mpr fun _ _ => rfl))
  · exact Api.gates_first (cameWith_tellAll (List.forall_mem_map.mpr fun _ _ => rfl))
  · exact Api.gates_since (List.forall_mem_map.mpr fun component _ => component.cameWith_item)
  · exact Api.gates_map fun field _ => field.gates_item
  · exact Api.gates_map fun method _ => method.gates_item
  · exact Api.gates_first (List.forall_mem_singleton.mpr (cameWith_event rfl (by simp)))

end ClassTree

end ClassFile
