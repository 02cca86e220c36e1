import ClassFile.Proofs.Gating.Hearings
import ClassFile.Proofs.Gating.Trees

/-!
# Checks before a replay

What a version does not know is written down twice: in the checks, and in the scripts that leave it out.
The check of a tree succeeds exactly if the version knows every event of the whole story of the tree and
the notes of methods without code, which are never told (`ClassTree.check_eq_ok`).  So a check says
beforehand whether a consumer of the version is told the whole story (`ClassTree.check_predicts_hearing`).
-/

namespace ClassFile

open Item

/-! ### Checks in sequence -/

theorem seq_eq_ok {ε : Type} {first second : Except ε Unit} :
    (first >>= fun _ => second) = .ok () ↔ first = .ok () ∧ second = .ok () := by
  cases first <;> simp

theorem forM_eq_ok {ε α : Type} {check : α → Except ε Unit} {values : List α} :
    values.forM check = .ok () ↔ ∀ value ∈ values, check value = .ok () := by
  induction values with
  | nil => simp [List.forM, pure, Except.pure]
  | cons value rest ih => rw [List.forM, seq_eq_ok, ih, List.forall_mem_cons]

/-! ### Stories that a version knows -/

namespace Item

variable {api required : Api} {items others : List Item}

/-- Whether a version knows all that items tell. -/
def AreKnownTo (api : Api) (items : List Item) : Prop :=
  ∀ event ∈ allEvents items, event.IsKnownTo api

theorem areKnownTo_append :
    AreKnownTo api (items ++ others) ↔ AreKnownTo api items ∧ AreKnownTo api others := by
  rw [AreKnownTo, allEvents_append, List.forall_mem_append]
  rfl

theorem areKnownTo_flatMap {α : Type} {values : List α} {script : α → Script} :
    AreKnownTo api (values.flatMap script) ↔ ∀ value ∈ values, AreKnownTo api (script value) := by
  induction values with
  | nil => simp [AreKnownTo, allEvents]
  | cons value rest ih => rw [List.flatMap_cons, areKnownTo_append, ih, List.forall_mem_cons]

theorem areKnownTo_map {α : Type} {values : List α} {item : α → Item} :
    AreKnownTo api (values.map item) ↔ ∀ value ∈ values, AreKnownTo api [item value] := by
  rw [List.map_eq_flatMap, areKnownTo_flatMap]

/-- A scope that every version knows is known as what is inside it. -/
theorem areKnownTo_scope {opening : Opening} (came : opening.since = .v4) :
    AreKnownTo api [.scope opening items] ↔ AreKnownTo api items := by
  have entered : (Event.enter opening).IsKnownTo api := Event.isKnownTo_first came
  have finished : Event.finish.IsKnownTo api := Event.isKnownTo_first rfl
  simp [AreKnownTo, allEvents, events, or_imp, forall_and, entered, finished]

/-- An item that came with a version is known from that version on. -/
theorem CameWith.isKnown_iff {item : Item} (came : item.CameWith required) :
    (∀ event ∈ item.events, event.IsKnownTo api) ↔ api.supports required = true := by
  constructor
  · intro isKnown
    by_contra unknown
    have dropped := (came.dropped api (Bool.not_eq_true _ ▸ unknown)).nothing
    rw [(isUntouched_of_isKnown item isKnown).same] at dropped
    cases dropped
  · exact fun supports event isEvent => Api.supports_trans supports (came.inside event isEvent)

theorem areKnownTo_iff (came : ∀ item ∈ items, item.CameWith required) :
    AreKnownTo api items ↔ (items ≠ [] → api.supports required = true) := by
  rw [AreKnownTo, forall_mem_allEvents]
  constructor
  · intro areKnown nonempty
    rcases List.exists_mem_of_ne_nil items nonempty with ⟨item, member⟩
    exact (came item member).isKnown_iff.mp (areKnown item member)
  · intro supports item member
    exact (came item member).isKnown_iff.mpr (supports (List.ne_nil_of_mem member))

theorem areKnownTo_first (came : ∀ item ∈ items, item.CameWith .v4) : AreKnownTo api items :=
  (areKnownTo_iff came).mpr fun _ => api.supports_first

end Item

variable {api : Api}

theorem Api.requireFor_eq_ok {used : Bool} {construct : String} {required : Api} :
    api.requireFor used construct required = .ok () ↔ (used = true → api.supports required = true) := by
  rw [requireFor]
  cases used <;> cases api.supports required <;> simp

/-- A version is required for items that came with it. -/
theorem Api.requireFor_eq_ok_iff {used : Bool} {construct : String} {required : Api} {items : List Item}
    (came : ∀ item ∈ items, item.CameWith required) (isUsed : used = true ↔ items ≠ []) :
    api.requireFor used construct required = .ok () ↔ AreKnownTo api items := by
  rw [requireFor_eq_ok, areKnownTo_iff came, isUsed]

theorem visibleFirst_eq_nil {α : Type} {visible : α → Bool} {entries : List α} :
    visibleFirst visible entries = [] ↔ entries = [] :=
  ⟨fun empty => ((visibleFirst_perm visible entries).symm.trans (.of_eq empty)).eq_nil,
    fun empty => ((visibleFirst_perm visible entries).trans (.of_eq empty)).eq_nil⟩

/-! ### Members -/

theorem TypeAnnotationTree.script_eq_nil {opening : TypeUse → Opening} {trees : List TypeAnnotationTree} :
    script opening trees = [] ↔ trees = [] := by
  rw [script, List.map_eq_nil_iff, visibleFirst_eq_nil]

theorem Attachments.areKnownTo_typeAnnotationScript (attachments : Attachments) :
    AreKnownTo api attachments.typeAnnotationScript ↔
      (attachments.typeAnnotations ≠ [] → api.supports .v5 = true) := by
  rw [areKnownTo_iff attachments.cameWith_typeAnnotationScript, typeAnnotationScript, Ne,
    TypeAnnotationTree.script_eq_nil]

theorem Attachments.check_eq_ok (attachments : Attachments) :
    attachments.check api = .ok () ↔ AreKnownTo api attachments.typeAnnotationScript := by
  rw [check, Api.requireFor_eq_ok, areKnownTo_typeAnnotationScript]
  simp

theorem FieldTree.areKnownTo_item (tree : FieldTree) :
    AreKnownTo api [tree.item .latest] ↔ AreKnownTo api tree.attachments.typeAnnotationScript := by
  have annotations : AreKnownTo api tree.attachments.annotationScript :=
    areKnownTo_first tree.attachments.cameWith_annotationScript
  have attributes : AreKnownTo api tree.attachments.attributeScript :=
    areKnownTo_first tree.attachments.cameWith_attributeScript
  rw [item, areKnownTo_scope rfl]
  simp only [areKnownTo_append, annotations, attributes, Script.since_latest, true_and, and_true]

theorem InstructionTree.check_eq_ok (tree : InstructionTree) :
    tree.check api = .ok () ↔ AreKnownTo api (tree.script .latest) := by
  have notes : api.requireFor (! tree.typeAnnotations.isEmpty) "instruction annotations" .v5 = .ok () ↔
      AreKnownTo api (TypeAnnotationTree.script .annotateInstruction tree.typeAnnotations) := by
    refine Api.requireFor_eq_ok_iff (TypeAnnotationTree.cameWith_script (fun _ => rfl) _) ?_
    rw [Ne, TypeAnnotationTree.script_eq_nil]
    simp
  have instruction : api.requireFor tree.instruction.usesDynamicConstant "dynamic constants" .v7 = .ok () ↔
      AreKnownTo api [.event (.methodItem (.instruction tree.instruction))] := by
    rw [Api.requireFor_eq_ok]
    cases uses : tree.instruction.usesDynamicConstant <;>
      simp [AreKnownTo, allEvents, events, Event.IsKnownTo, Event.since, MethodItem.since,
        Instruction.since, uses, Api.supports_first]
  rw [check, seq_eq_ok, notes, instruction, and_comm, script_latest, ← areKnownTo_append,
    List.singleton_append]

theorem HandlerTree.areKnownTo_script (handlers : List HandlerTree) :
    AreKnownTo api (script .latest handlers) ↔
      ((∃ handler ∈ handlers, handler.typeAnnotations ≠ []) → api.supports .v5 = true) := by
  have blocks : AreKnownTo api
      (handlers.map fun handler => Item.event (.methodItem (.tryCatch handler.block))) :=
    areKnownTo_first (List.forall_mem_map.mpr fun _ _ => cameWith_event rfl (by simp))
  have notes : ∀ item ∈ handlers.flatMap fun handler =>
      TypeAnnotationTree.script .annotateTryCatch handler.typeAnnotations, item.CameWith .v5 := by
    intro item member
    rcases List.mem_flatMap.mp member with ⟨handler, -, isNote⟩
    exact TypeAnnotationTree.cameWith_script (fun _ => rfl) _ item isNote
  rw [script, areKnownTo_append, Script.since_latest, areKnownTo_iff notes, Ne, List.flatMap_eq_nil_iff]
  simp [blocks, TypeAnnotationTree.script_eq_nil]

namespace MethodTree

/-- Whether a method without code has type annotations on handlers or local variables, which are told
with the code alone. -/
def HasStrayNotes (tree : MethodTree) : Prop :=
  tree.hasCode = false ∧
    (tree.localAnnotations ≠ [] ∨ ∃ handler ∈ tree.handlers, handler.typeAnnotations ≠ [])

variable (tree : MethodTree)

theorem hasTypeAnnotations_iff : tree.hasTypeAnnotations = true ↔
    tree.attachments.typeAnnotations ≠ [] ∨ tree.localAnnotations ≠ [] ∨
      ∃ handler ∈ tree.handlers, handler.typeAnnotations ≠ [] := by
  simp [hasTypeAnnotations, or_assoc]

theorem areKnownTo_codeScript : AreKnownTo api (tree.codeScript .latest) ↔
    ((∃ handler ∈ tree.handlers, handler.typeAnnotations ≠ []) → api.supports .v5 = true) ∧
      (∀ element ∈ tree.instructions, element.check api = .ok ()) ∧
        (tree.localAnnotations ≠ [] → api.supports .v5 = true) := by
  have start : AreKnownTo api [.event (.methodItem .code)] :=
    areKnownTo_first (List.forall_mem_singleton.mpr (cameWith_event rfl (by simp)))
  have locals : AreKnownTo api
      (tree.localVariables.map fun entry => Item.event (.methodItem (.localVariable entry))) :=
    areKnownTo_first (List.forall_mem_map.mpr fun _ _ => cameWith_event rfl (by simp))
  have notes : ∀ item ∈ (visibleFirst (·.use.visible) tree.localAnnotations).map LocalAnnotationTree.item,
      item.CameWith .v5 :=
    List.forall_mem_map.mpr fun note _ => Element.cameWith_scope (by rfl) note.elements
  have attributes : AreKnownTo api (Attribute.script (tree.attachments.attributes.filter (·.inCode))) :=
    areKnownTo_first (Attribute.cameWith_script _)
  have sizes : AreKnownTo api [.event (.methodItem (.maxs tree.maxStack tree.maxLocals))] :=
    areKnownTo_first (List.forall_mem_singleton.mpr (cameWith_event rfl (by simp)))
  simp only [codeScript, areKnownTo_append, start, locals, attributes, sizes, true_and, and_true,
    Script.since_latest, HandlerTree.areKnownTo_script, areKnownTo_flatMap, ← InstructionTree.check_eq_ok,
    areKnownTo_iff notes, Ne, List.map_eq_nil_iff, visibleFirst_eq_nil, and_assoc]

theorem areKnownTo_item : AreKnownTo api [tree.item .latest] ↔
    (tree.parameters ≠ [] → api.supports .v5 = true) ∧
      (tree.attachments.typeAnnotations ≠ [] → api.supports .v5 = true) ∧
        (tree.hasCode = true → AreKnownTo api (tree.codeScript .latest)) := by
  have parameters : ∀ item ∈ tree.parameters.map
      fun parameter => Item.event (.methodItem (.parameter parameter)), item.CameWith .v5 :=
    List.forall_mem_map.mpr fun _ _ => cameWith_event rfl (by simp)
  have defaults : AreKnownTo api
      (tree.default?.toList.map fun element => .scope .annotationDefault [element.item]) :=
    areKnownTo_first (List.forall_mem_map.mpr fun element _ =>
      cameWith_scope_first rfl (by simpa using element.cameWith_item))
  have annotations : AreKnownTo api tree.attachments.annotationScript :=
    areKnownTo_first tree.attachments.cameWith_annotationScript
  have onParameters (visible : Bool) (count? : Option UInt8) :
      AreKnownTo api (ParameterAnnotationTree.script visible count? tree.parameterAnnotations) :=
    areKnownTo_first (ParameterAnnotationTree.cameWith_script _ _ _)
  have attributes : AreKnownTo api
      (Attribute.script (tree.attachments.attributes.filter fun entry => ! entry.inCode)) :=
    areKnownTo_first (Attribute.cameWith_script _)
  have code : AreKnownTo api (if tree.hasCode then tree.codeScript .latest else []) ↔
      (tree.hasCode = true → AreKnownTo api (tree.codeScript .latest)) := by
    cases tree.hasCode <;> simp [AreKnownTo, allEvents]
  rw [item, areKnownTo_scope rfl]
  simp only [script, areKnownTo_append, defaults, annotations, onParameters, attributes, code, and_true,
    Script.since_latest, areKnownTo_iff parameters, Ne, List.map_eq_nil_iff,
    Attachments.areKnownTo_typeAnnotationScript, and_assoc]

/-- A method passes the check if the version knows the story of the method and what the story leaves out,
since there is no code. -/
theorem check_eq_ok : tree.check api = .ok () ↔
    AreKnownTo api [tree.item .latest] ∧ (tree.HasStrayNotes → api.supports .v5 = true) := by
  have empty : tree.hasCode = false → tree.instructions = [] := by simp [hasCode]
  have parameters : (! tree.parameters.isEmpty) = true ↔ tree.parameters ≠ [] := by simp
  rw [check, seq_eq_ok, seq_eq_ok, Api.requireFor_eq_ok, Api.requireFor_eq_ok, forM_eq_ok, parameters,
    hasTypeAnnotations_iff, areKnownTo_item, areKnownTo_codeScript, HasStrayNotes]
  cases code : tree.hasCode with
  | true =>
      simp only [Bool.true_eq_false, false_and, false_implies, true_implies, and_true, or_imp]
      tauto
  | false =>
      simp only [Bool.false_eq_true, empty code, true_and, false_implies, List.not_mem_nil, implies_true,
        and_true, or_imp]
      tauto

end MethodTree

/-! ### Classes -/

namespace ClassTree

variable (tree : ClassTree)

/-- A class passes the check if the version knows the whole story of the class and the notes of methods
without code. -/
theorem check_eq_ok : tree.check api = .ok () ↔
    AreKnownTo api (tree.script .latest .latest) ∧
      ((∃ method ∈ tree.methods, method.HasStrayNotes) → api.supports .v5 = true) := by
  have heads : AreKnownTo api (tellAll (.header tree.header :: tree.sourceEvents)) := by
    refine areKnownTo_first (cameWith_tellAll ?_)
    rw [List.forall_mem_cons, sourceEvents]
    refine ⟨rfl, ?_⟩
    split <;> simp [ClassItem.since]
  have modules : api.requireFor tree.module?.isSome "module" .v6 = .ok () ↔
      AreKnownTo api (tree.module?.toList.map ModuleTree.item) := by
    refine Api.requireFor_eq_ok_iff (List.forall_mem_map.mpr fun declared _ => declared.cameWith_item) ?_
    cases tree.module? <;> simp
  have nestHost : api.requireFor tree.nestHost?.isSome "nest host" .v7 = .ok () ↔
      AreKnownTo api (tellAll (tree.nestHost?.toList.map .nestHost)) := by
    refine Api.requireFor_eq_ok_iff (cameWith_tellAll (List.forall_mem_map.mpr fun _ _ => rfl)) ?_
    cases tree.nestHost? <;> simp [tellAll]
  have enclosing : AreKnownTo api (tellAll (tree.enclosing?.toList.map fun enclosing =>
      .outerClass enclosing.owner enclosing.name? enclosing.descriptor?)) :=
    areKnownTo_first (cameWith_tellAll (List.forall_mem_map.mpr fun _ _ => rfl))
  have annotations : AreKnownTo api tree.attachments.annotationScript :=
    areKnownTo_first tree.attachments.cameWith_annotationScript
  have attributes : AreKnownTo api tree.attachments.attributeScript :=
    areKnownTo_first tree.attachments.cameWith_attributeScript
  have nestMembers : api.requireFor (! tree.nestMembers.isEmpty) "nest members" .v7 = .ok () ↔
      AreKnownTo api (tellAll (tree.nestMembers.map .nestMember)) := by
    refine Api.requireFor_eq_ok_iff (cameWith_tellAll (List.forall_mem_map.mpr fun _ _ => rfl)) ?_
    simp [tellAll]
  have permitted : api.requireFor (! tree.permittedSubclasses.isEmpty) "permitted subclasses" .v9 =
      .ok () ↔ AreKnownTo api (tellAll (tree.permittedSubclasses.map .permittedSubclass)) := by
    refine Api.requireFor_eq_ok_iff (cameWith_tellAll (List.forall_mem_map.mpr fun _ _ => rfl)) ?_
    simp [tellAll]
  have innerClasses : AreKnownTo api (tellAll (tree.innerClasses.map .innerClass)) :=
    areKnownTo_first (cameWith_tellAll (List.forall_mem_map.mpr fun _ _ => rfl))
  have components : api.requireFor (! tree.components.isEmpty) "record components" .v8 = .ok () ↔
      AreKnownTo api (tree.components.map ComponentTree.item) := by
    refine Api.requireFor_eq_ok_iff (List.forall_mem_map.mpr fun component _ => component.cameWith_item) ?_
    simp
  have finished : AreKnownTo api [.event .finish] :=
    areKnownTo_first (List.forall_mem_singleton.mpr (cameWith_event rfl (by simp)))
  have methods : (∀ method ∈ tree.methods, method.check api = .ok ()) ↔
      (∀ method ∈ tree.methods, AreKnownTo api [method.item .latest]) ∧
        ((∃ method ∈ tree.methods, method.HasStrayNotes) → api.supports .v5 = true) := by
    simp only [MethodTree.check_eq_ok, forall_and, forall_exists_index, and_imp]
  simp only [check, seq_eq_ok, modules, nestHost, Attachments.check_eq_ok, nestMembers, permitted,
    components, forM_eq_ok, methods, script, Script.since_latest, areKnownTo_append, heads, enclosing,
    annotations, attributes, innerClasses, finished, areKnownTo_map, FieldTree.areKnownTo_item, true_and,
    and_true, and_assoc]

/-- A version that knows the whole story is told the whole story. -/
theorem alike_script_of_areKnownTo (areKnown : AreKnownTo api (tree.script .latest .latest)) :
    Alike (tree.script api api) (tree.script .latest .latest) := by
  have told : Alike (tree.script api api) ((ReadOptions.upTo api).pruneAll (tree.script .latest .latest)) :=
    tree.gates_script.alike
  rwa [ReadOptions.pruneAll_of_isUntouched (areUntouched_of_areKnown _ areKnown)] at told

/-- Nobody hears what is newer than the version that the story is told for. -/
theorem isKnownTo_of_heard {σ : Type} {consumer : Consumer σ} {state : σ} {event : Event}
    (isHeard : event ∈ (consumer.hearing (tree.script api api) state).heard) : event.IsKnownTo api := by
  rw [Consumer.hearing, tree.gates_script.alike consumer.logged] at isHeard
  exact Consumer.isKnownTo_of_heard isHeard

/-- A check predicts what a replay for a version tells.

If the check succeeds, every consumer is told the same as a consumer of the latest version and is stopped
by nothing but itself.  If it fails, and not because of annotations in a method without code, there is an
event that is never heard, whoever listens, while a consumer of the latest version that enters every scope
hears it.  So what passes for a version passes for all later ones. -/
theorem check_predicts_hearing (tree : ClassTree) (api : Api) :
    (tree.check api = .ok () → ∀ {σ : Type} (consumer : Consumer σ),
      consumer.tell (tree.script api api) = consumer.tell (tree.script .latest .latest) ∧
        ∀ state, consumer.hearing (tree.script api api) state =
            consumer.hearing (tree.script .latest .latest) state ∧
          ∀ fault, (consumer.hearing (tree.script api api) state).result = .error fault →
            ∃ event, (event, .error fault) ∈ (consumer.hearing (tree.script api api) state).replies) ∧
    (tree.check api ≠ .ok () → (∀ method ∈ tree.methods, ¬ method.HasStrayNotes) →
      ∃ event ∈ allEvents (tree.script .latest .latest),
        (∀ {σ : Type} (consumer : Consumer σ) state,
          event ∉ (consumer.hearing (tree.script api api) state).heard ∧
            (consumer.hearing (tree.script api api) state).heard.Sublist
              (allEvents (tree.script .latest .latest))) ∧
        ∀ {σ : Type} {consumer : Consumer σ} {note : σ → Event → σ}, consumer.Enters note → ∀ state,
          (consumer.hearing (tree.script .latest .latest) state).heard =
            allEvents (tree.script .latest .latest)) ∧
    (tree.check api = .ok () → ∀ later : Api, later.supports api = true → tree.check later = .ok ()) := by
  have gates : api.Gates (tree.script .latest .latest) (tree.script api api) := tree.gates_script
  have whole : AreWhole (tree.script .latest .latest) := gates.isWhole
  refine ⟨fun passed σ consumer => ?_, fun refused noStray => ?_, fun passed later supports => ?_⟩
  · have alike := tree.alike_script_of_areKnownTo (tree.check_eq_ok.mp passed).1
    refine ⟨alike consumer, fun state => ?_⟩
    have same : consumer.hearing (tree.script api api) state =
        consumer.hearing (tree.script .latest .latest) state := by
      rw [Consumer.hearing, Consumer.hearing, alike consumer.logged]
    rw [same]
    exact ⟨rfl, fun fault failed => Consumer.refused_of_hearing whole failed⟩
  · have unknown : ¬ AreKnownTo api (tree.script .latest .latest) := by
      refine fun areKnown => refused (tree.check_eq_ok.mpr ⟨areKnown, ?_⟩)
      rintro ⟨method, member, isStray⟩
      exact absurd isStray (noStray method member)
    simp only [AreKnownTo, not_forall] at unknown
    rcases unknown with ⟨event, isEvent, isNewer⟩
    refine ⟨event, isEvent, fun consumer state => ⟨fun isHeard => ?_, ?_⟩, fun enters state => ?_⟩
    · exact isNewer (tree.isKnownTo_of_heard isHeard)
    · rw [Consumer.hearing, gates.alike consumer.logged]
      exact (consumer.hearing_sublist _ state).trans (ReadOptions.pruneAll_sublist _ _)
    · rw [enters.hearing_eq whole, Hearing.heard, List.map_map]
      exact List.map_id' _
  · rw [check_eq_ok] at passed ⊢
    exact ⟨fun event isEvent => Api.supports_trans supports (passed.1 event isEvent),
      fun stray => Api.supports_trans supports (passed.2 stray)⟩

/-- A class that is hosted by the class `A`. -/
def hosted : ClassTree :=
  { nestHost? := some ⟨[65]⟩ }

theorem check_predicts_hearing_hosted :
    hosted.check .v7 = .ok () ∧ hosted.check .v9 = .ok () ∧ hosted.check .v6 ≠ .ok () ∧
      ∃ event ∈ allEvents (hosted.script .latest .latest),
        event ∉ (Consumer.silent.hearing (hosted.script .v6 .v6) ()).heard := by
  have passed : hosted.check .v7 = .ok () := rfl
  have refused : hosted.check .v6 ≠ .ok () := nofun
  have noMethod : ∀ method ∈ hosted.methods, ¬ method.HasStrayNotes := nofun
  refine ⟨passed, (check_predicts_hearing hosted .v7).2.2 passed .v9 rfl, refused, ?_⟩
  rcases (check_predicts_hearing hosted .v6).2.1 refused noMethod with ⟨event, isEvent, unheard, -⟩
  exact ⟨event, isEvent, (unheard Consumer.silent ()).1⟩

end ClassTree

end ClassFile
