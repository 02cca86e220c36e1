import ClassFile.Image.Code
import ClassFile.Proofs.Image.Attributes
import ClassFile.Proofs.Image.Boundaries
import ClassFile.Proofs.Story.Fitting
import ClassFile.Proofs.Story.Turns

/-!
# Annotations and bodies in turn

Annotations are told with values that can be written.  A body starts with `code` and ends with `maxs`;
every annotation of an instruction comes right behind its instruction.
-/

namespace ClassFile

open Emit Item
open AttributeKind (ofMethod)

/-- Whether items are what stands in a code array, each instruction with its annotations behind it. -/
inductive AreSteps : List Item → Prop where
  | nil : AreSteps []
  | step {instruction : Instruction} {notes rest : List Item} (fits : instruction.Fits)
      (annotations : ∀ item ∈ notes,
        ∃ use body, item = .scope (.annotateInstruction use) body ∧ item.Fits ofMethod)
      (real : notes ≠ [] → instruction.isReal = true) (behind : AreSteps rest) :
      AreSteps (.event (.methodItem (.instruction instruction)) :: (notes ++ rest))

theorem AreSteps.one {instruction : Instruction} (fits : instruction.Fits) :
    AreSteps [.event (.methodItem (.instruction instruction))] :=
  @AreSteps.step instruction [] [] fits (by simp) (by simp) .nil

theorem AreSteps.append {items others : List Item} (here : AreSteps items) (behind : AreSteps others) :
    AreSteps (items ++ others) := by
  induction here with
  | nil => exact behind
  | step fits annotations real _ ih =>
      rw [List.cons_append, List.append_assoc]
      exact .step fits annotations real ih

theorem AreSteps.atTurn {items : List Item} (steps : AreSteps items) :
    AtTurn (Fits ofMethod) .step items := by
  apply AtTurn.of_forall rfl rfl
  induction steps with
  | nil => simp
  | step fits annotations _ _ ih =>
      simp only [List.mem_cons, List.mem_append]
      rintro item (rfl | isNote | isBehind)
      · exact ⟨rfl, fits⟩
      · rcases annotations item isNote with ⟨use, body, rfl, noteFits⟩
        exact ⟨rfl, noteFits⟩
      · exact ih item isBehind

/-- Whether items are told about the code of a method. -/
def IsBody (items : List Item) : Prop :=
  ∃ inside stack locals,
    items = .event (.methodItem .code) :: (inside ++ [.event (.methodItem (.maxs stack locals))]) ∧
      InTurn (Fits ofMethod) Turn.ofBody inside ∧ AreSteps (ofTurn .step inside) ∧ ofTurn .step inside ≠ []

/-- Whether a reader leaves every attribute that the format does not define as it is. -/
def ReadOptions.DecodesNothing (options : ReadOptions) : Prop :=
  ∀ name pool data, options.decoder name pool data = .ok none

namespace ClassImage

variable {image : ClassImage} {options : ReadOptions} {kinds : List AttributeKind}

/-! ### Values and annotations -/

theorem gives_tellElements {P : Item → Prop} {value : Option Text → Nat → Emit Nat} {named : Bool}
    (gives : ∀ name? offset, HasName named name? → GivesEach P (value name? offset))
    (offset count : Nat) : GivesEach P (image.tellElements value named offset count) := by
  induction count generalizing offset with
  | zero => exact GivesEach.pure _
  | succ count ih =>
      cases named with
      | true =>
          apply Gives.bind_lift
          intro name found
          exact GivesEach.bind (gives _ _ (hasName_some (survives_of_textAt found))) fun next => ih next
      | false => exact GivesEach.bind (gives _ _ hasName_none) fun next => ih next

theorem gives_tellCounted {P : Item → Prop} {value : Option Text → Nat → Emit Nat} {named : Bool}
    (gives : ∀ name? offset, HasName named name? → GivesEach P (value name? offset)) (offset : Nat) :
    GivesEach P (image.tellCounted value named offset) :=
  Gives.bind_lift fun _ _ => gives_tellElements gives _ _

/-- A value is told as one item. -/
theorem gives_tellElement (levels : Nat) {named : Bool} {name? : Option Text}
    (name : HasName named name?) (offset : Nat) :
    Gives (fun items => ∃ item, items = [item] ∧ item.IsValue levels named)
      (image.tellElement levels name? offset) := by
  induction levels generalizing named name? offset with
  | zero => exact Gives.throw _
  | succ levels ih =>
      have inside (named : Bool) (offset : Nat) : GivesEach (IsValue levels named)
          (image.tellCounted (image.tellElement levels) named offset) := by
        apply gives_tellCounted
        intro name? offset name
        apply (ih name offset).weaken
        rintro items ⟨item, rfl, isValue⟩
        simpa using isValue
      have one {event : Event} (isValue : (Item.event event).IsValue (levels + 1) named) (next : Nat) :
          Gives (fun items => ∃ item, items = [item] ∧ item.IsValue (levels + 1) named)
            (do Emit.tell event; return next) := by
        have told : Gives (fun items => ∃ item, items = [item] ∧ item.IsValue (levels + 1) named)
            (Emit.tell event) := Gives.tell ⟨_, rfl, isValue⟩
        apply told.bind fun _ => Gives.pure rfl next
        rintro items others holds rfl
        simpa using holds
      apply Gives.bind_lift
      intro tag _
      apply Gives.bind_lift
      intro constant? found
      split
      · exact one (.constant name (survives_of_elementConstant? found)) _
      split
      · apply Gives.bind_lift
        intro descriptor described
        apply Gives.bind_lift
        intro value valued
        exact one (.enumeration name (survives_of_textAt described) (survives_of_textAt valued)) _
      split
      · apply Gives.bind_lift
        intro descriptor described
        apply Gives.eager (inside true _)
        intro items values
        exact ⟨_, rfl, .nested name (survives_of_textAt described) values⟩
      split
      · apply Gives.eager (inside false _)
        intro items values
        exact ⟨_, rfl, .array name values⟩
      · exact Gives.throw _

theorem gives_tellValues (offset : Nat) :
    GivesEach (IsValue maxAnnotationLevels true) (image.tellValues offset) := by
  apply gives_tellCounted
  intro name? offset name
  apply (gives_tellElement _ name offset).weaken
  rintro items ⟨item, rfl, isValue⟩
  simpa using isValue

theorem gives_tellAnnotationTable {P : Item → Prop} {opening : Text → Opening}
    (holds : ∀ descriptor items, descriptor.Survives →
      (∀ item ∈ items, item.IsValue maxAnnotationLevels true) → P (.scope (opening descriptor) items))
    (offset : Nat) : GivesEach P (image.tellAnnotationTable opening offset) := by
  have list (offset count : Nat) : GivesEach P (image.tellAnnotationList opening offset count) := by
    induction count generalizing offset with
    | zero => exact GivesEach.pure _
    | succ count ih =>
        apply Gives.bind_lift
        intro descriptor described
        exact GivesEach.bind (GivesEach.eager (gives_tellValues _) fun items =>
          holds descriptor items (survives_of_textAt described)) fun next => ih next
  exact Gives.bind_lift fun _ _ => list _ _

theorem gives_tellTypeAnnotationTable {P : Item → Prop} {visible : Bool}
    (holds : ∀ use items, use.Fits → use.visible = visible →
      (∀ item ∈ items, item.IsValue maxAnnotationLevels true) → P (.scope (.annotateType use) items))
    (offset : Nat) : GivesEach P (image.tellTypeAnnotationTable visible offset) := by
  have list (offset count : Nat) :
      GivesEach P (image.tellTypeAnnotationList visible offset count) := by
    induction count generalizing offset with
    | zero => exact GivesEach.pure _
    | succ count ih =>
        apply Gives.bind_lift
        intro head read
        rcases fits_of_typeAnnotationHead read with ⟨fits, isVisible⟩
        exact GivesEach.bind (GivesEach.eager (gives_tellValues _) fun items values =>
          holds head.use items fits isVisible values) fun next => ih next
  exact Gives.bind_lift fun _ _ => list _ _

theorem gives_tellIfPresent {P : List Item → Prop} {place? : Option Nat} {tell : Nat → Emit Unit}
    (nothing : P []) (gives : ∀ offset, Gives P (tell offset)) : Gives P (tellIfPresent place? tell) := by
  cases place? with
  | none => exact Gives.pure nothing _
  | some offset => exact gives offset

theorem gives_tellAnnotations (common : CommonAttributes) :
    Gives (InTurn (Fits kinds) Turn.annotations) (image.tellAnnotations options common) := by
  have annotations (visible : Bool) (turn : Turn) (many : turn.repeats = true)
      (plain : turn.hasParameters = false)
      (isTurn : ∀ descriptor, (Opening.annotate descriptor visible).turn = turn) (offset : Nat) :
      Gives (AtTurn (Fits kinds) turn)
        (discard (image.tellAnnotationTable (Opening.annotate · visible) offset)) :=
    Gives.atTurn many plain <| Gives.discard <| gives_tellAnnotationTable
      (fun descriptor _ survives values => ⟨isTurn descriptor, survives, values⟩) offset
  have types (visible : Bool) (turn : Turn) (many : turn.repeats = true)
      (plain : turn.hasParameters = false)
      (isTurn : ∀ use : TypeUse, use.visible = visible → (Opening.annotateType use).turn = turn)
      (offset : Nat) : Gives (AtTurn (Fits kinds) turn) (image.tellTypeAnnotationTable visible offset) :=
    Gives.atTurn many plain <| gives_tellTypeAnnotationTable
      (fun use _ fits isVisible values => ⟨isTurn use isVisible, fits, values⟩) offset
  apply Gives.inTurn (gives_tellIfPresent (.nil _) (annotations true _ rfl rfl fun _ => rfl))
  intro _
  apply Gives.inTurn (gives_tellIfPresent (.nil _) (annotations false _ rfl rfl fun _ => rfl))
  intro _
  split
  · apply Gives.inTurn (gives_tellIfPresent (.nil _) (types true .visibleTypeAnnotations rfl rfl ?_))
    · intro _
      apply (gives_tellIfPresent (.nil _) (types false .invisibleTypeAnnotations rfl rfl ?_)).weaken
      · intro items here
        simpa using InTurn.cons here .nil
      · intro use isVisible
        simp [Opening.turn, isVisible]
    · intro use isVisible
      simp [Opening.turn, isVisible]
  · exact Gives.pure (.none _) _

/-! ### Attributes -/

theorem gives_tellOthers (undecoded : options.DecodesNothing) (inCode : Bool) {common : CommonAttributes}
    (unknown : inCode = false → ∀ entry ∈ common.others, ∀ name,
      image.pool.text entry.nameIndex = .ok name → ∀ kind ∈ kinds, name ≠ kind.text) :
    Gives (AtTurn (Fits kinds) (if inCode then .codeAttribute else .attribute))
      (image.tellOthers options inCode common) := by
  apply Gives.atTurn
  · cases inCode <;> rfl
  · cases inCode <;> rfl
  · apply GivesEach.forM
    intro entry member
    apply Gives.bind_lift
    intro read found
    simp only [attributeOf, bind_eq_ok] at found
    rcases found with ⟨name, named, data, -, decoded, decodes, found⟩
    cases (undecoded name image.pool data).symm.trans decodes
    cases found
    apply GivesEach.tell
    refine ⟨rfl, Pool.survives_of_text named, ⟨_, rfl⟩, fun outside => ?_⟩
    exact unknown outside entry (List.mem_reverse.mp member) name named

/-! ### The code -/

section Code

variable {body : CodeBody}

theorem gives_tellCodeNote (opening : Opening) (note : CodeAnnotation) :
    GivesEach (fun item => ∃ inside, item = .scope opening inside ∧
      ∀ item ∈ inside, item.IsValue maxAnnotationLevels true) (image.tellCodeAnnotation opening note) :=
  Gives.discard (GivesEach.eager (gives_tellValues _) fun inside values => ⟨inside, rfl, values⟩)

theorem gives_tellHandlers (code : CodeArray) (offset count : Nat) :
    Gives (AtTurn (Fits kinds) .handler) (image.tellHandlers code offset count) := by
  apply Gives.atTurn rfl rfl
  induction count generalizing offset with
  | zero => exact GivesEach.pure _
  | succ count ih =>
      iterate 7
        apply Gives.bind_lift
        intro _ _
      apply Gives.bind_lift
      intro type? found
      have survives := Pool.survives_of_optional found fun _ => Pool.survives_of_classRef
      exact GivesEach.bind (GivesEach.tell ⟨rfl, survives⟩) fun _ => ih _

section Notes

variable (isMarked : body.IsMarked image)
include isMarked

theorem gives_tellHandlerAnnotations :
    Gives (AtTurn (Fits kinds) .handlerAnnotations) (image.tellHandlerAnnotations body) := by
  apply Gives.atTurn rfl rfl
  apply GivesEach.forM
  intro note member
  have fits := (isMarked.annotations note (Array.mem_toList_iff.mp member)).1
  split
  · rename_i block target
    apply (gives_tellCodeNote _ note).weaken
    intro items all item member
    rcases all item member with ⟨inside, rfl, values⟩
    exact ⟨rfl, ⟨fits, block, target⟩, values⟩
  · exact GivesEach.pure _

theorem gives_tellVariableAnnotations (source : Nat) :
    Gives (AtTurn (Fits kinds) .variableAnnotations) (image.tellVariableAnnotations body source) := by
  apply Gives.atTurn rfl rfl
  apply GivesEach.forM
  intro note member
  have fits := (isMarked.annotations note (Array.mem_toList_iff.mp member)).1
  split
  · rename_i ranges _
    have places (ranges : List CodeRange) :
        GivesEach (fun _ => False) (ranges.mapM (placeRange body source)) := by
      induction ranges with
      | nil => simpa using GivesEach.pure _
      | cons range ranges ih =>
          rw [List.mapM_cons]
          apply GivesEach.bind
          · repeat apply Gives.bind_lift; intro _ _
            exact GivesEach.pure _
          · intro _
            exact ih.bind fun _ => GivesEach.pure _
    apply GivesEach.bind ((places ranges).weaken fun items none => by
      intro item member
      exact (none item member).elim)
    intro found
    apply (gives_tellCodeNote _ note).weaken
    intro items all item member
    rcases all item member with ⟨inside, rfl, values⟩
    exact ⟨rfl, fits, values⟩
  · exact GivesEach.pure _

end Notes

/-- Whether all signatures of local variables survive. -/
def VariableTypes.Survive (types : VariableTypes) : Prop :=
  ∀ (key : UInt16 × UInt16 × UInt16) (signature : Text), types[key]? = some signature → signature.Survives

theorem survive_of_variableTypes {offset count : Nat} {types later : VariableTypes}
    (survive : VariableTypes.Survive types) (read : image.variableTypes offset types count = .ok later) :
    VariableTypes.Survive later := by
  induction count generalizing offset types with
  | zero =>
      cases read
      exact survive
  | succ count ih =>
      simp only [variableTypes, bind_eq_ok] at read
      rcases read with ⟨start, -, length, -, slot, -, signature, found, read⟩
      apply ih _ read
      intro key other isOther
      rw [Std.HashMap.getElem?_insert] at isOther
      split at isOther
      · cases isOther
        exact survives_of_textAt found
      · exact survive key other isOther

theorem gives_tellVariables (code : CodeArray) {types : VariableTypes}
    (survive : VariableTypes.Survive types) (offset count : Nat) :
    GivesEach (fun item => item.turn = .variable ∧ item.Fits kinds)
      (image.tellVariables code types offset count) := by
  induction count generalizing offset with
  | zero => exact GivesEach.pure _
  | succ count ih =>
      apply Gives.bind_lift
      intro start _
      apply Gives.bind_lift
      intro length _
      apply Gives.bind_lift
      intro name named
      apply Gives.bind_lift
      intro descriptor described
      apply Gives.bind_lift
      intro slot _
      repeat apply Gives.bind_lift; intro _ _
      have fits := survive (start, length, slot)
      exact GivesEach.bind (GivesEach.tell
        ⟨rfl, survives_of_textAt named, survives_of_textAt described, fits⟩) fun _ => ih _

theorem gives_tellVariableTable :
    Gives (AtTurn (Fits kinds) .variable) (image.tellVariableTable body) := by
  apply Gives.atTurn rfl rfl
  unfold tellVariableTable
  split
  · exact GivesEach.pure _
  · rename_i offset _
    have table {types : VariableTypes} (survive : VariableTypes.Survive types) :
        GivesEach (fun item => item.turn = .variable ∧ item.Fits kinds) (do
          let count ← image.input.u16 offset
          image.tellVariables body.code types (offset + 2) count.toNat) :=
      Gives.bind_lift fun _ _ => gives_tellVariables _ survive _ _
    have none : VariableTypes.Survive ∅ := fun key signature found => by simp at found
    cases body.variableTypes? with
    | none => exact table none
    | some place =>
        apply Gives.bind_lift
        intro _ _
        apply Gives.bind_lift
        intro types found
        exact table (survive_of_variableTypes none found)

theorem gives_tellInstruction (instruction : Instruction) (fits : instruction.Fits) :
    Gives AreSteps (tellInstruction instruction) :=
  Gives.tell (.one fits)

theorem gives_tellLabel (position : Label) : Gives AreSteps (tellLabel body position) := by
  unfold tellLabel
  split
  · apply (gives_tellInstruction (.label position) trivial).bind _ fun _ _ => AreSteps.append
    intro _
    exact Gives.forM (fun line _ => gives_tellInstruction (.line line position) trivial) .nil fun _ _ => AreSteps.append
  · exact Gives.pure .nil _

theorem gives_tellFrames {labels : LabelSet} (position : Label) {frames : List (Label × Frame)}
    (marked : FramesMarked labels frames) : Gives AreSteps (tellFrames position frames) := by
  induction frames with
  | nil => exact Gives.pure .nil _
  | cons entry frames ih =>
      rw [FramesMarked, List.forall_mem_cons] at marked
      unfold tellFrames
      split
      · have survives : entry.2.Survives := fun value member => (marked.1 value member).1
        exact (gives_tellInstruction (.frame entry.2) survives).bind (fun _ => ih marked.2) fun _ _ => AreSteps.append
      · exact Gives.pure .nil _

theorem fits_of_readInstruction {api : Api} {code : CodeArray} {pc next : Nat}
    {instruction : Instruction}
    (read : image.readInstruction api code pc = .ok (instruction, next)) :
    instruction.isReal = true ∧ instruction.Fits := by
  simp only [readInstruction, bind_eq_ok] at read
  rcases read with ⟨byte, -, read⟩
  cases known : Layout.ofByte? byte with
  | none => simp [known] at read
  | some layout =>
      simp only [known] at read
      cases layout
      case newArray =>
        simp only [bind_eq_ok] at read
        rcases read with ⟨element, -, read⟩
        split at read
        · cases read
          exact ⟨rfl, trivial⟩
        · cases read
      case wide =>
        simp only [bind_eq_ok] at read
        rcases read with ⟨following, -, slot, -, read⟩
        split at read
        · simp only [bind_eq_ok, pure_eq_ok] at read
          rcases read with ⟨_, -, same⟩
          cases same
          exact ⟨rfl, trivial⟩
        · simp only [bind_eq_ok, pure_eq_ok] at read
          rcases read with ⟨_, -, same⟩
          cases same
          exact ⟨rfl, trivial⟩
      case noOperand | bytePush | shortPush | implicitVariable =>
        simp only [bind_eq_ok, pure_eq_ok] at read
        rcases read with ⟨_, -, same⟩
        cases same
        exact ⟨rfl, trivial⟩
      case increment | «variable» | jumpWide =>
        simp only [bind_eq_ok, pure_eq_ok] at read
        rcases read with ⟨_, -, _, -, same⟩
        cases same
        exact ⟨rfl, trivial⟩
      case jump | tableSwitch | lookupSwitch =>
        simp only [bind_eq_ok, pure_eq_ok] at read
        rcases read with ⟨_, -, _, -, _, -, same⟩
        cases same
        exact ⟨rfl, trivial⟩
      case loadConstant | loadConstantWide | loadConstantTwoSlot =>
        simp only [bind_eq_ok, pure_eq_ok] at read
        rcases read with ⟨_, -, constant, found, _, -, same⟩
        cases same
        exact ⟨rfl, Pool.storable_of_constantWithin found⟩
      case field =>
        simp only [bind_eq_ok, pure_eq_ok] at read
        rcases read with ⟨_, -, member, found, _, -, same⟩
        cases same
        exact ⟨rfl, Pool.survives_of_fieldRef found⟩
      case method =>
        simp only [bind_eq_ok, pure_eq_ok] at read
        rcases read with ⟨_, -, ⟨member, isInterface⟩, found, _, -, same⟩
        cases same
        exact ⟨rfl, Pool.survives_of_anyMethodRef found⟩
      case invokeInterface =>
        simp only [bind_eq_ok, pure_eq_ok] at read
        rcases read with ⟨_, -, member, found, same⟩
        cases same
        exact ⟨rfl, Pool.survives_of_interfaceMethodRef found⟩
      case type | multiArray =>
        simp only [bind_eq_ok, pure_eq_ok] at read
        rcases read with ⟨_, -, name, found, _, -, same⟩
        cases same
        exact ⟨rfl, Pool.survives_of_classRef found⟩
      case invokeDynamic =>
        simp only [bind_eq_ok, pure_eq_ok] at read
        rcases read with ⟨_, -, reference, found, ⟨bootstrap, arguments⟩, called, _, -, same⟩
        cases same
        rcases Pool.invokeDynamicRef_eq_ok.mp found with ⟨target, -, named⟩
        rcases Pool.survives_of_nameAndType named with ⟨nameSurvives, descriptorSurvives⟩
        exact ⟨rfl, nameSurvives, descriptorSurvives,
          Pool.storable_of_bootstrapWith (fun _ _ => Pool.storable_of_constantWithin) called⟩

theorem gives_tellInstructions (api : Api)
    {annotations : Std.HashMap Label (Array CodeAnnotation)}
    (fit : ∀ position, ∀ note ∈ annotations.getD position #[], note.use.Fits) (pc : Nat)
    {labels : LabelSet} {frames : List (Label × Frame)} (marked : FramesMarked labels frames) (fuel : Nat) :
    Gives (fun items => AreSteps items ∧ (pc < body.code.stop → items ≠ []))
      (image.tellInstructions api body annotations pc frames fuel) := by
  have annotated (position : Label) : GivesEach
      (fun item => ∃ use inside, item = .scope (.annotateInstruction use) inside ∧ item.Fits ofMethod)
      ((annotations.getD position #[]).toList.forM fun note =>
        image.tellCodeAnnotation (.annotateInstruction note.use) note) := by
    apply GivesEach.forM
    intro note isNote
    have fits := fit position note (Array.mem_toList_iff.mp isNote)
    apply (gives_tellCodeNote _ note).weaken
    intro items all item member
    rcases all item member with ⟨inside, rfl, values⟩
    exact ⟨_, _, rfl, fits, values⟩
  induction fuel generalizing pc frames with
  | zero =>
      unfold tellInstructions
      split
      · exact Gives.throw _
      · rename_i outside
        exact Gives.pure ⟨.nil, fun inside => absurd inside outside⟩ _
  | succ fuel ih =>
      unfold tellInstructions
      split
      · have step (position : Label) {frames : List (Label × Frame)} (marked : FramesMarked labels frames)
            {instruction : Instruction} {next : Nat} (read : image.readInstruction api body.code pc = .ok (instruction, next)) :
            Gives (fun items => AreSteps items ∧ items ≠ []) (do
              tellInstruction instruction
              (annotations.getD position #[]).toList.forM fun note =>
                image.tellCodeAnnotation (.annotateInstruction note.use) note
              image.tellInstructions api body annotations next frames fuel) := by
          have behind : Gives (fun items => AreSteps
              (.event (.methodItem (.instruction instruction)) :: items)) (do
                (annotations.getD position #[]).toList.forM fun note =>
                  image.tellCodeAnnotation (.annotateInstruction note.use) note
                image.tellInstructions api body annotations next frames fuel) := by
            apply Gives.bind (annotated position) fun _ => ih next marked
            intro notes rest areNotes others
            have fits := fits_of_readInstruction read
            exact .step fits.2 areNotes (fun _ => fits.1) others.1
          have here : Gives (· = [.event (.methodItem (.instruction instruction))])
              (tellInstruction instruction) := Gives.tell rfl
          apply here.bind fun _ => behind
          rintro items others rfl steps
          exact ⟨steps, by simp⟩
        have joined {here behind : List Item} (areSteps : AreSteps here)
            (others : AreSteps behind ∧ behind ≠ []) : AreSteps (here ++ behind) ∧ here ++ behind ≠ [] :=
          ⟨areSteps.append others.1, by simp [others.2]⟩
        apply Gives.bind_lift
        intro position _
        refine Gives.weaken (?_ : Gives (fun items => AreSteps items ∧ items ≠ []) _) ?_
        · refine (gives_tellLabel position).bind (fun _ => ?_) fun _ _ => joined
          refine (gives_tellFrames position marked).bind_tells (fun _ _ _ told => ?_) fun _ _ => joined
          exact Gives.bind_lift fun _ read => step position (framesMarked_of_tellFrames marked told) read
        · intro items holds
          exact ⟨holds.1, fun _ => holds.2⟩
      · rename_i outside
        exact Gives.pure ⟨.nil, fun inside => absurd inside outside⟩ _

theorem length_pos_of_codeBody {entry : RawAttribute} (found : image.codeBody options entry = .ok body) :
    0 < body.code.length := by
  simp only [codeBody, bind_eq_ok] at found
  rcases found with ⟨maxStack, -, maxLocals, -, length, -, found⟩
  split at found
  · cases found
  rename_i inside
  simp only [bind_eq_ok] at found
  rcases found with ⟨⟨labels, stop⟩, -, found⟩
  split at found
  · cases found
  simp only [bind_eq_ok] at found
  rcases found with ⟨handlers, -, one, marksHandlers, ⟨attributes, last⟩, -, marked⟩
  have start : CodeBody.IsMarked image
      { maxStack, maxLocals, code := ⟨entry.offset + 8, length.toNat⟩, labels,
        handlers := handlers.toNat } :=
    ⟨by simp [FramesMarked], by simp, by simp⟩
  have marks := (marks_of_markHandlers marksHandlers).1
  have continues := marks.toContinues.trans (continues_of_markAttributes (marks.isMarked start) marked).1
  rw [continues.code]
  rw [not_or] at inside
  exact Nat.pos_of_ne_zero inside.1

theorem gives_tellCode (undecoded : options.DecodesNothing) (entry : RawAttribute) :
    Gives IsBody (image.tellCode options entry) := by
  intro before value after told
  rcases tells_bind_lift.mp told with ⟨body, found, told⟩
  have isMarked := (codeBody_marks found).1
  have fit := forall_instructionAnnotations fun note member => (isMarked.annotations note member).1
  have told := tells_bind_tell.mp told
  rcases tells_bind.mp told with ⟨_, _, toldHandlers, told⟩
  rcases gives_tellHandlers _ _ _ toldHandlers with ⟨handlers, rfl, areHandlers⟩
  rcases tells_bind.mp told with ⟨_, _, toldHandlerNotes, told⟩
  rcases gives_tellHandlerAnnotations isMarked toldHandlerNotes with ⟨handlerNotes, rfl, areHandlerNotes⟩
  rcases tells_bind.mp told with ⟨_, _, toldSteps, told⟩
  rcases gives_tellInstructions _ fit _ isMarked.frames _ toldSteps with ⟨steps, rfl, areSteps, some⟩
  have rest {middle : Array Item} (told : Tells (do
      image.tellVariableTable body
      image.tellVariableAnnotations body entry.offset
      image.tellOthers options true body.common
      tellItem (.maxs body.maxStack body.maxLocals)) middle value after) :
      ∃ others, after = middle ++ (others ++
          [Item.event (.methodItem (.maxs body.maxStack body.maxLocals))]).toArray ∧
        InTurn (Fits ofMethod) [.variable, .variableAnnotations, .codeAttribute] others := by
    rcases tells_bind.mp told with ⟨_, _, toldVariables, told⟩
    rcases gives_tellVariableTable toldVariables with ⟨entries, rfl, areVariables⟩
    rcases tells_bind.mp told with ⟨_, _, toldNotes, told⟩
    rcases gives_tellVariableAnnotations isMarked _ toldNotes with ⟨notes, rfl, areNotes⟩
    rcases tells_bind.mp told with ⟨_, _, toldOthers, told⟩
    rcases gives_tellOthers undecoded true (by simp) toldOthers with ⟨attributes, rfl, areAttributes⟩
    refine ⟨entries ++ (notes ++ (attributes ++ [])), ?_, ?_⟩
    · simp [← tells_tell.mp told]
    · exact .cons areVariables (.cons areNotes (.cons areAttributes .nil))
  have whole {last others : List Item} (lastSteps : AreSteps last)
      (behind : InTurn (Fits ofMethod) [.variable, .variableAnnotations, .codeAttribute] others)
      (ends : after = before ++ (.event (.methodItem .code) :: (handlers ++ (handlerNotes ++
        ((steps ++ last) ++ others)) ++
        [Item.event (.methodItem (.maxs body.maxStack body.maxLocals))])).toArray) :
      ∃ items : List Item, after = before ++ items.toArray ∧ IsBody items := by
    have inTurn : InTurn (Fits ofMethod) Turn.ofBody
        (handlers ++ (handlerNotes ++ ((steps ++ last) ++ others))) :=
      .cons areHandlers (.cons areHandlerNotes (.cons (areSteps.append lastSteps).atTurn behind))
    have inside : body.code.start < body.code.stop :=
      Nat.lt_add_of_pos_right (length_pos_of_codeBody found)
    have same : ofTurn .step (handlers ++ (handlerNotes ++ ((steps ++ last) ++ others))) = steps ++ last := by
      simp [ofTurn_append, areHandlers.ofTurn_of_ne, areHandlerNotes.ofTurn_of_ne,
        areSteps.atTurn.ofTurn, lastSteps.atTurn.ofTurn, behind.ofTurn_of_not_mem]
    refine ⟨_, ends, _, _, _, rfl, inTurn, ?_, ?_⟩
    · rw [same]
      exact areSteps.append lastSteps
    · rw [same]
      simp [some inside]
  dsimp only at told
  split at told
  · rcases tells_bind.mp told with ⟨_, _, toldLabel, told⟩
    rcases rest told with ⟨others, rfl, behind⟩
    apply whole (@AreSteps.one (.label body.code.length) trivial) behind
    simp [← tells_tell.mp toldLabel]
  · rcases rest told with ⟨others, rfl, behind⟩
    apply whole .nil behind
    simp

end Code

end ClassImage

end ClassFile
