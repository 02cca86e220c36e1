import ClassFile.Proofs.Draft.Methods
import ClassFile.Proofs.Rewriting.Attributes

/-!
# Bodies of methods that are written

What stands around a method body does not depend on the body, as long as all that a body adds to the pool
can be read from there again.  That is so of every body that is read (`CodeDraft.Fits`), from its first
element (`CodeDraft.runs_instruction_fits`) to the bytes of its attribute (`CodeDraft.runs_write_fits`).
-/

namespace ClassFile

open Draft

namespace Draft

variable {σ α β : Type}

/-- Whether a step adds to the pool only what can be read. -/
abbrev Sound (step : Draft σ α) : Prop :=
  Runs (fun _ _ => True) step fun _ _ _ => True

theorem Sound.bind {first : Draft σ α} {second : α → Draft σ β} (sound : Sound first)
    (next : ∀ value, Sound (second value)) : Sound (first >>= second) :=
  Runs.bind sound next

theorem Sound.pure (value : α) : Sound (pure value : Draft σ α) :=
  (Runs.pure value).weaken (fun _ _ => id) fun _ _ _ _ => trivial

theorem Sound.change (update : σ → σ) : Sound (change update) :=
  Runs.change fun _ _ _ => trivial

theorem Sound.tryChange (update : σ → Except ClassError σ) : Sound (tryChange update) :=
  Runs.tryChange fun _ _ _ _ _ => trivial

theorem Sound.pooled {adding : Pooling α} {After : α → Pool → Prop}
    (adds : PoolBuilder.Adds (fun _ => True) adding After) : Sound (pooled adding : Draft σ α) :=
  (Runs.pooled adds).weaken (fun _ _ => id) fun _ _ _ _ => trivial

/-- A step that changes nothing leaves all that is known. -/
theorem Runs.of_state {Before : σ → Pool → Prop} {step : Draft σ α}
    (same : ∀ state, ∃ result, step.run.run state = (result, state)) :
    Runs Before step fun _ => Before := by
  intro part builder content holds before value next last ran
  rcases same (part, builder) with ⟨result, stays⟩
  rw [Draft.on, stays] at ran
  cases ran
  exact ⟨content, .refl holds, before⟩

end Draft

/-! ### Frames -/

namespace CodeContext

variable {σ : Type} {Before : σ → Pool → Prop} {context : CodeContext}

theorem runs_labelOffset (label : Label) :
    Runs Before (context.labelOffset label) fun _ => Before := by
  apply Runs.of_state
  intro state
  unfold labelOffset
  cases context.layout.labelOffset context.method label <;> exact ⟨_, rfl⟩

theorem sound_writeValue {value : FrameValue} (survives : value.Survives) (output : Output) :
    Sound (context.writeValue output value : Draft σ Output) := by
  cases value with
  | object name => exact (Sound.pooled (PoolBuilder.adds_classRef survives)).bind fun _ => Sound.pure _
  | uninitialized label => exact Sound.bind (runs_labelOffset label) fun _ => Sound.pure _
  | _ => exact Sound.pure _

theorem sound_writeValues {values : List FrameValue} (survive : ∀ value ∈ values, value.Survives)
    (output : Output) : Sound (context.writeValues output values : Draft σ Output) := by
  induction values generalizing output with
  | nil => exact Sound.pure output
  | cons value rest ih =>
      rw [List.forall_mem_cons] at survive
      exact (sound_writeValue survive.1 output).bind fun next => ih survive.2 next

theorem sound_frame {told : Frame} (survives : told.Survives) (distance : UInt16) :
    Sound (context.frame distance told : Draft σ Output) := by
  cases told with
  | same => exact Sound.pure _
  | same1 value => exact sound_writeValue (survives value (by simp [Frame.values])) _
  | chop count =>
      rw [CodeContext.frame]
      dsimp only
      split
      · exact Runs.throw _
      · exact Sound.pure _
  | append locals =>
      rw [CodeContext.frame]
      dsimp only
      split
      · exact Runs.throw _
      · exact sound_writeValues (fun value member => survives value (by simpa [Frame.values] using member)) _
  | full locals stack =>
      refine (sound_writeValues (fun value member =>
        survives value (by simp [Frame.values, member])) _).bind fun _ => ?_
      exact sound_writeValues (fun value member => survives value (by simp [Frame.values, member])) _

theorem sound_writeFrames {frames : List (Nat × Frame)} (survive : ∀ told ∈ frames, told.2.Survives)
    (previous? : Option Nat) : Sound (context.writeFrames previous? frames) := by
  induction frames generalizing previous? with
  | nil => exact Sound.pure ()
  | cons told rest ih =>
      rw [List.forall_mem_cons] at survive
      unfold writeFrames
      dsimp only
      split
      · exact ih survive.2 previous?
      · refine (Sound.tryChange _).bind fun _ => (sound_frame survive.1 _).bind fun _ => ?_
        exact (Sound.change _).bind fun _ => ih survive.2 _

end CodeContext

/-! ### Bodies -/

namespace CodeDraft

/-- Whether what a body still has to add to the pool can be read from there. -/
structure Fits (draft : CodeDraft) : Prop where
  frames : ∀ told ∈ draft.frames, told.2.Survives
  attributes : ∀ entry ∈ draft.attributes, entry.Fits []

theorem fits_empty : Fits {} :=
  ⟨by simp, by simp⟩

theorem runs_putFixed_fits (output : Output) :
    Runs (fun draft _ => Fits draft) (putFixed output) fun _ draft _ => Fits draft :=
  Runs.change fun _ _ fits => ⟨fits.frames, fits.attributes⟩

theorem runs_pooled_fits {α β : Type} {adding : Pooling α} {After : α → Pool → Prop}
    {next : α → Draft CodeDraft β} (adds : PoolBuilder.Adds (fun _ => True) adding After)
    (runs : ∀ value, Runs (fun draft _ => Fits draft) (next value) fun _ draft _ => Fits draft) :
    Runs (fun draft _ => Fits draft) (Draft.pooled adding >>= next) fun _ draft _ => Fits draft :=
  (Runs.pooled adds).bind fun value => (runs value).strengthen fun _ _ => And.left

theorem runs_require_fits {β : Type} {event : InstructionEvent} {opcode : Opcode}
    {next : Unit → Draft CodeDraft β}
    (runs : Runs (fun draft _ => Fits draft) (next ()) fun _ draft _ => Fits draft) :
    Runs (fun draft _ => Fits draft) (event.require opcode >>= next) fun _ draft _ => Fits draft :=
  (runs_require event opcode).bind fun _ => runs.strengthen fun _ _ => And.right

/-- An element that can be written leaves a body that can be written. -/
theorem runs_instruction_fits {event : Instruction} (fits : event.Fits) :
    Runs (fun draft _ => Fits draft) (instruction event) fun _ draft _ => Fits draft := by
  cases event with
  | simple opcode => exact runs_require_fits (runs_putFixed_fits _)
  | int operand => exact runs_putFixed_fits _
  | «variable» opcode slot => exact runs_require_fits (runs_putFixed_fits _)
  | type opcode name =>
      exact runs_require_fits (runs_pooled_fits (PoolBuilder.adds_classRef fits) fun _ =>
        runs_putFixed_fits _)
  | field opcode member =>
      exact runs_require_fits (runs_pooled_fits (PoolBuilder.adds_fieldRef fits) fun _ =>
        runs_putFixed_fits _)
  | method opcode member isInterface =>
      apply runs_require_fits
      apply runs_pooled_fits (PoolBuilder.adds_methodRef fits)
      intro index
      dsimp only
      split
      · exact Runs.lift.bind fun output => (runs_putFixed_fits output).strengthen fun _ _ => And.right
      · exact runs_putFixed_fits _
  | invokeDynamic name descriptor bootstrap arguments =>
      rcases fits with ⟨nameSurvives, descriptorSurvives, storable, argumentsStorable⟩
      exact runs_pooled_fits (PoolBuilder.adds_invokeDynamic nameSurvives descriptorSurvives storable
        argumentsStorable) fun _ => runs_putFixed_fits _
  | jump opcode target =>
      exact runs_require_fits (Runs.change fun _ _ known => ⟨known.frames, known.attributes⟩)
  | loadConstant constant =>
      exact runs_pooled_fits (PoolBuilder.adds_constant constant fits) fun _ => runs_putFixed_fits _
  | increment slot amount => exact runs_putFixed_fits _
  | multiArray descriptor dimensions =>
      exact runs_pooled_fits (PoolBuilder.adds_classRef fits) fun _ => runs_putFixed_fits _
  | frame told =>
      exact Runs.change fun _ _ known => ⟨List.forall_mem_cons.mpr ⟨fits, known.frames⟩, known.attributes⟩
  | label | tableSwitch | lookupSwitch | line =>
      exact Runs.change fun _ _ known => ⟨known.frames, known.attributes⟩

theorem runs_tryCatch_fits {block : TryCatch} (survives : ∀ name ∈ block.type?, name.Survives) :
    Runs (fun draft _ => Fits draft) (tryCatch block) fun _ draft _ => Fits draft := by
  have adds : ∀ name ∈ block.type?, PoolBuilder.Adds (fun _ => True) (PoolBuilder.classRef name)
      fun index pool => (Slot.classRef name).Means pool index := fun name member =>
    PoolBuilder.adds_classRef (survives name member)
  exact (Runs.pooledIfPresent adds).bind fun _ => Runs.change fun _ _ known =>
    ⟨known.1.frames, known.1.attributes⟩

theorem runs_localVariable_fits {entry : LocalVariable} (name : entry.name.Survives)
    (descriptor : entry.descriptor.Survives) (signature : ∀ text ∈ entry.signature?, text.Survives) :
    Runs (fun draft _ => Fits draft) (localVariable entry) fun _ draft _ => Fits draft := by
  apply runs_pooled_fits (PoolBuilder.adds_text name)
  intro _
  apply runs_pooled_fits (PoolBuilder.adds_text descriptor)
  intro _
  exact (runs_signatureIndex? signature).bind fun _ => Runs.change fun _ _ known =>
    ⟨known.1.frames, known.1.attributes⟩

/-! ### Writing a body -/

variable {context : CodeContext}

theorem sound_writeHandlers (handlers : List HandlerDraft) : Sound (writeHandlers context handlers) := by
  induction handlers with
  | nil => exact Sound.pure ()
  | cons block rest ih =>
      refine (Sound.tryChange _).bind fun _ => ?_
      iterate 3 refine Sound.bind (CodeContext.runs_labelOffset _) fun _ => ?_
      exact (Sound.change _).bind fun _ => ih

theorem sound_writeLines (lines : List (Label × UInt16)) : Sound (writeLines context lines) := by
  induction lines with
  | nil => exact Sound.pure ()
  | cons line rest ih =>
      refine (Sound.tryChange _).bind fun _ => Sound.bind (CodeContext.runs_labelOffset _) fun _ => ?_
      exact (Sound.change _).bind fun _ => ih

theorem runs_rangeOffsets {σ : Type} {Before : σ → Pool → Prop} (range : LabelRange) :
    Runs Before (rangeOffsets context range) fun _ => Before :=
  (CodeContext.runs_labelOffset _).bind fun _ => (CodeContext.runs_labelOffset _).bind fun _ =>
    (Runs.pure _).weaken (fun _ _ => id) fun _ _ _ => And.right

theorem sound_writeVariables (entries : List VariableDraft) :
    Sound (writeVariables context entries) := by
  induction entries with
  | nil => exact Sound.pure ()
  | cons entry rest ih =>
      refine Sound.bind (runs_rangeOffsets _) fun _ => (Sound.tryChange _).bind fun _ => ?_
      cases entry.signature? with
      | none => exact ih
      | some signature => exact (Sound.tryChange _).bind fun _ => ih

theorem runs_location {σ : Type} {Before : σ → Pool → Prop} (anchor : CodeAnchor) :
    Runs Before (location context anchor) fun _ => Before := by
  cases anchor with
  | item | none => exact (Runs.pure _).weaken (fun _ _ => id) fun _ _ _ => And.right
  | ranges places =>
      refine Runs.bind ?_ fun _ => (Runs.pure _).weaken (fun _ _ => id) fun _ _ _ => And.right
      induction places with
      | nil =>
          rw [List.mapM_nil]
          exact (Runs.pure _).weaken (fun _ _ => id) fun _ _ _ => And.right
      | cons range rest ih =>
          rw [List.mapM_cons, bind_assoc]
          refine (runs_rangeOffsets range).bind fun _ => ?_
          rw [pure_bind]
          exact ih.bind fun _ => (Runs.pure _).weaken (fun _ _ => id) fun _ _ _ => And.right

theorem runs_writeAnnotations {attributes : List Attribute} (annotations : List CodeAnnotationDraft) :
    Runs (fun tables _ => tables.attributes = attributes) (writeAnnotations context annotations)
      fun _ tables _ => tables.attributes = attributes := by
  induction annotations with
  | nil => exact (Runs.pure ()).weaken (fun _ _ => id) fun _ _ _ => And.right
  | cons entry rest ih =>
      refine (runs_location _).bind fun place => ?_
      have adds (bytes : Output) : Runs (fun tables _ => tables.attributes = attributes)
          (Draft.tryChange fun (tables : AnnotationTables) => do
            return tables.setTypes entry.use.visible
              (← (tables.types entry.use.visible).add "annotations" bytes))
          fun _ tables _ => tables.attributes = attributes := by
        apply Runs.tryChange
        intro tables next pool same changed
        simp only [bind_eq_ok, pure_eq_ok] at changed
        rcases changed with ⟨table, -, rfl⟩
        cases entry.use.visible <;> exact same
      exact (adds _).bind fun _ => ih

theorem sound_writeAttributes {draft : CodeDraft} (fits : draft.Fits) :
    Runs (fun attributes _ => attributes = ({} : AttributeTable)) (writeAttributes context draft)
      fun _ _ _ => True := by
  have annotations {parts : AttributeParts} : Runs (AttributeTable.Holds parts []) (do
        let annotations ← written ({ attributes := draft.attributes } : AnnotationTables)
          (writeAnnotations context draft.annotations.reverse)
        annotations.writeTypes
        annotations.writeCustom) fun _ _ _ => True := by
    have writes : Runs (fun tables _ => tables = ({ attributes := draft.attributes } : AnnotationTables))
        (writeAnnotations context draft.annotations.reverse)
        fun _ tables _ => tables.attributes = draft.attributes :=
      (runs_writeAnnotations _).strengthen fun _ _ same => congrArg AnnotationTables.attributes same
    refine (runs_written writes).bind fun tables => Runs.assume (fun _ _ known => known.2) fun same => ?_
    have allFit : ∀ entry ∈ tables.attributes, entry.Fits [] := same ▸ fits.attributes
    refine ((AnnotationTables.runs_writeTypes tables).strengthen fun _ _ => And.left).bind fun _ => ?_
    exact (AnnotationTables.runs_writeCustom allFit).weaken (fun _ _ => id) fun _ _ _ _ => trivial
  have survive : ∀ told ∈ draft.frames.reverse, told.2.Survives := fun told member =>
    fits.frames told (List.mem_reverse.mp member)
  have writes : Runs (AttributeTable.Holds [] []) (writeAttributes context draft) fun _ _ _ => True := by
    unfold writeAttributes
    simp only [AttributeTable.addTable_eq]
    refine (runs_written ((sound_writeLines _).strengthen fun _ _ _ => trivial)).bind fun lines => ?_
    refine ((AttributeTable.runs_addPart _ _).strengthen fun _ _ => And.left).bind fun _ => ?_
    refine (runs_written ((sound_writeVariables _).strengthen fun _ _ _ => trivial)).bind fun found => ?_
    refine ((AttributeTable.runs_addPart _ _).strengthen fun _ _ => And.left).bind fun _ => ?_
    refine (AttributeTable.runs_addPart _ _).bind fun _ => ?_
    by_cases someFrames : (! draft.frames.isEmpty) = true
    · rw [if_pos someFrames]
      refine (runs_written ((CodeContext.sound_writeFrames survive none).strengthen
        fun _ _ _ => trivial)).bind fun table => ?_
      refine ((AttributeTable.runs_addPart .stackMapTable (some table.toOutput)).strengthen
        fun _ _ => And.left).bind fun _ => ?_
      exact annotations
    · rw [if_neg someFrames]
      exact annotations
  apply writes.strengthen
  rintro attributes pool rfl
  exact AttributeTable.holds_empty pool

/-- A body is written without harm to what is known. -/
theorem runs_write_fits {σ : Type} {Before : σ → Pool → Prop} {draft : CodeDraft} (fits : draft.Fits)
    (method : Text) : Runs Before (draft.write method) fun _ => Before := by
  unfold write
  refine Runs.bind (Runs.of_state fun state => ⟨_, rfl⟩) fun layout => ?_
  dsimp only
  refine (runs_written ((sound_writeHandlers _).strengthen fun _ _ _ => trivial)).bind fun handlers => ?_
  refine (runs_written (sound_writeAttributes fits)).bind fun attributes => ?_
  apply (Runs.pure _).weaken (fun _ _ => id)
  rintro _ part pool ⟨-, ⟨before, -⟩, -⟩
  exact before

end CodeDraft

end ClassFile
