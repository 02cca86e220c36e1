import ClassFile.Draft.Class
import ClassFile.Proofs.Draft.Running
import ClassFile.Proofs.Pool.Steps

/-!
# The pool of a draft

Whatever is recorded, and wherever the recording fails, the pool keeps all that was in it
(`ClassDraft.grows_record`).
-/

namespace ClassFile

namespace PoolBuilder

theorem settles_item (item : PoolItem) : item.add.Settles :=
  (stepwise_item item).toSettles

@[grind ←]
theorem settles_text (value : Text) : (text value).Settles :=
  settles_item (.text value)

@[grind ←]
theorem settles_classRef (name : Text) : (classRef name).Settles :=
  settles_item (.loadable (.classRef name))

@[grind ←]
theorem settles_moduleRef (name : Text) : (moduleRef name).Settles :=
  settles_item (.moduleRef name)

@[grind ←]
theorem settles_packageRef (name : Text) : (packageRef name).Settles :=
  settles_item (.packageRef name)

@[grind ←]
theorem settles_nameAndType (name descriptor : Text) : (nameAndType name descriptor).Settles :=
  settles_item (.nameAndType name descriptor)

@[grind ←]
theorem settles_fieldRef (member : MemberRef) : (fieldRef member).Settles :=
  settles_item (.fieldRef member)

@[grind ←]
theorem settles_methodRef (member : MemberRef) (isInterface : Bool) :
    (methodRef member isInterface).Settles :=
  settles_item (.methodRef member isInterface)

@[grind ←]
theorem settles_constant (value : Constant) : (constant value).Settles :=
  settles_item (.loadable value)

@[grind ←]
theorem settles_invokeDynamic (name descriptor : Text) (method : Handle)
    (arguments : List Constant) : (invokeDynamic name descriptor method arguments).Settles :=
  settles_item (.invokeDynamic name descriptor method arguments)

@[grind ←]
theorem settles_optional {α : Type} {add : α → Pooling UInt16} (settles : ∀ value, (add value).Settles)
    (value? : Option α) : (optional add value?).Settles := by
  cases value? with
  | none => exact .pure 0
  | some value => exact settles value

end PoolBuilder

@[grind ←]
theorem AnnotationConstant.settles_pooled (value : AnnotationConstant) : value.pooled.Settles := by
  cases value with
  | string value | classRef value => exact PoolBuilder.settles_text value
  | _ => exact PoolBuilder.settles_add _

@[grind ←]
theorem FieldDraft.settles_pooledValue (value : FieldValue) : (pooledValue value).Settles := by
  cases value with
  | string value => exact PoolBuilder.settles_item (.loadable (.string value))
  | _ => exact PoolBuilder.settles_add _

namespace Draft

variable {σ τ α β : Type}

/-- Whether a step, done or failed, takes nothing away from the pool. -/
def Grows (step : Draft σ α) : Prop :=
  ∀ state : σ × PoolBuilder, state.2.Grows (step.on state).2.2

@[grind ←]
theorem grows_pure (value : α) : Grows (pure value : Draft σ α) :=
  fun state => .refl state.2

@[grind ←]
theorem grows_throw (cause : Fault) : Grows (throw cause : Draft σ α) :=
  fun state => .refl state.2

@[grind ←]
theorem grows_failure (cause : ClassError) : Grows (failure cause : Draft σ α) :=
  fun state => .refl state.2

@[grind ←]
theorem grows_lift (computed : Except Fault α) : Grows (liftM computed : Draft σ α) := by
  cases computed with
  | ok value => exact grows_pure value
  | error cause => exact grows_throw cause

@[grind ←]
theorem grows_look (view : σ → α) : Grows (look view) :=
  fun state => .refl state.2

@[grind ←]
theorem grows_change (update : σ → σ) : Grows (change update) :=
  fun state => .refl state.2

@[grind ←]
theorem grows_tryChange (update : σ → Except ClassError σ) : Grows (tryChange update) := by
  rintro ⟨part, pool⟩
  rw [on_tryChange]
  cases update part <;> exact .refl pool

@[grind ←]
theorem grows_pooled {adding : Pooling α} (settles : adding.Settles) :
    Grows (pooled adding : Draft σ α) := by
  rintro ⟨part, pool⟩
  rw [on_pooled]
  rcases ran : adding.on pool with ⟨_ | value, next⟩ <;> exact settles.grows ran

@[grind ←]
theorem grows_pooledIfPresent {add : α → Pooling UInt16} (settles : ∀ value, (add value).Settles)
    (value? : Option α) : Grows (pooledIfPresent add value? : Draft σ UInt16) :=
  grows_pooled (PoolBuilder.settles_optional settles value?)

@[grind ←]
theorem Grows.bind {first : Draft σ α} {second : α → Draft σ β} (grows : Grows first)
    (next : ∀ value, Grows (second value)) : Grows (first >>= second) := by
  intro state
  have between := grows state
  rw [on_bind]
  rcases ran : first.on state with ⟨_ | value, after⟩
  · rwa [ran] at between
  · rw [ran] at between
    exact between.trans (next value after)

@[grind ←]
theorem Grows.within {get : σ → τ} {put : τ → σ → σ} {write : Draft τ α} (grows : Grows write) :
    Grows (within get put write) :=
  fun state => grows (get state.1, state.2)

/-- A step that is told one after the other of many things. -/
@[grind ←]
theorem grows_forM {step : β → Draft σ Unit} (grows : ∀ value, Grows (step value))
    (values : List β) : Grows (values.forM step) := by
  induction values with
  | nil => exact grows_pure ()
  | cons value rest ih => exact (grows value).bind fun _ => ih

@[grind ←]
theorem grows_mapM {step : β → Draft σ α} (grows : ∀ value, Grows (step value))
    (values : List β) : Grows (values.mapM step) := by
  induction values with
  | nil => exact grows_pure []
  | cons value rest ih =>
      rw [List.mapM_cons]
      exact (grows value).bind fun _ => ih.bind fun _ => grows_pure _

end Draft

open Draft

/-! ### Attributes -/

namespace AttributeTable

variable {σ : Type}

@[grind ←]
theorem grows_addNamed (name : UInt16) (body : Output) : Grows (addNamed name body) := by
  unfold addNamed
  split <;> grind

@[grind ←]
theorem grows_add (kind : AttributeKind) (body : Output) : Grows (add kind body) := by
  unfold add
  grind

@[grind ←]
theorem grows_addIndex (kind : AttributeKind) (index? : Option UInt16) :
    Grows (addIndex kind index?) := by
  cases index? <;> unfold addIndex <;> grind

@[grind ←]
theorem grows_addTable (kind : AttributeKind) (table : Table) : Grows (addTable kind table) := by
  unfold addTable
  split <;> grind

theorem settles_writeFields (output : Output) (fields : List AttributeField) :
    (writeFields output fields).Settles := by
  induction fields generalizing output with
  | nil => exact .pure output
  | cons field rest ih =>
      cases field with
      | number value => exact ih _
      | text value => exact (PoolBuilder.settles_text value).bind fun _ => ih _
      | refused cause => exact .throw cause

@[grind ←]
theorem settles_content (content : AttributeContent) : (AttributeTable.content content).Settles := by
  cases content with
  | raw bytes => exact .pure _
  | fields fields => exact settles_writeFields .empty fields

@[grind ←]
theorem grows_addCustom (entry : Attribute) : Grows (addCustom entry) := by
  unfold addCustom
  grind

@[grind ←]
theorem grows_addCommon (access : UInt32) (major : UInt16) (signature? : Option UInt16) :
    Grows (addCommon access major signature?) := by
  unfold addCommon
  dsimp only
  split <;> split <;> grind

end AttributeTable

/-! ### Annotations -/

namespace AnnotationDraft

@[grind ←]
theorem grows_putIndex {adding : Pooling UInt16} (settles : adding.Settles) :
    Grows (putIndex adding) := by
  unfold putIndex put
  grind

@[grind ←]
theorem grows_putTag (letter : Char) : Grows (putTag letter) :=
  grows_change _

@[grind ←]
theorem grows_beginElement (name? : Option Text) : Grows (beginElement name?) := by
  refine (grows_tryChange _).bind fun _ => (grows_look _).bind fun named => ?_
  split <;> grind

@[grind ←]
theorem grows_element (item : ElementItem) : Grows (element item) := by
  cases item <;> unfold element <;> grind

@[grind ←]
theorem grows_openNested (name? : Option Text) (descriptor : Text) :
    Grows (openNested name? descriptor) := by
  unfold openNested openList
  grind

@[grind ←]
theorem grows_openArray (name? : Option Text) : Grows (openArray name?) := by
  unfold openArray openList
  grind

end AnnotationDraft

@[grind ←]
theorem AnnotationSet.grows_begin (descriptor : Text) : Grows (AnnotationSet.begin descriptor) := by
  unfold AnnotationSet.begin AnnotationSet.raise
  grind

@[grind ←]
theorem AnnotationSet.grows_beginType (use : TypeUse) : Grows (AnnotationSet.beginType use) := by
  unfold AnnotationSet.beginType AnnotationSet.raise
  grind

namespace AnnotationTables

@[grind ←]
theorem grows_begin (descriptor : Text) (visible : Bool) :
    Grows (AnnotationTables.begin descriptor visible) := by
  unfold AnnotationTables.begin
  grind

@[grind ←]
theorem grows_beginType (use : TypeUse) : Grows (AnnotationTables.beginType use) := by
  unfold AnnotationTables.beginType
  grind

@[grind ←]
theorem grows_writePlain (tables : AnnotationTables) : Grows tables.writePlain := by
  unfold writePlain
  grind

@[grind ←]
theorem grows_writeTypes (tables : AnnotationTables) : Grows tables.writeTypes := by
  unfold writeTypes
  grind

@[grind ←]
theorem grows_writeCustom (tables : AnnotationTables) : Grows tables.writeCustom :=
  grows_forM AttributeTable.grows_addCustom _

end AnnotationTables

/-! ### Bodies -/

namespace CodeContext

variable {σ : Type}

@[grind ←]
theorem grows_labelOffset (context : CodeContext) (label : Label) :
    Grows (context.labelOffset label : Draft σ UInt16) := by
  intro state
  unfold labelOffset
  cases context.layout.labelOffset context.method label <;> exact .refl state.2

@[grind ←]
theorem grows_writeValue (context : CodeContext) (output : Output) (value : FrameValue) :
    Grows (context.writeValue output value : Draft σ Output) := by
  cases value <;> unfold writeValue <;> grind

@[grind ←]
theorem grows_writeValues (context : CodeContext) (output : Output) (values : List FrameValue) :
    Grows (context.writeValues output values : Draft σ Output) := by
  induction values generalizing output with
  | nil => exact grows_pure output
  | cons value rest ih => exact (grows_writeValue context output value).bind ih

@[grind ←]
theorem grows_frame (context : CodeContext) (distance : UInt16) (told : Frame) :
    Grows (context.frame distance told : Draft σ Output) := by
  cases told with
  | same =>
      unfold frame
      grind
  | same1 value =>
      unfold frame
      grind
  | chop count =>
      unfold frame
      dsimp only
      split <;> grind
  | append locals =>
      unfold frame
      dsimp only
      split <;> grind
  | full locals stack =>
      unfold frame writeCounted
      grind

@[grind ←]
theorem grows_writeFrames (context : CodeContext) (previous? : Option Nat)
    (frames : List (Nat × Frame)) : Grows (context.writeFrames previous? frames) := by
  induction frames generalizing previous? with
  | nil => exact grows_pure ()
  | cons first rest ih =>
      unfold writeFrames
      dsimp only
      split <;> grind

end CodeContext

namespace CodeDraft

variable {σ τ : Type}

@[grind ←]
theorem grows_signatureIndex? (signature? : Option Text) :
    Grows (signatureIndex? signature? : Draft σ (Option UInt16)) := by
  cases signature? <;> unfold signatureIndex? <;> grind

@[grind ←]
theorem grows_require (event : InstructionEvent) (opcode : Opcode) :
    Grows (event.require opcode : Draft σ Unit) := by
  unfold InstructionEvent.require
  split <;> grind

@[grind ←]
theorem grows_putFixed (output : Output) : Grows (putFixed output) :=
  grows_change _

@[grind ←]
theorem grows_instruction (element : Instruction) : Grows (instruction element) := by
  cases element with
  | method opcode member isInterface =>
      unfold instruction
      refine (grows_require _ _).bind fun _ => Grows.bind (by grind) fun index => ?_
      dsimp only
      split <;> grind
  | _ =>
      unfold instruction putIndexed
      grind

@[grind ←]
theorem grows_tryCatch (block : TryCatch) : Grows (tryCatch block) := by
  unfold tryCatch
  grind

@[grind ←]
theorem grows_localVariable (entry : LocalVariable) : Grows (localVariable entry) := by
  unfold localVariable
  grind

@[grind ←]
theorem grows_written {empty : τ} {write : Draft τ Unit} (grows : Grows write) :
    Grows (written empty write : Draft σ τ) :=
  Grows.within (grows.bind fun _ => grows_look _)

@[grind ←]
theorem grows_writeHandlers (context : CodeContext) (handlers : List HandlerDraft) :
    Grows (writeHandlers context handlers) := by
  induction handlers with
  | nil => exact grows_pure ()
  | cons block rest ih =>
      unfold writeHandlers
      grind

@[grind ←]
theorem grows_writeLines (context : CodeContext) (lines : List (Label × UInt16)) :
    Grows (writeLines context lines) := by
  induction lines with
  | nil => exact grows_pure ()
  | cons line rest ih =>
      unfold writeLines
      grind

@[grind ←]
theorem grows_rangeOffsets (context : CodeContext) (range : LabelRange) :
    Grows (rangeOffsets context range : Draft σ (UInt16 × UInt16)) := by
  unfold rangeOffsets
  grind

@[grind ←]
theorem grows_writeVariables (context : CodeContext) (entries : List VariableDraft) :
    Grows (writeVariables context entries) := by
  induction entries with
  | nil => exact grows_pure ()
  | cons entry rest ih =>
      unfold writeVariables
      refine (grows_rangeOffsets context _).bind fun place => (grows_tryChange _).bind fun _ => ?_
      cases entry.signature? <;> grind

@[grind ←]
theorem grows_location (context : CodeContext) (anchor : CodeAnchor) :
    Grows (location context anchor : Draft σ TargetLocation) := by
  cases anchor <;> unfold location <;> grind

@[grind ←]
theorem grows_writeAnnotations (context : CodeContext) (entries : List CodeAnnotationDraft) :
    Grows (writeAnnotations context entries) := by
  induction entries with
  | nil => exact grows_pure ()
  | cons entry rest ih =>
      unfold writeAnnotations
      grind

@[grind ←]
theorem grows_writeAttributes (context : CodeContext) (draft : CodeDraft) :
    Grows (writeAttributes context draft) := by
  unfold writeAttributes
  refine Grows.bind (by grind) fun lines => Grows.bind (by grind) fun _ => ?_
  refine Grows.bind (by grind) fun tables => Grows.bind (by grind) fun _ => ?_
  dsimp only
  split <;> grind

@[grind ←]
theorem grows_write (draft : CodeDraft) (method : Text) :
    Grows (draft.write method : Draft σ Output) := by
  refine Grows.bind ?_ fun layout => by grind
  exact fun state => .refl state.2

end CodeDraft

/-! ### Members -/

namespace FieldDraft

variable {σ : Type}

@[grind ←]
theorem grows_begin (header : FieldHeader) : Grows (FieldDraft.begin header : Draft σ FieldDraft) := by
  unfold FieldDraft.begin
  cases header.value? <;> grind

@[grind ←]
theorem grows_write (draft : FieldDraft) (major : UInt16) :
    Grows (draft.write major : Draft σ Output) := by
  refine Grows.bind (CodeDraft.grows_written ?_) fun attributes => grows_pure _
  grind

end FieldDraft

namespace ComponentDraft

variable {σ : Type}

@[grind ←]
theorem grows_begin (header : ComponentHeader) :
    Grows (ComponentDraft.begin header : Draft σ ComponentDraft) := by
  unfold ComponentDraft.begin
  grind

@[grind ←]
theorem grows_write (draft : ComponentDraft) : Grows (draft.write : Draft σ Output) := by
  refine Grows.bind (CodeDraft.grows_written ?_) fun attributes => grows_pure _
  grind

end ComponentDraft

namespace MethodDraft

variable {σ : Type}

@[grind ←]
theorem grows_classIndices (found : List UInt16) (names : List Text) :
    Grows (classIndices found names : Draft σ (List UInt16)) := by
  induction names generalizing found with
  | nil => exact grows_pure _
  | cons name rest ih =>
      unfold classIndices
      grind

@[grind ←]
theorem grows_begin (header : MethodHeader) :
    Grows (MethodDraft.begin header : Draft σ MethodDraft) := by
  unfold MethodDraft.begin
  grind

@[grind ←]
theorem grows_inCode {α : Type} {write : Draft CodeDraft α} (grows : Grows write) :
    Grows (inCode write) :=
  grows.within

@[grind ←]
theorem grows_item (event : MethodItem) : Grows (item event) := by
  cases event <;> unfold item <;> grind

@[grind ←]
theorem grows_beginCodeAnnotation (use : TypeUse) (anchor : CodeAnchor) :
    Grows ( beginCodeAnnotation use anchor) := by
  unfold beginCodeAnnotation
  grind

@[grind ←]
theorem grows_beginAnnotation (opening : Opening) : Grows ( beginAnnotation opening) := by
  cases opening <;> unfold beginAnnotation <;> grind

@[grind ←]
theorem grows_parameterTable (parameters : List (UInt16 × UInt16)) :
    Grows (parameterTable parameters : Draft σ Output) := by
  unfold parameterTable
  dsimp only
  split <;> grind

@[grind ←]
theorem grows_writeExceptions (indices : List UInt16) : Grows (writeExceptions indices) := by
  induction indices with
  | nil => exact grows_pure ()
  | cons index rest ih =>
      unfold writeExceptions
      grind

@[grind ←]
theorem grows_writeParameterAnnotations (kind : AttributeKind) (annotations : ParameterAnnotations) :
    Grows (writeParameterAnnotations kind annotations) := by
  unfold writeParameterAnnotations
  split <;> grind

@[grind ←]
theorem grows_writeAttributes (draft : MethodDraft) (major : UInt16) :
    Grows (writeAttributes draft major) := by
  unfold writeAttributes
  cases draft.code?
  case' some code =>
    refine (CodeDraft.grows_write code draft.name).bind fun body => ?_
    refine (AttributeTable.grows_add .code body).bind fun _ => ?_
  all_goals
    refine (CodeDraft.grows_written (grows_writeExceptions _)).bind fun exceptions => ?_
    refine (AttributeTable.grows_addTable .exceptions exceptions).bind fun _ => ?_
    refine (AttributeTable.grows_addCommon draft.access major draft.signature?).bind fun _ => ?_
    refine (AnnotationTables.grows_writePlain _).bind fun _ => ?_
    refine (grows_writeParameterAnnotations _ _).bind fun _ => ?_
    refine (grows_writeParameterAnnotations _ _).bind fun _ => ?_
    refine (AnnotationTables.grows_writeTypes _).bind fun _ => ?_
    cases draft.default? <;> cases draft.parameters.isEmpty <;> grind

@[grind ←]
theorem grows_write (draft : MethodDraft) (major : UInt16) :
    Grows (draft.write major : Draft σ Output) := by
  unfold MethodDraft.write
  grind

end MethodDraft

/-! ### Classes -/

namespace ModuleDraft

variable {σ : Type}

@[grind ←]
theorem grows_begin (header : ModuleHeader) :
    Grows (ModuleDraft.begin header : Draft σ ModuleDraft) := by
  unfold ModuleDraft.begin
  grind

@[grind ←]
theorem grows_moduleIndices (found : List UInt16) (names : List Text) :
    Grows (moduleIndices found names : Draft σ (List UInt16)) := by
  induction names generalizing found with
  | nil => exact grows_pure _
  | cons name rest ih =>
      unfold moduleIndices
      grind

@[grind ←]
theorem grows_relation (entry : Relation) : Grows (relation entry : Draft σ Output) := by
  unfold relation
  grind

@[grind ←]
theorem grows_item (event : ModuleItem) : Grows (item event) := by
  cases event <;> unfold item <;> grind

end ModuleDraft

namespace ClassDraft

theorem grows_inModule {write : Draft ModuleDraft Unit} (grows : Grows write) :
    Grows (inModule write) := by
  refine (grows_look _).bind fun module? => ?_
  split <;> grind

theorem grows_inMethod {write : Draft MethodDraft Unit} (grows : Grows write) :
    Grows (inMethod write) := by
  refine (grows_look _).bind fun member => ?_
  split <;> grind

theorem grows_inAnnotation {write : Draft AnnotationDraft Unit} (grows : Grows write) :
    Grows ( inAnnotation write) := by
  refine (grows_look _).bind fun annotation? => ?_
  split <;> grind

theorem grows_header (head : ClassHeader) : Grows (header head) := by
  unfold header
  refine (grows_change _).bind fun _ => Grows.bind (by grind) fun thisClass => ?_
  refine (grows_change _).bind fun _ => Grows.bind (by grind) fun signature? => ?_
  refine (grows_change _).bind fun _ => Grows.bind (by grind) fun superClass => ?_
  dsimp only
  split <;> grind

theorem grows_item (event : ClassItem) : Grows (item event) := by
  cases event with
  | header head => exact grows_header head
  | source file? debug? => cases file? <;> cases debug? <;> unfold item <;> grind
  | outerClass owner name? descriptor? =>
      cases name? <;> cases descriptor? <;> unfold item <;> grind
  | _ =>
      unfold item
      grind

theorem grows_beginPlain (opening : Opening) : Grows (beginPlain opening) := by
  cases opening <;> unfold beginPlain <;> grind

/-- The first list of an annotation is opened beside the pool. -/
theorem grows_openFirst (begun? : Option (AnnotationPlace × ElementList)) : Grows (do
    if let some (place, list) := begun? then
      Draft.change fun draft : ClassDraft =>
        { draft with annotation? := some (place, ⟨list, []⟩) }) := by
  rcases begun? with _ | ⟨place, list⟩ <;> grind

theorem grows_beginAnnotation (opening : Opening) : Grows ( beginAnnotation opening) := by
  refine (grows_look _).bind fun member => ?_
  cases member with
  | method method => exact Grows.bind (by grind) grows_openFirst
  | _ => exact (grows_beginPlain opening).bind grows_openFirst

theorem grows_enter (opening : Opening) : Grows (enter opening) := by
  cases opening with
  | moduleScope head | component head | field head | method head =>
      unfold enter
      grind
  | nested name? descriptor => exact grows_inAnnotation (by grind)
  | array name? => exact grows_inAnnotation (by grind)
  | _ => exact grows_beginAnnotation _

theorem grows_finishMember : Grows finishMember := by
  refine (grows_look _).bind fun major => (grows_look _).bind fun member => ?_
  cases member <;> grind

theorem grows_exit (finished : Bool) : Grows (exit finished) := by
  refine (grows_look _).bind fun annotation? => ?_
  split
  · split <;> grind
  · cases finished
    · grind
    · exact grows_finishMember.bind fun _ => grows_change _

/-- No event takes anything away from the pool, whether it is recorded or fails. -/
theorem grows_record (event : Event) : Grows (record event) := by
  cases event with
  | enter opening => exact grows_enter opening
  | classItem event => exact grows_item event
  | moduleItem event => exact grows_inModule (by grind)
  | element event => exact grows_inAnnotation (by grind)
  | methodItem event => exact grows_inMethod (by grind)
  | «attribute» entry => exact grows_change _
  | finish => exact grows_exit true
  | leave => exact grows_exit false

end ClassDraft

end ClassFile
