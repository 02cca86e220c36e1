import ClassFile.Proofs.Draft.Stepping
import ClassFile.Proofs.Members.Writing
import ClassFile.Proofs.Pool.Defining
import ClassFile.Proofs.Rewriting.Methods

/-!
# Recording the tables of a body

What a body is told of exception handlers, line numbers and local variables is kept in three lists, each in
the order in which it is told, whatever is told in between (`ClassDraft.runs_recordAll`): instructions,
frames, annotations with all their values, attributes.
-/

namespace ClassFile

open Draft

/-- The exception handlers, the line numbers with the labels that they start at, and the local variables of
a body, each in their order. -/
@[ext]
structure BodyTables where
  handlers : List TryCatch := []
  lines : List (Label × UInt16) := []
  locals : List LocalVariable := []
  deriving DecidableEq

namespace BodyTables

instance : Append BodyTables where
  append first second :=
    ⟨first.handlers ++ second.handlers, first.lines ++ second.lines, first.locals ++ second.locals⟩

@[simp]
theorem handlers_append (first second : BodyTables) :
    (first ++ second).handlers = first.handlers ++ second.handlers :=
  rfl

@[simp]
theorem lines_append (first second : BodyTables) : (first ++ second).lines = first.lines ++ second.lines :=
  rfl

@[simp]
theorem locals_append (first second : BodyTables) :
    (first ++ second).locals = first.locals ++ second.locals :=
  rfl

@[simp]
theorem append_empty (tables : BodyTables) : tables ++ {} = tables := by
  ext1 <;> simp

@[simp]
theorem empty_append (tables : BodyTables) : {} ++ tables = tables :=
  rfl

theorem append_assoc (first second third : BodyTables) :
    first ++ second ++ third = first ++ (second ++ third) := by
  ext1 <;> simp

end BodyTables

namespace Event

/-- What an event tells of the tables of a body. -/
def tables : Event → BodyTables
  | .methodItem (.tryCatch block) => { handlers := [block] }
  | .methodItem (.instruction (.line number start)) => { lines := [(start, number)] }
  | .methodItem (.localVariable entry) => { locals := [entry] }
  | _ => {}

/-- The instruction, or the label, that an event tells. -/
def codeParts : Event → List Instruction
  | .methodItem (.instruction (.line ..)) | .methodItem (.instruction (.frame _)) => []
  | .methodItem (.instruction told) => [told]
  | _ => []

/-- How many scopes are open inside a method behind an event, if there were `depth` before it; none if the
event can't come there. -/
def depthBehind (depth : Nat) (event : Event) : Option Nat :=
  let sort := if depth = 0 then ScopeSort.ofMethod else .ofValues
  match event with
  | .enter opening => if sort ∈ opening.places then some (depth + 1) else none
  | .finish | .leave => if depth = 0 then none else some (depth - 1)
  | event => if sort ∈ event.places then some depth else none

end Event

/-- What events tell of the tables of a body. -/
def BodyTables.ofEvents (events : List Event) : BodyTables where
  handlers := events.flatMap fun event => event.tables.handlers
  lines := events.flatMap fun event => event.tables.lines
  locals := events.flatMap fun event => event.tables.locals

theorem BodyTables.ofEvents_cons (event : Event) (events : List Event) :
    ofEvents (event :: events) = event.tables ++ ofEvents events := by
  ext1 <;> simp [ofEvents]

/-- How many scopes are open inside a method behind events. -/
def Event.depthBehindAll (depth : Nat) (events : List Event) : Option Nat :=
  events.foldlM depthBehind depth

/-! ### Texts -/

/-- Whether the texts in an element of a body survive. -/
def Instruction.TextsSurvive : Instruction → Prop
  | .type _ name | .multiArray name _ => name.Survives
  | .field _ member | .method _ member _ => member.Survives
  | .invokeDynamic name descriptor bootstrap arguments =>
      name.Survives ∧ descriptor.Survives ∧ bootstrap.Survives ∧ Constant.AllSurvive arguments
  | .loadConstant constant => constant.Survives
  | .frame told => told.Survives
  | _ => True

/-- Whether a table switch has as many targets as its bounds say. -/
def Instruction.IsCounted : Instruction → Prop
  | .tableSwitch low high _ targets => high.toInt - low.toInt + 1 = targets.length
  | _ => True

/-- Whether the texts in an event of the method scope survive. -/
def MethodItem.TextsSurvive : MethodItem → Prop
  | .instruction element => element.TextsSurvive
  | .parameter entry => ∀ name ∈ entry.name?, name.Survives
  | .tryCatch block => ∀ name ∈ block.type?, name.Survives
  | .localVariable entry =>
      entry.name.Survives ∧ entry.descriptor.Survives ∧
        ∀ signature ∈ entry.signature?, signature.Survives
  | _ => True

/-- Whether the texts in an attribute survive. -/
structure Attribute.TextsSurvive (entry : Attribute) : Prop where
  name : entry.name.Survives
  content : ∀ fields, entry.content = .fields fields → ∀ value : Text, .text value ∈ fields → value.Survives

/-- Whether the texts in the head of an annotation, or of a value, survive. -/
def Opening.TextsSurvive : Opening → Prop
  | .annotate descriptor _ | .annotateParameter _ descriptor _ => descriptor.Survives
  | .annotateType use | .annotateInstruction use | .annotateTryCatch use | .annotateLocal use _ =>
      use.descriptor.Survives
  | .nested name? descriptor => (∀ name ∈ name?, name.Survives) ∧ descriptor.Survives
  | .array name? => ∀ name ∈ name?, name.Survives
  | _ => True

/-- Whether the texts in an event inside a method survive. -/
def Event.TextsSurvive : Event → Prop
  | .methodItem item => item.TextsSurvive
  | .attribute entry => entry.TextsSurvive
  | .element item => item.Survives
  | .enter opening => opening.TextsSurvive
  | _ => True

/-! ### Annotations -/

theorem AnnotationSet.sound_begin {descriptor : Text} (survives : descriptor.Survives) :
    Sound ( AnnotationSet.begin descriptor) :=
  (Sound.tryChange _).bind fun _ => (Sound.pooled (PoolBuilder.adds_text survives)).bind fun _ =>
    Sound.change _

theorem AnnotationSet.sound_beginType {use : TypeUse} (survives : use.descriptor.Survives) :
    Sound ( AnnotationSet.beginType use) :=
  (Sound.tryChange _).bind fun _ => (Sound.change _).bind fun _ =>
    (Sound.pooled (PoolBuilder.adds_text survives)).bind fun _ => Sound.change _

theorem Draft.Sound.within {σ τ α : Type} {get : σ → τ} {put : τ → σ → σ} {write : Draft τ α}
    (sound : Sound write) : Sound (Draft.within get put write) :=
  Runs.within sound (fun _ _ => id) fun _ _ _ _ _ => id

theorem AnnotationTables.sound_begin {descriptor : Text} (survives : descriptor.Survives)
    (visible : Bool) : Sound ( AnnotationTables.begin descriptor visible) :=
  (AnnotationSet.sound_begin survives).within.bind fun _ => Sound.pure _

theorem AnnotationTables.sound_beginType {use : TypeUse} (survives : use.descriptor.Survives) :
    Sound ( AnnotationTables.beginType use) :=
  (AnnotationSet.sound_beginType survives).within.bind fun _ => Sound.pure _

namespace AnnotationDraft

theorem sound_putIndex {adding : Pooling UInt16} {After : UInt16 → Pool → Prop}
    (adds : PoolBuilder.Adds (fun _ => True) adding After) : Sound (putIndex adding) :=
  (Sound.pooled adds).bind fun _ => Sound.change _

theorem sound_beginElement {name? : Option Text} (survives : ∀ name ∈ name?, name.Survives) :
    Sound (beginElement name?) := by
  refine (Sound.tryChange _).bind fun _ => ?_
  refine Sound.bind ((Runs.look _).weaken (fun _ _ => id) fun _ _ _ _ => trivial) fun named => ?_
  cases named with
  | true => exact sound_putIndex (PoolBuilder.adds_text (ElementItem.survives_getD survives))
  | false => exact Sound.pure ()

theorem sound_element {item : ElementItem} (survives : item.Survives) : Sound (element item) := by
  cases item with
  | constant name? value =>
      exact (sound_beginElement survives.1).bind fun _ => (Sound.change _).bind fun _ =>
        sound_putIndex (AnnotationConstant.adds_pooled survives.2)
  | enumeration name? descriptor value =>
      exact (sound_beginElement survives.1).bind fun _ => (Sound.change _).bind fun _ =>
        (sound_putIndex (PoolBuilder.adds_text survives.2.1)).bind fun _ =>
          sound_putIndex (PoolBuilder.adds_text survives.2.2)

theorem sound_openNested {name? : Option Text} {descriptor : Text}
    (nameSurvives : ∀ name ∈ name?, name.Survives) (survives : descriptor.Survives) :
    Sound (openNested name? descriptor) :=
  (sound_beginElement nameSurvives).bind fun _ => (Sound.change _).bind fun _ =>
    (sound_putIndex (PoolBuilder.adds_text survives)).bind fun _ => Sound.change _

theorem sound_openArray {name? : Option Text} (survives : ∀ name ∈ name?, name.Survives) :
    Sound (openArray name?) :=
  (sound_beginElement survives).bind fun _ => (Sound.change _).bind fun _ => Sound.change _

end AnnotationDraft

/-! ### The body -/

/-- Whether an exception handler is recorded as it was told. -/
structure HandlerDraft.Means (pool : Pool) (told : TryCatch) (draft : HandlerDraft) : Prop where
  start : draft.start = told.start
  stop : draft.stop = told.stop
  handler : draft.handler = told.handler
  type : (Slot.ofOption .classRef told.type?).Means pool draft.type

/-- Whether a local variable is recorded as it was told. -/
structure VariableDraft.Means (pool : Pool) (told : LocalVariable) (draft : VariableDraft) : Prop where
  name : pool.text draft.name = .ok told.name
  descriptor : pool.text draft.descriptor = .ok told.descriptor
  signature : pool.Names told.signature? draft.signature?
  range : draft.range = told.range

/-- The kinds of attributes that line numbers and local variables are written as. -/
def AttributeKind.ofTables : List AttributeKind :=
  [.lineNumberTable, .localVariableTable, .localVariableTypeTable]

/-- Whether an attribute has another name than those that line numbers and local variables are written
as. -/
def Attribute.IsNoTable (entry : Attribute) : Prop :=
  ∀ kind ∈ AttributeKind.ofTables, entry.name ≠ kind.text

namespace CodeDraft

/-- Whether the parts of a body and its tables are recorded as they were told, and nothing else of the body
will harm the tables. -/
structure Tells (parts : List Instruction) (tables : BodyTables) (draft : CodeDraft) (pool : Pool) : Prop where
  items : List.Forall₂ Instruction.IsKeptAs parts draft.items.reverse
  handlers : List.Forall₂ (HandlerDraft.Means pool) tables.handlers draft.handlers.reverse
  lines : draft.lines.reverse = tables.lines
  locals : List.Forall₂ (VariableDraft.Means pool) tables.locals draft.localVariables.reverse
  frames : ∀ entry ∈ draft.frames, entry.2.Survives
  attributes : ∀ entry ∈ draft.attributes, entry.TextsSurvive ∧ entry.IsNoTable

theorem tells_empty (pool : Pool) : Tells [] {} {} pool :=
  ⟨.nil, .nil, rfl, .nil, by simp, by simp⟩

variable {parts : List Instruction} {tables : BodyTables}

theorem Tells.addItem {draft : CodeDraft} {pool : Pool} (tells : draft.Tells parts tables pool)
    {element : Instruction} {item : CodeItem} (kept : element.IsKeptAs item) :
    (draft.addItem item).Tells (parts ++ [element]) tables pool where
  items := by
    rw [CodeDraft.addItem, List.reverse_cons]
    exact List.rel_append tells.items (.cons kept .nil)
  handlers := tells.handlers
  lines := tells.lines
  locals := tells.locals
  frames := tells.frames
  attributes := tells.attributes

theorem Tells.addInstruction {draft : CodeDraft} {pool : Pool} (tells : draft.Tells parts tables pool)
    {element : Instruction} {item : CodeItem} (kept : element.IsKeptAs item) :
    (draft.addInstruction item).Tells (parts ++ [element]) tables pool :=
  { tells.addItem kept with }

section Elements

variable {element : Instruction} {parts' : List Instruction}

theorem runs_putFixed_tells {output : Output} (real : element.isReal = true)
    (steps : ∀ start, StepsOver start output.toList) :
    Runs (Tells parts tables) (putFixed output) fun _ => Tells (parts ++ [element]) tables :=
  Runs.change fun _ _ tells => tells.addInstruction (.fixed real steps)

theorem runs_pooled_tells {α β : Type} {adding : Pooling α} {After : α → Pool → Prop}
    {next : α → Draft CodeDraft β} (adds : PoolBuilder.Adds (fun _ => True) adding After)
    (runs : ∀ value, Runs (Tells parts tables) (next value) fun _ => Tells parts' tables) :
    Runs (Tells parts tables) (Draft.pooled adding >>= next) fun _ => Tells parts' tables :=
  (Runs.pooled adds).bind fun value => (runs value).strengthen fun _ _ => And.left

theorem runs_require_tells {β : Type} {event : InstructionEvent} {opcode : Opcode}
    {next : Unit → Draft CodeDraft β} (runs : event.admits opcode = true →
      Runs (Tells parts tables) (next ()) fun _ => Tells parts' tables) :
    Runs (Tells parts tables) (event.require opcode >>= next) fun _ => Tells parts' tables := by
  refine (runs_require event opcode).bind fun _ => ?_
  exact Runs.assume (fun _ _ known => known.1) fun admitted =>
    (runs admitted).strengthen fun _ _ => And.right

theorem runs_putIndexed_tells {opcode : Opcode} {index : UInt16} {output : Output} {rest : List UInt8}
    (real : element.isReal = true) (written : output.toList = ((opcodeByte opcode).u16 index).toList ++ rest)
    (sized : opcode.layout.size? = some (rest.length + 3)) :
    Runs (Tells parts tables) (putFixed output) fun _ => Tells (parts ++ [element]) tables := by
  refine runs_putFixed_tells real fun start => ?_
  rw [written, Output.toList_u16, toList_opcodeByte, List.singleton_append]
  exact stepsOver_index index sized

/-- An element of the body changes the tables only if it is a line number. -/
theorem runs_instruction_tells (survives : element.TextsSurvive) (counted : element.IsCounted) :
    Runs (Tells parts tables) (instruction element) fun _ =>
      Tells (parts ++ (Event.methodItem (.instruction element)).codeParts)
        (tables ++ (Event.methodItem (.instruction element)).tables) := by
  have same {step : Draft CodeDraft Unit} {parts' : List Instruction}
      (runs : Runs (Tells parts tables) step fun _ => Tells parts' tables) :
      Runs (Tells parts tables) step fun _ => Tells parts' (tables ++ {}) := by
    rwa [BodyTables.append_empty]
  cases element with
  | simple opcode =>
      exact same (runs_require_tells fun admitted => runs_putFixed_tells rfl fun _ =>
        stepsOver_opcodeByte (layout_of_admits admitted))
  | int operand => exact same (runs_putFixed_tells rfl fun _ => stepsOver_intOperand operand)
  | «variable» opcode slot =>
      exact same (runs_require_tells fun admitted => runs_putFixed_tells rfl fun _ =>
        stepsOver_variableAccess slot (layout_of_admits admitted))
  | type opcode name =>
      exact same (runs_require_tells fun admitted =>
        runs_pooled_tells (PoolBuilder.adds_classRef survives) fun _ =>
          runs_putIndexed_tells rfl (List.append_nil _).symm
            (by rw [show opcode.layout = .type from layout_of_admits admitted]; rfl))
  | field opcode member =>
      exact same (runs_require_tells fun admitted =>
        runs_pooled_tells (PoolBuilder.adds_fieldRef survives) fun _ =>
          runs_putIndexed_tells rfl (List.append_nil _).symm
            (by rw [show opcode.layout = .field from layout_of_admits admitted]; rfl))
  | method opcode member isInterface =>
      apply same
      refine runs_require_tells fun admitted => ?_
      refine runs_pooled_tells (PoolBuilder.adds_methodRef survives) fun index => ?_
      dsimp only
      split
      · rename_i isInvokeInterface
        subst isInvokeInterface
        refine Runs.lift.bind fun output => Runs.assume (fun _ _ known => known.1) fun written => ?_
        rcases interfaceArguments_eq_ok written with ⟨rest, two, bytes⟩
        exact (runs_putIndexed_tells rfl bytes (by rw [two]; rfl)).strengthen fun _ _ => And.right
      · rename_i notInterface
        refine runs_putIndexed_tells rfl (List.append_nil _).symm ?_
        have isMethod : opcode.layout = .method :=
          (layout_of_admits admitted).resolve_right fun isInvokeInterface =>
            notInterface (Opcode.eq_invokeinterface isInvokeInterface)
        rw [isMethod]
        rfl
  | invokeDynamic name descriptor bootstrap arguments =>
      rcases survives with ⟨nameSurvives, descriptorSurvives, bootstrapSurvives, argumentsSurvive⟩
      exact same (runs_pooled_tells (PoolBuilder.defines_invokeDynamic nameSurvives descriptorSurvives
        bootstrapSurvives argumentsSurvive) fun _ =>
          runs_putIndexed_tells rfl (Output.toList_u16 ..) rfl)
  | jump opcode target =>
      exact same (runs_require_tells fun admitted => Runs.change fun _ _ tells =>
        tells.addInstruction (.jump target (layout_of_admits admitted)))
  | label place => exact same (Runs.change fun _ _ tells => tells.addItem (.label place))
  | loadConstant constant =>
      exact same (runs_pooled_tells (PoolBuilder.defines_constant constant survives) fun _ =>
        runs_putFixed_tells rfl fun _ => stepsOver_constantLoad _ _)
  | increment slot amount =>
      exact same (runs_putFixed_tells rfl fun _ => stepsOver_variableIncrement slot amount)
  | tableSwitch low high default targets =>
      exact same (Runs.change fun _ _ tells => tells.addInstruction (.tableSwitch default counted))
  | lookupSwitch default cases =>
      exact same (Runs.change fun _ _ tells => tells.addInstruction (.lookupSwitch default cases))
  | multiArray descriptor dimensions =>
      exact same (runs_pooled_tells (PoolBuilder.adds_classRef survives) fun _ =>
        runs_putIndexed_tells rfl (Output.toList_u8 ..) rfl)
  | frame told =>
      refine same (Runs.change fun draft pool tells => ?_)
      exact ⟨(List.append_nil parts).symm ▸ tells.items, tells.handlers, tells.lines, tells.locals,
        List.forall_mem_cons.mpr ⟨survives, tells.frames⟩, tells.attributes⟩
  | line number start =>
      refine Runs.change fun draft pool tells => ⟨?_, ?_, ?_, ?_, tells.frames, tells.attributes⟩
      · exact (List.append_nil parts).symm ▸ tells.items
      · simpa [Event.tables] using tells.handlers
      · simp [Event.tables, tells.lines]
      · simpa [Event.tables] using tells.locals

end Elements

theorem runs_tryCatch_tells {block : TryCatch} (survives : ∀ name ∈ block.type?, name.Survives) :
    Runs (Tells parts tables) (tryCatch block) fun _ => Tells parts (tables ++ { handlers := [block] }) := by
  have adds : ∀ name ∈ block.type?, PoolBuilder.Adds (fun _ => True) (PoolBuilder.classRef name)
      fun index pool => (Slot.classRef name).Means pool index := fun name member =>
    PoolBuilder.adds_classRef (survives name member)
  refine (Runs.pooledIfPresent adds).bind fun type => Runs.change ?_
  rintro draft pool ⟨tells, means⟩
  refine ⟨tells.items, ?_, ?_, ?_, tells.frames, tells.attributes⟩
  · rw [BodyTables.handlers_append, List.reverse_cons]
    exact List.rel_append tells.handlers (.cons ⟨rfl, rfl, rfl, means⟩ .nil)
  · simpa using tells.lines
  · simpa using tells.locals

theorem runs_localVariable_tells {entry : LocalVariable} (name : entry.name.Survives)
    (descriptor : entry.descriptor.Survives) (signature : ∀ text ∈ entry.signature?, text.Survives) :
    Runs (Tells parts tables) (localVariable entry) fun _ => Tells parts (tables ++ { locals := [entry] }) := by
  refine (Runs.pooled (PoolBuilder.adds_text name)).bind fun nameIndex => ?_
  refine (Runs.pooled (PoolBuilder.adds_text descriptor)).bind fun descriptorIndex => ?_
  refine (runs_signatureIndex? signature).bind fun signature? => Runs.change ?_
  rintro draft pool ⟨⟨⟨tells, named⟩, described⟩, signed⟩
  refine ⟨tells.items, ?_, ?_, ?_, tells.frames, tells.attributes⟩
  · simpa using tells.handlers
  · simpa using tells.lines
  · rw [BodyTables.locals_append, List.reverse_cons]
    exact List.rel_append tells.locals (.cons ⟨named, described, signed, rfl⟩ .nil)

theorem Tells.beginAnnotation {draft : CodeDraft} {pool : Pool} (tells : draft.Tells parts tables pool)
    (use : TypeUse) (anchor : CodeAnchor) (index : UInt16) :
    (draft.beginAnnotation use anchor index).Tells parts tables pool :=
  ⟨tells.items, tells.handlers, tells.lines, tells.locals, tells.frames, tells.attributes⟩

theorem Tells.keepAnnotation {draft : CodeDraft} {pool : Pool} (tells : draft.Tells parts tables pool)
    (values : Output) : (draft.keepAnnotation values).Tells parts tables pool := by
  unfold CodeDraft.keepAnnotation
  split
  · exact tells
  · exact ⟨tells.items, tells.handlers, tells.lines, tells.locals, tells.frames, tells.attributes⟩

end CodeDraft

namespace MethodDraft

variable {parts after : List Instruction} {tables tablesAfter : BodyTables}

/-- Whether the tables of the body of a method are recorded as they were told. -/
abbrev TellsTables (parts : List Instruction) (tables : BodyTables) (draft : MethodDraft) (pool : Pool) : Prop :=
  draft.code.Tells parts tables pool

theorem runs_inCode_tells {step : Draft CodeDraft Unit}
    (runs : Runs (CodeDraft.Tells parts tables) step fun _ => CodeDraft.Tells after tablesAfter) :
    Runs (TellsTables parts tables) (inCode step) fun _ => TellsTables after tablesAfter :=
  Runs.within runs (fun _ _ => id) fun _ _ _ _ _ => id

theorem runs_item_tells {item : MethodItem} (survives : item.TextsSurvive)
    (counted : ∀ element, item = .instruction element → element.IsCounted) :
    Runs (TellsTables parts tables) (MethodDraft.item item) fun _ =>
      TellsTables (parts ++ (Event.methodItem item).codeParts) (tables ++ (Event.methodItem item).tables) := by
  have bare {step : Draft MethodDraft Unit} {tablesAfter : BodyTables}
      (runs : Runs (TellsTables parts tables) step fun _ => TellsTables parts tablesAfter) :
      Runs (TellsTables parts tables) step fun _ => TellsTables (parts ++ []) tablesAfter := by
    rwa [List.append_nil]
  have same {step : Draft MethodDraft Unit}
      (runs : Runs (TellsTables parts tables) step fun _ => TellsTables parts tables) :
      Runs (TellsTables parts tables) step fun _ => TellsTables (parts ++ []) (tables ++ {}) := by
    rw [BodyTables.append_empty]
    exact bare runs
  cases item with
  | parameter entry =>
      have adds : ∀ name ∈ entry.name?, PoolBuilder.Adds (fun _ => True) (PoolBuilder.text name)
          fun index pool => (Slot.text name).Means pool index := fun name member =>
        PoolBuilder.adds_text (survives name member)
      exact same ((Runs.pooledIfPresent adds).bind fun _ => Runs.change fun _ _ => And.left)
  | annotableParameterCount count visible =>
      exact same (Runs.change fun _ _ tells => by cases visible <;> exact tells)
  | code =>
      exact same (runs_inCode_tells ((Runs.pure ()).weaken (fun _ _ => id) fun _ _ _ => And.right))
  | instruction element =>
      exact runs_inCode_tells (CodeDraft.runs_instruction_tells survives (counted element rfl))
  | tryCatch block => exact bare (runs_inCode_tells (CodeDraft.runs_tryCatch_tells survives))
  | localVariable entry =>
      exact bare (runs_inCode_tells
        (CodeDraft.runs_localVariable_tells survives.1 survives.2.1 survives.2.2))
  | maxs stack locals =>
      exact same (runs_inCode_tells (Runs.change fun _ _ tells =>
        ⟨tells.items, tells.handlers, tells.lines, tells.locals, tells.frames, tells.attributes⟩))

theorem TellsTables.addAttribute {draft : MethodDraft} {pool : Pool} (tells : draft.TellsTables parts tables pool)
    {entry : Attribute} (survives : entry.TextsSurvive) (apart : entry.inCode = true → entry.IsNoTable) :
    (draft.addAttribute entry).TellsTables parts tables pool := by
  unfold MethodDraft.addAttribute
  split
  · rename_i inside
    exact ⟨tells.items, tells.handlers, tells.lines, tells.locals, tells.frames,
      List.forall_mem_cons.mpr ⟨⟨survives, apart inside⟩, tells.attributes⟩⟩
  · exact tells

theorem code_setParameter (position : UInt8) (visible : Bool) (set : AnnotationSet)
    (draft : MethodDraft) : (draft.setParameter position visible set).code = draft.code := by
  cases visible <;> rfl

theorem TellsTables.keep {draft : MethodDraft} {pool : Pool} (tells : draft.TellsTables parts tables pool)
    (place : AnnotationPlace) (values : Output) :
    (draft.keep place values).TellsTables parts tables pool := by
  cases place with
  | plain | ofType | default => exact tells
  | parameter position visible =>
      unfold TellsTables
      rw [MethodDraft.keep, code_setParameter]
      exact tells
  | code => exact CodeDraft.Tells.keepAnnotation tells values

theorem runs_beginCode_tells {use : TypeUse} (survives : use.descriptor.Survives) (anchor : CodeAnchor) :
    Runs (TellsTables parts tables) ( beginCodeAnnotation use anchor) fun _ => TellsTables parts tables := by
  refine (Runs.pooled (PoolBuilder.adds_text survives)).bind fun index => ?_
  have begins : Runs (TellsTables parts tables) (inCode (Draft.change (CodeDraft.beginAnnotation use anchor index)))
      fun _ => TellsTables parts tables :=
    runs_inCode_tells (Runs.change fun _ _ tells => tells.beginAnnotation use anchor index)
  exact (begins.strengthen fun _ _ => And.left).bind fun _ =>
    (Runs.pure _).weaken (fun _ _ => id) fun _ _ _ => And.right

/-- An annotation of a method starts without harm to the tables of its body. -/
theorem runs_beginAnnotation_tells {opening : Opening} (survives : opening.TextsSurvive) :
    Runs (TellsTables parts tables) ( beginAnnotation opening) fun _ => TellsTables parts tables := by
  have done {α β : Type} {step : Draft MethodDraft α} {value : α → β}
      (runs : Runs (TellsTables parts tables) step fun _ => TellsTables parts tables) :
      Runs (TellsTables parts tables) (do return value (← step)) fun _ => TellsTables parts tables :=
    runs.bind fun _ => (Runs.pure _).weaken (fun _ _ => id) fun _ _ _ => And.right
  cases opening with
  | annotate descriptor visible =>
      refine done (Runs.within (AnnotationTables.sound_begin survives visible) (fun _ _ _ => trivial) ?_)
      exact fun _ _ _ _ tells _ => tells
  | annotateType use =>
      refine done (Runs.within (AnnotationTables.sound_beginType survives) (fun _ _ _ => trivial) ?_)
      exact fun _ _ _ _ tells _ => tells
  | annotationDefault => exact done (Runs.change fun _ _ => id)
  | annotateParameter position descriptor visible =>
      refine done (Runs.within (AnnotationSet.sound_begin survives) (fun _ _ _ => trivial) ?_)
      intro draft pool _ set tells _
      unfold TellsTables
      rwa [code_setParameter]
  | annotateInstruction use =>
      refine (Runs.look _).bind fun position => ?_
      exact (done (runs_beginCode_tells survives _)).strengthen fun _ _ => And.right
  | annotateTryCatch use | annotateLocal use ranges => exact done (runs_beginCode_tells survives _)
  | _ => exact (Runs.pure _).weaken (fun _ _ => id) fun _ _ _ => And.right

end MethodDraft

/-! ### Events -/

namespace Draft

variable {σ α : Type} {Before : σ → Pool → Prop} {After : α → σ → Pool → Prop} {before after : σ → Prop}
  {step : Draft σ α}

/-- What a step does to a part, if it is done, holds beside what it adds to the pool. -/
theorem Runs.leads (runs : Runs Before step After) (fits : ∀ part pool, Before part pool → before part)
    (leads : ∀ state value next, before state.1 → step.on state = (.ok value, next) → after next.1) :
    Runs Before step fun value part pool => after part ∧ After value part pool := by
  intro part builder content holds known value next last ran
  rcases holds.exists_pool with ⟨pool, same⟩
  have led := leads (part, builder) value _ (fits part pool (known pool same.has)) ran
  rcases runs _ _ _ holds known _ _ _ ran with ⟨later, added, meant⟩
  exact ⟨later, added, fun pool has => ⟨led, meant pool has⟩⟩

end Draft

namespace ClassDraft

variable {parts : List Instruction} {tables : BodyTables} {depth next : Nat} {event : Event}

/-- Whether a method is open whose body was told the tables. -/
def HasBody (parts : List Instruction) (tables : BodyTables) (draft : ClassDraft) (pool : Pool) : Prop :=
  ∃ method, draft.member = .method method ∧ method.TellsTables parts tables pool

/-- Whether a method is open whose body was told the tables, and inside it as many annotations, one inside
the other, as `depth` says. -/
def InBody (parts : List Instruction) (tables : BodyTables) (depth : Nat) (draft : ClassDraft) (pool : Pool) :
    Prop :=
  draft.depth = depth ∧ draft.HasBody parts tables pool

theorem InBody.isMethod {draft : ClassDraft} {pool : Pool} (inBody : draft.InBody parts tables depth pool) :
    draft.depth = depth ∧ draft.shape.head?.map MemberHead.kind = some .method := by
  rcases inBody with ⟨same, method, isMethod, -⟩
  refine ⟨same, ?_⟩
  rw [shape, isMethod]
  rfl

theorem depth_of_maintains {step : Draft ClassDraft Unit} {state last : ClassDraft × PoolBuilder}
    (maintains : ∀ form, Maintains (HasShape form) step) (ran : step.on state = (.ok (), last)) :
    last.1.depth = state.1.depth := by
  have kept : HasShape state.1.shape (step.on state).2.1 := maintains state.1.shape state rfl
  rw [ran] at kept
  exact congrArg DraftShape.depth kept

/-- Inside a method, an event opens and closes as many annotations as it says. -/
theorem depth_of_record (belongs : event.depthBehind depth = some next)
    {state last : ClassDraft × PoolBuilder}
    (isMethod : state.1.depth = depth ∧ state.1.shape.head?.map MemberHead.kind = some .method)
    (ran : (record event).on state = (.ok (), last)) : last.1.depth = next := by
  rcases isMethod with ⟨rfl, isMethod⟩
  have same {step : Draft ClassDraft Unit} (maintains : ∀ form, Maintains (HasShape form) step)
      (ran : step.on state = (.ok (), last)) (stays : state.1.depth = next) : last.1.depth = next :=
    (depth_of_maintains maintains ran).trans stays
  have closes (finished : Bool) (ran : on (exit finished) state = (.ok (), last))
      (opened : (if state.1.depth = 0 then none else some (state.1.depth - 1)) = some next) :
      last.1.depth = next := by
    split at opened
    · cases opened
    · rename_i inside
      cases opened
      rcases Nat.exists_eq_succ_of_ne_zero inside with ⟨around, isOpen⟩
      rcases on_exit_annotation isOpen finished with ⟨after, ranToo, shape⟩
      cases ran.symm.trans ranToo
      rw [isOpen]
      exact congrArg DraftShape.depth shape
  unfold Event.depthBehind at belongs
  cases event with
  | classItem | moduleItem => split at belongs <;> simp [Event.places] at belongs
  | methodItem item =>
      exact same (fun _ => maintains_inMethod fun _ => MethodDraft.maintains_item item) ran (by simp_all)
  | element item =>
      exact same (fun _ => maintains_inAnnotation fun _ => AnnotationDraft.maintains_element item) ran
        (by simp_all)
  | «attribute» entry =>
      exact same (fun _ => maintains_update (shape_addAttribute entry)) ran (by simp_all)
  | finish => exact closes true ran belongs
  | leave => exact closes false ran belongs
  | enter opening =>
      rcases Option.ite_none_right_eq_some.mp belongs with ⟨inside, ⟨⟩⟩
      have noMember : opening.isMember = false := by
        refine Bool.eq_false_iff.mpr fun isMember => ?_
        have outside := Opening.eq_ofClass_of_isMember isMember inside
        split at outside <;> cases outside
      have sort : annotationSort state.1.shape = .ofMethod := if_pos isMethod
      have turned := @turns_enter state.1.shape opening noMember (by rwa [sort]) state rfl
      rw [show (enter opening).on state = (.ok (), last) from ran] at turned
      exact congrArg DraftShape.depth turned

/-- What is told in an annotation that is open changes nothing else. -/
theorem runs_inAnnotation_body {step : Draft AnnotationDraft Unit} (sound : Sound step) :
    Runs (HasBody parts tables) ( inAnnotation step) fun _ => HasBody parts tables := by
  unfold inAnnotation
  refine (Runs.look _).bind fun found => ?_
  match found with
  | none => exact (Runs.pure ()).weaken (fun _ _ => id) fun _ _ _ known => known.2.2
  | some (place, annotation) =>
      exact Runs.within sound (fun _ _ _ => trivial) fun _ _ _ _ known _ => known.2

theorem runs_beginAnnotation_body {opening : Opening} (survives : opening.TextsSurvive) :
    Runs (HasBody parts tables) ( beginAnnotation opening) fun _ => HasBody parts tables := by
  unfold beginAnnotation
  refine (Runs.look _).bind fun found => ?_
  match found with
  | .none | .moduleScope | .component _ | .field _ =>
      apply Runs.absurd
      rintro draft pool ⟨same, method, isMethod, -⟩
      rw [isMethod] at same
      cases same
  | .method method =>
      have within : Runs (fun draft pool => MemberDraft.method method = draft.member ∧
          HasBody parts tables draft pool)
          (Draft.within (fun _ => method) (fun part draft => { draft with member := .method part })
            (MethodDraft.beginAnnotation opening))
          fun _ => HasBody parts tables := by
        refine Runs.within (@MethodDraft.runs_beginAnnotation_tells parts tables opening survives) ?_ ?_
        · rintro draft pool ⟨same, part, isMethod, tells⟩
          rw [isMethod] at same
          cases same
          exact tells
        · exact fun _ _ _ part _ tells => ⟨part, rfl, tells⟩
      refine within.bind fun begun? => ?_
      match begun? with
      | none => exact (Runs.pure ()).weaken (fun _ _ => id) fun _ _ _ => And.right
      | some (place, list) => exact Runs.change fun _ _ => id

theorem HasBody.keep {draft : ClassDraft} {pool : Pool} (hasBody : draft.HasBody parts tables pool)
    (place : AnnotationPlace) (values : Output) : (draft.keep place values).HasBody parts tables pool := by
  rcases hasBody with ⟨method, isMethod, tells⟩
  rw [ClassDraft.keep, isMethod]
  exact ⟨_, rfl, tells.keep place values⟩

theorem runs_exit_body (finished : Bool) (inside : depth ≠ 0) :
    Runs (InBody parts tables depth) (exit finished) fun _ => HasBody parts tables := by
  unfold exit
  refine (Runs.look _).bind fun found => ?_
  match found with
  | none =>
      apply Runs.absurd
      rintro draft pool ⟨none, same, -⟩
      rw [ClassDraft.depth, ← none] at same
      exact inside same.symm
  | some (place, annotation) =>
      dsimp only
      split
      · exact Runs.change fun _ _ known => known.2.2
      · exact Runs.change fun _ _ known => known.2.2.keep place _

/-- An event inside a method changes the parts and the tables of the body as it says. -/
theorem runs_record_body (belongs : event.depthBehind depth = some next) (survives : event.TextsSurvive)
    (counted : ∀ element, event = .methodItem (.instruction element) → element.IsCounted)
    (apart : ∀ entry, event = .attribute entry → entry.inCode = true → entry.IsNoTable) :
    Runs (InBody parts tables depth) (record event)
      fun _ => InBody (parts ++ event.codeParts) (tables ++ event.tables) next := by
  suffices runs : Runs (InBody parts tables depth) (record event)
      fun _ => HasBody (parts ++ event.codeParts) (tables ++ event.tables) by
    exact runs.leads (fun _ _ => InBody.isMethod) fun _ _ _ isMethod ran =>
      depth_of_record belongs isMethod ran
  have same {step : Draft ClassDraft Unit}
      (runs : Runs (InBody parts tables depth) step fun _ => HasBody parts tables) :
      Runs (InBody parts tables depth) step fun _ => HasBody (parts ++ []) (tables ++ {}) := by
    rwa [List.append_nil, BodyTables.append_empty]
  have kept {step : Draft ClassDraft Unit}
      (runs : Runs (HasBody parts tables) step fun _ => HasBody parts tables) :
      Runs (InBody parts tables depth) step fun _ => HasBody (parts ++ []) (tables ++ {}) :=
    same (runs.strengthen fun _ _ => And.right)
  cases event with
  | classItem | moduleItem =>
      unfold Event.depthBehind at belongs
      split at belongs <;> simp [Event.places] at belongs
  | methodItem item =>
      have runs : Runs (ClassDraft.InMethod (MethodDraft.TellsTables parts tables) fun _ _ => True)
          (inMethod (MethodDraft.item item)) _ :=
        runs_inMethod (MethodDraft.runs_item_tells survives fun element same => counted element (same ▸ rfl))
      refine runs.weaken ?_ ?_
      · rintro draft pool ⟨-, method, isMethod, tells⟩
        exact ⟨method, isMethod, tells, trivial⟩
      · rintro - draft pool ⟨method, isMethod, tells, -⟩
        exact ⟨method, isMethod, tells⟩
  | element item => exact kept (runs_inAnnotation_body (AnnotationDraft.sound_element survives))
  | «attribute» entry =>
      refine kept (Runs.change ?_)
      rintro draft pool ⟨method, isMethod, tells⟩
      rw [ClassDraft.addAttribute, isMethod]
      exact ⟨_, rfl, tells.addAttribute survives (apart entry rfl)⟩
  | finish => exact same (runs_exit_body true (Option.ite_none_left_eq_some.mp belongs).1)
  | leave => exact same (runs_exit_body false (Option.ite_none_left_eq_some.mp belongs).1)
  | enter opening =>
      have inside := (Option.ite_none_right_eq_some.mp belongs).1
      cases opening with
      | moduleScope | component | field | method => split at inside <;> simp [Opening.places] at inside
      | nested name? descriptor =>
          exact kept (runs_inAnnotation_body (AnnotationDraft.sound_openNested survives.1 survives.2))
      | array name? => exact kept (runs_inAnnotation_body (AnnotationDraft.sound_openArray survives))
      | _ => exact kept (runs_beginAnnotation_body survives)

theorem runs_recordAll {events : List Event} (belongs : Event.depthBehindAll depth events = some next)
    (survive : ∀ event ∈ events, event.TextsSurvive)
    (counted : ∀ element, .methodItem (.instruction element) ∈ events → element.IsCounted)
    (apart : ∀ entry, .attribute entry ∈ events → entry.inCode = true → entry.IsNoTable) :
    Runs (InBody parts tables depth) (events.forM record)
      fun _ => InBody (parts ++ events.flatMap Event.codeParts) (tables ++ .ofEvents events) next := by
  induction events generalizing parts tables depth with
  | nil =>
      cases belongs
      refine (Runs.pure ()).weaken (fun _ _ => id) fun _ draft pool known => ?_
      rw [List.flatMap_nil, List.append_nil]
      exact (BodyTables.append_empty tables).symm ▸ known.2
  | cons event events ih =>
      rw [Event.depthBehindAll, List.foldlM_cons, Option.bind_eq_bind, Option.bind_eq_some_iff] at belongs
      rcases belongs with ⟨between, here, behind⟩
      rw [List.forall_mem_cons] at survive
      rw [List.flatMap_cons, ← List.append_assoc, BodyTables.ofEvents_cons, ← BodyTables.append_assoc]
      show Runs _ (record event >>= fun _ => events.forM record) _
      refine (runs_record_body here survive.1 (fun element same => ?_) fun entry same => ?_).bind fun _ => ?_
      · exact counted element (same ▸ List.mem_cons_self)
      · exact apart entry (same ▸ List.mem_cons_self)
      · exact ih behind survive.2 (fun element member => counted element (List.mem_cons_of_mem _ member))
          fun entry member => apart entry (List.mem_cons_of_mem _ member)

end ClassDraft

end ClassFile
