import ClassFile.Proofs.Draft.Attributes
import ClassFile.Proofs.Draft.Instructions

/-!
# Writing methods

A method whose body is told as instructions and labels is written with its code attribute first, and
the code attribute holds the laid out body and nothing else (`MethodDraft.runs_write`).
-/

namespace ClassFile

namespace CodeDraft

open Draft

variable {σ : Type} {pool : Pool} {api : Api} {events : List Instruction} {draft : CodeDraft}

/-- The contents of the code attribute of a draft whose body is laid out. -/
def plainOutput (draft : CodeDraft) (layout : CodeLayout) : Output :=
  (Table.empty.write (Table.empty.write
    ((((Output.empty.u16 draft.maxStack).u16 draft.maxLocals).u32
      layout.code.size.toUInt32).append layout.code)))

theorem toList_plainOutput (draft : CodeDraft) (layout : CodeLayout) :
    (draft.plainOutput layout).toList =
      ClassImage.plainBody draft.maxStack draft.maxLocals layout.code.toList := by
  simp [plainOutput, Table.write, Table.empty, Pieces.write, ClassImage.plainBody,
    Output.size_eq_length]

/-- A draft of instructions and labels writes nothing but the laid out body. -/
theorem on_write (plain : draft.IsPlain) (method : Text) (state : σ × PoolBuilder) :
    on (draft.write method) state =
      match CodeLayout.ofItems method draft.items.reverse with
      | .ok layout => (.ok (draft.plainOutput layout), state)
      | .error cause => (.error (.error cause), state) := by
  rcases draft with ⟨items, count, last, frames, lines, localVariables, handlers, annotations,
    attributes, stack, locals⟩
  rcases plain with ⟨frames, lines, localVariables, handlers, annotations, attributes⟩
  dsimp only at frames lines localVariables handlers annotations attributes
  subst frames lines localVariables handlers annotations attributes
  unfold write
  rw [on_bind]
  cases CodeLayout.ofItems method items.reverse with
  | ok layout => rfl
  | error cause => rfl

theorem runs_write {Before : σ → Pool → Prop} (plain : draft.IsPlain) (method : Text) :
    Runs Before (draft.write method) fun output part pool =>
      Before part pool ∧ ∃ layout, CodeLayout.ofItems method draft.items.reverse = .ok layout ∧
        output = draft.plainOutput layout := by
  intro part builder content holds before output next last ran
  rw [on_write plain] at ran
  cases laidOut : CodeLayout.ofItems method draft.items.reverse with
  | ok layout =>
      rw [laidOut] at ran
      cases ran
      exact ⟨content, .refl holds, fun pool has => ⟨before pool has, layout, rfl, rfl⟩⟩
  | error cause =>
      rw [laidOut] at ran
      cases ran

theorem runs_written {τ : Type} {Before : σ → Pool → Prop} {empty : τ} {write : Draft τ Unit}
    {After : τ → Pool → Prop} (runs : Runs (fun part _ => part = empty) write fun _ => After) :
    Runs Before (written empty write) fun part whole pool =>
      Before whole pool ∧ After part pool :=
  Runs.within (runs.bind fun _ => Runs.look id) (fun _ _ _ => rfl)
    fun _ _ _ _ before written => ⟨before, written.1 ▸ written.2⟩

end CodeDraft

namespace MethodDraft

open Draft AttributeTable

variable {pool : Pool} {api : Api} {draft : MethodDraft}

/-- Whether the elements that were recorded are all that the body of a method has. -/
structure Records (pool : Pool) (api : Api) (events : List Instruction) (draft : MethodDraft) :
    Prop where
  code : draft.code.Records pool api events
  started : events ≠ [] → draft.code?.isSome = true
  custom : draft.annotations.attributes = []

/-- Whether an event can stand between the start and the end of a body of instructions. -/
def IsOfBody : MethodItem → Prop
  | .code | .instruction _ | .maxs .. => True
  | _ => False

/-- The instructions and labels that events tell. -/
def elementsOf (items : List MethodItem) : List Instruction :=
  items.filterMap fun
    | .instruction element => some element
    | _ => none

theorem runs_inCode {events more : List Instruction} {step : Draft CodeDraft Unit}
    (runs : Runs (fun code pool => code.Records pool api events) step
      fun _ code pool => code.Records pool api more) :
    Runs (fun draft pool => Records pool api events draft) (inCode step)
      fun _ draft pool => Records pool api more draft :=
  Runs.within runs (fun _ _ records => records.code)
    fun _ _ _ _ records code => ⟨code, fun _ => rfl, records.custom⟩

/-- Events of a body are recorded in order. -/
theorem runs_items {items : List MethodItem} (ofBody : ∀ item ∈ items, IsOfBody item)
    (storable : ∀ element ∈ elementsOf items, element.Storable)
    (understands : ∀ element ∈ elementsOf items, Instruction.Understands api element)
    (events : List Instruction) :
    Runs (fun draft pool => Records pool api events draft) (items.forM item)
      fun _ draft pool => Records pool api (events ++ elementsOf items) draft := by
  induction items generalizing events with
  | nil =>
      rw [elementsOf, List.filterMap_nil, List.append_nil]
      exact (Runs.pure _).weaken (fun _ _ => id) fun _ _ _ before => before.2
  | cons first rest ih =>
      rw [List.forall_mem_cons] at ofBody
      cases first with
      | code =>
          have starts : Runs (fun draft pool => Records pool api events draft) (item .code)
              fun _ draft pool => Records pool api events draft :=
            runs_inCode ((Runs.pure ()).weaken (fun _ _ => id) fun _ _ _ before => before.2)
          exact starts.bind fun _ => ih ofBody.2 storable understands events
      | maxs stack locals =>
          have sets : Runs (fun draft pool => Records pool api events draft)
              (item (.maxs stack locals)) fun _ draft pool => Records pool api events draft :=
            runs_inCode <| Runs.change fun _ _ records =>
              ⟨records.items, { records.plain with }⟩
          exact sets.bind fun _ => ih ofBody.2 storable understands events
      | instruction element =>
          change ∀ other ∈ element :: elementsOf rest, _ at storable
          change ∀ other ∈ element :: elementsOf rest, _ at understands
          rw [List.forall_mem_cons] at storable understands
          have records : Runs (fun draft pool => Records pool api events draft)
              (item (.instruction element))
              fun _ draft pool => Records pool api (events ++ [element]) draft :=
            runs_inCode (CodeDraft.runs_instruction storable.1 understands.1)
          refine records.bind fun _ => ?_
          have others := ih ofBody.2 storable.2 understands.2 (events ++ [element])
          rwa [List.append_assoc] at others
      | _ => cases ofBody.1

/-! ### The attributes of a method -/

theorem runs_writeExceptions {Before : Table → Pool → Prop} (indices : List UInt16) :
    Runs Before (writeExceptions indices) fun _ _ _ => True := by
  induction indices generalizing Before with
  | nil => exact (Runs.pure ()).weaken (fun _ _ => id) fun _ _ _ _ => trivial
  | cons index rest ih => exact (Runs.tryChange fun _ _ _ _ _ => trivial).bind fun _ => ih

theorem keeps_parameterTable (parameters : List (UInt16 × UInt16)) :
    Keeps (parameterTable parameters) := by
  unfold parameterTable
  dsimp only
  split
  · exact fun _ => Runs.throw _
  · exact keeps_pure _

theorem keeps_writeParameterAnnotations (kind : AttributeKind) (annotations : ParameterAnnotations) :
    Keeps (writeParameterAnnotations kind annotations) := by
  unfold writeParameterAnnotations
  split
  · exact keeps_add kind annotations.toOutput
  · exact keeps_pure ()

theorem keeps_writePlain (tables : AnnotationTables) : Keeps tables.writePlain :=
  (keeps_addTable _ _).bind fun _ => keeps_addTable _ _

theorem keeps_writeTypes (tables : AnnotationTables) : Keeps tables.writeTypes :=
  (keeps_addTable _ _).bind fun _ => keeps_addTable _ _

theorem keeps_exceptions (draft : MethodDraft) :
    Keeps (CodeDraft.written {} (writeExceptions draft.exceptions)) :=
  fun _ => (CodeDraft.runs_written (runs_writeExceptions draft.exceptions)).weaken
    (fun _ _ => id) fun _ _ _ after => after.1

/-- Whether the bytes of an attribute are those of the code attribute with a body. -/
def IsCode (method : Text) (code : CodeDraft) (entry : Output) (pool : Pool) : Prop :=
  ∃ (layout : CodeLayout) (name : UInt16),
    CodeLayout.ofItems method code.items.reverse = .ok layout ∧
      pool.text name = .ok AttributeKind.code.text ∧
      (code.plainOutput layout).size < 4294967296 ∧ entry = entryBytes name (code.plainOutput layout)

/-- The code attribute of a method is its first. -/
theorem runs_writeAttributes {code : CodeDraft} (hasCode : draft.code? = some code)
    (plain : code.IsPlain) (noCustom : draft.annotations.attributes = []) (major : UInt16) :
    Runs (fun attributes _ => attributes.table.entries = []) (writeAttributes draft major)
      fun _ attributes pool => attributes.StartsWith (IsCode draft.name code) pool := by
  unfold writeAttributes
  rw [hasCode]
  refine (CodeDraft.runs_write plain draft.name).bind fun output => ?_
  refine (runs_add .code output).bind fun _ => ?_
  have custom : Keeps draft.annotations.writeCustom := by
    rw [AnnotationTables.writeCustom, noCustom]
    exact keeps_pure ()
  have parameters : Keeps (do
      if ! draft.parameters.isEmpty then
        add .methodParameters (← parameterTable draft.parameters.reverse)
      draft.annotations.writeCustom) := by
    dsimp only
    split
    · refine (keeps_parameterTable _).bind fun table => ?_
      exact (keeps_add .methodParameters table).bind fun _ => custom
    · exact custom
  refine Runs.weaken (?_ : Runs (fun attributes pool =>
    attributes.StartsWith (IsCode draft.name code) pool) _ _) ?_ fun _ _ _ => id
  · refine (keeps_exceptions draft _).bind fun table => ?_
    refine (keeps_addTable .exceptions table _).bind fun _ => ?_
    refine (keeps_addCommon draft.access major draft.signature? _).bind fun _ => ?_
    refine (keeps_writePlain draft.annotations _).bind fun _ => ?_
    refine (keeps_writeParameterAnnotations _ draft.visibleParameters _).bind fun _ => ?_
    refine (keeps_writeParameterAnnotations _ draft.invisibleParameters _).bind fun _ => ?_
    refine (keeps_writeTypes draft.annotations _).bind fun _ => ?_
    cases draft.default? with
    | none => exact parameters _
    | some values =>
        exact (keeps_add .annotationDefault (values.write .empty) _).bind fun _ => parameters _
  · rintro attributes pool ⟨small, name, earlier, named, ⟨none, layout, laidOut, rfl⟩, entries⟩
    rw [none] at entries
    exact ⟨_, ⟨layout, name, laidOut, named, small, rfl⟩, entries ▸ List.suffix_rfl⟩

/-- The bytes of a method whose first attribute is known. -/
theorem toList_write {attributes : AttributeTable} {entry : Output}
    (first : [entry] <:+ attributes.table.entries) (head : Output) :
    ∃ rest, (attributes.table.write head).toList =
      head.toList ++ bigEndian16 attributes.table.count ++ entry.toList ++ rest := by
  rcases first with ⟨others, entries⟩
  have write (pieces : Pieces) (output : Output) :
      (pieces.foldl Output.append output).toList = output.toList ++ pieces.flatMap Output.toList := by
    induction pieces generalizing output with
    | nil => simp
    | cons piece pieces ih => simp [ih]
  refine ⟨others.reverse.flatMap Output.toList, ?_⟩
  rw [Table.write, Pieces.write, ← entries, write]
  simp

/-- The bytes of a method with a body. -/
theorem runs_write {σ : Type} {code : CodeDraft} (hasCode : draft.code? = some code)
    (plain : code.IsPlain) (noCustom : draft.annotations.attributes = []) (major : UInt16) :
    Runs (fun (_ : σ) _ => True) (draft.write major) fun output _ pool =>
      ∃ (entry : Output) (front rest : List UInt8), IsCode draft.name code entry pool ∧
        front.length = 8 ∧ output.toList = front ++ entry.toList ++ rest := by
  have attributes := runs_writeAttributes hasCode plain noCustom major
  refine (CodeDraft.runs_written (attributes.weaken ?_ fun _ _ _ => id)).bind fun attributes => ?_
  · rintro part pool rfl
    rfl
  · refine (Runs.pure _).weaken (fun _ _ => id) ?_
    rintro output part pool ⟨rfl, -, entry, isCode, first⟩
    rcases toList_write first (.ofU16s [Access.stored draft.access major, draft.nameIndex,
      draft.descriptor]) with ⟨rest, bytes⟩
    exact ⟨entry, _, rest, isCode, rfl, bytes⟩

end MethodDraft

end ClassFile
