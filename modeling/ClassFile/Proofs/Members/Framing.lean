import ClassFile.Proofs.Gating.Logs
import ClassFile.Proofs.Members.Callers

/-!
# Whole structures

Whatever is added to a table of attributes, and wherever that fails, the table holds whole attributes and
counts them.  So what is written of a finished member is a whole structure that starts with the numbers
of the member.
-/

namespace ClassFile

namespace Draft

variable {σ τ α β : Type} {holds : σ → Prop} {good : β → Prop}

/-- Whether what holds of a part holds behind a step too, done or failed. -/
def Maintains (holds : σ → Prop) (step : Draft σ α) : Prop :=
  Step.Keeps (fun state => holds state.1) step

@[grind ←]
theorem maintains_pure (value : α) : Maintains holds (pure value) :=
  Step.keeps_pure value

@[grind ←]
theorem maintains_failure (cause : ClassError) : Maintains holds (failure cause : Draft σ α) :=
  Step.keeps_failure cause

@[grind ←]
theorem maintains_look (view : σ → α) : Maintains holds (look view) :=
  fun _ => id

@[grind ←]
theorem maintains_pooled (adding : Pooling α) : Maintains holds (pooled adding : Draft σ α) := by
  rintro ⟨part, pool⟩ before
  change holds (on (pooled adding) (part, pool)).2.1
  rw [on_pooled]
  rcases adding.on pool with ⟨_ | value, next⟩ <;> exact before

@[grind ←]
theorem maintains_pooledIfPresent (add : α → Pooling UInt16) (value? : Option α) :
    Maintains holds (pooledIfPresent add value? : Draft σ UInt16) :=
  maintains_pooled _

theorem maintains_change {update : σ → σ} (keeps : ∀ part, holds part → holds (update part)) :
    Maintains holds (change update) :=
  fun state => keeps state.1

theorem maintains_tryChange {update : σ → Except ClassError σ}
    (keeps : ∀ part next, holds part → update part = .ok next → holds next) :
    Maintains holds (tryChange update) := by
  rintro ⟨part, pool⟩ before
  change holds (on (tryChange update) (part, pool)).2.1
  rw [on_tryChange]
  cases updated : update part with
  | ok next => exact keeps part next before updated
  | error cause => exact before

@[grind ←]
theorem Maintains.bind {first : Draft σ α} {second : α → Draft σ β}
    (maintains : Maintains holds first) (next : ∀ value, Maintains holds (second value)) :
    Maintains holds (first >>= second) :=
  Step.Keeps.bind maintains next

theorem maintains_within {get : σ → τ} {put : τ → σ → σ} {write : Draft τ α}
    (keeps : ∀ whole part, holds whole → holds (put part whole)) :
    Maintains holds (within get put write) :=
  fun state => keeps state.1 _

@[grind ←]
theorem maintains_forM {step : β → Draft σ Unit} (maintains : ∀ value, Maintains holds (step value))
    (values : List β) : Maintains holds (values.forM step) := by
  induction values with
  | nil => exact maintains_pure ()
  | cons value rest ih => exact (maintains value).bind fun _ => ih

/-- Whether what a step gives is good, if it is done. -/
def Returns (good : α → Prop) (step : Draft σ α) : Prop :=
  ∀ state value next, step.on state = (.ok value, next) → good value

theorem Returns.bind {first : Draft σ α} {second : α → Draft σ β} {fair : α → Prop}
    (returns : Returns fair first) (next : ∀ value, fair value → Returns good (second value)) :
    Returns good (first >>= second) := by
  intro state value last ran
  rw [on_bind] at ran
  rcases ranFirst : first.on state with ⟨_ | found, middle⟩ <;> rw [ranFirst] at ran
  · cases ran
  · exact next found (returns state found middle ranFirst) middle value last ran

theorem returns_any (step : Draft σ α) : Returns (fun _ => True) step :=
  fun _ _ _ _ => trivial

theorem returns_pure {value : β} (isGood : good value) : Returns good (pure value : Draft σ β) := by
  intro state result next ran
  cases ran
  exact isGood

end Draft

open Draft

/-- Tables that are written from nothing do not matter to the part beside them. -/
@[grind ←]
theorem CodeDraft.maintains_written {σ τ : Type} {holds : σ → Prop} (empty : τ) (write : Draft τ Unit) :
    Maintains holds (written empty write : Draft σ τ) :=
  maintains_within fun _ _ => id

theorem CodeDraft.returns_written {σ τ : Type} {holds : τ → Prop} {empty : τ} {write : Draft τ Unit}
    (start : holds empty) (maintains : Maintains holds write) :
    Returns holds (written empty write : Draft σ τ) := by
  rintro ⟨whole, pool⟩ value next ran
  have before := maintains (empty, pool) start
  unfold written at ran
  rw [on_within, on_bind] at ran
  change holds (on write (empty, pool)).2.1 at before
  rcases written : on write (empty, pool) with ⟨_ | found, part, last⟩ <;> rw [written] at ran before
  · cases ran
  · cases ran
    exact before

/-! ### Tables of attributes -/

namespace AttributeTable

/-- Whether a table holds whole attributes and counts them. -/
def IsFramed (attributes : AttributeTable) : Prop :=
  ∃ written, attributes.table.Spells IsAttribute written

theorem isFramed_empty : IsFramed {} :=
  ⟨[], Table.spells_empty⟩

@[grind ←]
theorem maintains_addNamed (name : UInt16) (body : Output) : Maintains IsFramed (addNamed name body) := by
  unfold addNamed
  split
  · exact maintains_failure _
  · rename_i small
    refine maintains_tryChange ?_
    rintro attributes next ⟨written, spells⟩ added
    simp only [bind_eq_ok, pure_eq_ok] at added
    rcases added with ⟨table, added, rfl⟩
    refine ⟨written ++ [(name, body)], spells.add added ⟨Nat.lt_of_not_le small, ?_⟩⟩
    simp [Output.ofU16]

@[grind ←]
theorem maintains_add (kind : AttributeKind) (body : Output) : Maintains IsFramed (add kind body) := by
  unfold add
  grind

@[grind ←]
theorem maintains_addIndex (kind : AttributeKind) (index? : Option UInt16) :
    Maintains IsFramed (addIndex kind index?) := by
  cases index? <;> unfold addIndex <;> grind

@[grind ←]
theorem maintains_addTable (kind : AttributeKind) (table : Table) :
    Maintains IsFramed (addTable kind table) := by
  unfold addTable
  split <;> grind

@[grind ←]
theorem maintains_addCustom (entry : Attribute) : Maintains IsFramed (addCustom entry) := by
  unfold addCustom
  grind

@[grind ←]
theorem maintains_addCommon (access : UInt32) (major : UInt16) (signature? : Option UInt16) :
    Maintains IsFramed (addCommon access major signature?) := by
  unfold addCommon
  dsimp only
  split <;> split <;> grind

/-- A table of whole attributes makes the numbers in front of it a whole structure. -/
theorem IsFramed.isStructure {attributes : AttributeTable} (framed : attributes.IsFramed)
    (numbers : List UInt16) : IsStructure numbers (attributes.table.write (.ofU16s numbers)).toList := by
  rcases framed with ⟨written, spells⟩
  refine ⟨written, attributes.table, spells, ?_⟩
  simp [Table.toOutput]

end AttributeTable

namespace AnnotationTables

@[grind ←]
theorem maintains_writePlain (tables : AnnotationTables) :
    Maintains AttributeTable.IsFramed tables.writePlain := by
  unfold writePlain
  grind

@[grind ←]
theorem maintains_writeTypes (tables : AnnotationTables) :
    Maintains AttributeTable.IsFramed tables.writeTypes := by
  unfold writeTypes
  grind

@[grind ←]
theorem maintains_writeCustom (tables : AnnotationTables) :
    Maintains AttributeTable.IsFramed tables.writeCustom :=
  maintains_forM AttributeTable.maintains_addCustom _

end AnnotationTables

/-! ### Members -/

/-- What is written of a finished field is a whole structure. -/
theorem FieldDraft.returns_write {σ : Type} (draft : FieldDraft) (major : UInt16) :
    Returns
      (fun bytes => IsStructure [Access.stored draft.access major, draft.name, draft.descriptor]
        bytes.toList)
      (draft.write major : Draft σ Output) := by
  refine (CodeDraft.returns_written AttributeTable.isFramed_empty ?_).bind fun attributes framed =>
    returns_pure (framed.isStructure _)
  grind

/-- What is written of a finished record component is a whole structure. -/
theorem ComponentDraft.returns_write {σ : Type} (draft : ComponentDraft) :
    Returns (fun bytes => IsStructure [draft.name, draft.descriptor] bytes.toList)
      (draft.write : Draft σ Output) := by
  refine (CodeDraft.returns_written AttributeTable.isFramed_empty ?_).bind fun attributes framed =>
    returns_pure (framed.isStructure _)
  grind

/-- The body of a method is written beside the attributes. -/
@[grind ←]
theorem CodeDraft.maintains_write {σ : Type} {holds : σ → Prop} (draft : CodeDraft) (method : Text) :
    Maintains holds (draft.write method : Draft σ Output) := by
  refine Maintains.bind ?_ fun layout => by grind
  exact fun _ => id

namespace MethodDraft

@[grind ←]
theorem maintains_parameterTable {σ : Type} {holds : σ → Prop} (parameters : List (UInt16 × UInt16)) :
    Maintains holds (parameterTable parameters : Draft σ Output) := by
  unfold parameterTable
  dsimp only
  split <;> grind

@[grind ←]
theorem maintains_writeParameterAnnotations (kind : AttributeKind) (annotations : ParameterAnnotations) :
    Maintains AttributeTable.IsFramed (writeParameterAnnotations kind annotations) := by
  unfold writeParameterAnnotations
  split <;> grind

theorem maintains_writeAttributes (draft : MethodDraft) (major : UInt16) :
    Maintains AttributeTable.IsFramed (writeAttributes draft major) := by
  unfold writeAttributes
  cases draft.code?
  case' some code =>
    refine (CodeDraft.maintains_write code draft.name).bind fun body => ?_
    refine (AttributeTable.maintains_add .code body).bind fun _ => ?_
  all_goals
    refine (CodeDraft.maintains_written _ _).bind fun exceptions => ?_
    refine (AttributeTable.maintains_addTable .exceptions exceptions).bind fun _ => ?_
    refine (AttributeTable.maintains_addCommon draft.access major draft.signature?).bind fun _ => ?_
    refine (AnnotationTables.maintains_writePlain _).bind fun _ => ?_
    refine (maintains_writeParameterAnnotations _ _).bind fun _ => ?_
    refine (maintains_writeParameterAnnotations _ _).bind fun _ => ?_
    refine (AnnotationTables.maintains_writeTypes _).bind fun _ => ?_
    cases draft.default? <;> cases draft.parameters.isEmpty <;> grind

/-- What is written of a finished method is a whole structure. -/
theorem returns_write {σ : Type} (draft : MethodDraft) (major : UInt16) :
    Returns
      (fun bytes =>
        IsStructure [Access.stored draft.access major, draft.nameIndex, draft.descriptor] bytes.toList)
      (draft.write major : Draft σ Output) :=
  (CodeDraft.returns_written AttributeTable.isFramed_empty
    (draft.maintains_writeAttributes major)).bind fun _ framed => returns_pure (framed.isStructure _)

end MethodDraft

end ClassFile
