import ClassFile.Proofs.Frames.RoundTrip
import ClassFile.Proofs.Tables.Recording

/-!
# Writing the tables of a body

Each entry of a table of exception handlers, of line numbers or of local variables is a row of slots.  What
is written of a body has the rows of what was told, with the places of the labels instead of the labels
(`CodeDraft.runs_write_rows`).  A local variable that has a generic signature has a row in two tables.
-/

namespace ClassFile

open Draft

/-! ### Rows -/

namespace TryCatch

/-- An exception handler under other labels. -/
def relabel (rename : Label → Label) (block : TryCatch) : TryCatch :=
  { block with start := rename block.start, stop := rename block.stop, handler := rename block.handler }

/-- An exception handler as it stands in a table. -/
def row (block : TryCatch) : List Slot :=
  [.number block.start.toUInt16, .number block.stop.toUInt16, .number block.handler.toUInt16,
    .ofOption .classRef block.type?]

end TryCatch

/-- A line number as it stands in a table, behind the place that it starts at. -/
def lineRow (line : Label × UInt16) : List Slot :=
  [.number line.1.toUInt16, .number line.2]

namespace LocalVariable

/-- A local variable under other labels. -/
def relabel (rename : Label → Label) (entry : LocalVariable) : LocalVariable :=
  { entry with range := entry.range.relabel rename }

/-- A local variable as it stands in a table, with a descriptor or a generic signature. -/
def row (entry : LocalVariable) (type : Text) : List Slot :=
  [.number entry.range.start.toUInt16, .number (entry.range.stop - entry.range.start).toUInt16,
    .text entry.name, .text type, .number entry.range.slot]

/-- The row of a local variable in the table of generic signatures, if it has a signature. -/
def typeRows (entry : LocalVariable) : List (List Slot) :=
  entry.signature?.toList.map entry.row

end LocalVariable

namespace BodyTables

/-- The tables under other labels. -/
def relabel (rename : Label → Label) (tables : BodyTables) : BodyTables where
  handlers := tables.handlers.map (TryCatch.relabel rename)
  lines := tables.lines.map (Prod.map rename id)
  locals := tables.locals.map (LocalVariable.relabel rename)

/-- The labels that tables mention. -/
def labels (tables : BodyTables) : List Label :=
  tables.handlers.flatMap (fun block => [block.start, block.stop, block.handler]) ++
    tables.lines.map Prod.fst ++ tables.locals.flatMap fun entry => entry.range.labels

end BodyTables

namespace CodeContext

variable {σ : Type} {Before : σ → Pool → Prop} {context : CodeContext}

/-- Whether a label has a place in the code. -/
def Knows (context : CodeContext) (label : Label) : Prop :=
  context.layout.offsets.place? label = some (context.layout.placeOf label)

theorem runs_placeOf (label : Label) :
    Runs Before (context.labelOffset label) fun offset part pool =>
      Before part pool ∧ context.Knows label ∧
        offset = (context.layout.placeOf label).toUInt16 := by
  refine (runs_labelPlace label).weaken (fun _ _ => id) ?_
  rintro offset part pool ⟨before, place, known, rfl⟩
  rw [Knows, CodeLayout.placeOf_eq known]
  exact ⟨before, known, rfl⟩

end CodeContext

namespace CodeDraft

variable {context : CodeContext}

/-! ### Handlers and line numbers -/

/-- Handlers are written row by row. -/
theorem runs_writeHandlers {blocks : List TryCatch} {drafts : List HandlerDraft}
    {front : List (List Slot)} :
    Runs (fun table pool => table.Spells (Slot.Spells pool) front ∧
        List.Forall₂ (HandlerDraft.Means pool) blocks drafts)
      (writeHandlers context drafts)
      fun _ table pool => table.Spells (Slot.Spells pool)
          (front ++ blocks.map fun block => (block.relabel context.layout.placeOf).row) ∧
        ∀ block ∈ blocks, ∀ label ∈ [block.start, block.stop, block.handler], context.Knows label := by
  induction drafts generalizing blocks front with
  | nil =>
      refine (Runs.pure ()).weaken (fun _ _ => id) ?_
      rintro - table pool ⟨-, spells, ⟨⟩⟩
      simpa using spells
  | cons draft rest ih =>
      cases blocks with
      | nil => exact Runs.absurd fun _ _ known => nomatch known.2
      | cons block blocks =>
          have raises : Runs (fun table pool => table.Spells (Slot.Spells pool) front ∧
                List.Forall₂ (HandlerDraft.Means pool) (block :: blocks) (draft :: rest))
              (Draft.tryChange (Table.raise "exception table entries"))
              fun _ table pool => table.Starts (Slot.Spells pool) front [] ∧
                List.Forall₂ (HandlerDraft.Means pool) (block :: blocks) (draft :: rest) :=
            Runs.tryChange fun _ _ _ known raised => ⟨known.1.raise raised, known.2⟩
          refine raises.bind fun _ => (CodeContext.runs_placeOf _).bind fun start => ?_
          refine (CodeContext.runs_placeOf _).bind fun stop => ?_
          refine (CodeContext.runs_placeOf _).bind fun handler => ?_
          refine (Runs.change ?_ : Runs _ _ fun _ table pool =>
            (table.Spells (Slot.Spells pool) (front ++ [(block.relabel context.layout.placeOf).row]) ∧
              List.Forall₂ (HandlerDraft.Means pool) blocks rest) ∧
              ∀ label ∈ [block.start, block.stop, block.handler], context.Knows label).bind fun _ => ?_
          · rintro table pool ⟨⟨⟨⟨starts, _ | ⟨means, others⟩⟩, knownStart, rfl⟩, knownStop, rfl⟩,
              knownHandler, rfl⟩
            rw [means.start] at knownStart ⊢
            rw [means.stop] at knownStop ⊢
            rw [means.handler] at knownHandler ⊢
            refine ⟨⟨(starts.put _).complete ?_, others⟩, by simp [knownStart, knownStop, knownHandler]⟩
            exact Slot.spells_ofU16s (.cons rfl (.cons rfl (.cons rfl (.cons means.type .nil))))
          · refine ih.frame.weaken (fun _ _ => id) ?_
            rintro - table pool ⟨⟨spells, others⟩, here⟩
            exact ⟨by simpa using spells, List.forall_mem_cons.mpr ⟨here, others⟩⟩

/-- Line numbers are written row by row. -/
theorem runs_writeLines {lines : List (Label × UInt16)} {front : List (List Slot)} :
    Runs (fun table pool => table.Spells (Slot.Spells pool) front) (writeLines context lines)
      fun _ table pool => table.Spells (Slot.Spells pool)
          (front ++ lines.map fun line => lineRow (line.map context.layout.placeOf id)) ∧
        ∀ line ∈ lines, context.Knows line.1 := by
  induction lines generalizing front with
  | nil =>
      refine (Runs.pure ()).weaken (fun _ _ => id) ?_
      rintro - table pool ⟨-, spells⟩
      simpa using spells
  | cons line rest ih =>
      refine (Runs.tryChange fun _ _ _ spells raised => spells.raise raised).bind fun _ => ?_
      refine (CodeContext.runs_placeOf _).bind fun start => ?_
      refine (Runs.change ?_ : Runs _ _ fun _ table pool =>
        table.Spells (Slot.Spells pool)
          (front ++ [lineRow (line.map context.layout.placeOf id)]) ∧ context.Knows line.1).bind fun _ => ?_
      · rintro table pool ⟨starts, known, rfl⟩
        exact ⟨(starts.put _).complete (Slot.spells_ofU16s (.cons rfl (.cons rfl .nil))), known⟩
      · refine ih.frame.weaken (fun _ _ => id) ?_
        rintro - table pool ⟨⟨spells, others⟩, here⟩
        exact ⟨by simpa using spells, List.forall_mem_cons.mpr ⟨here, others⟩⟩

/-! ### Local variables -/

section Variables

variable (bounded : context.layout.IsBounded)
include bounded

/-- The offset of a range, and its length. -/
theorem runs_rangePlaces {σ : Type} {Before : σ → Pool → Prop} (range : LabelRange) :
    Runs Before (rangeOffsets context range) fun found part pool =>
      Before part pool ∧ (∀ label ∈ range.labels, context.Knows label) ∧
        found = ((context.layout.placeOf range.start).toUInt16,
          (context.layout.placeOf range.stop - context.layout.placeOf range.start).toUInt16) := by
  refine (CodeContext.runs_placeOf _).bind fun start => (CodeContext.runs_placeOf _).bind fun stop => ?_
  refine (Runs.pure _).weaken (fun _ _ => id) ?_
  rintro _ part pool ⟨rfl, ⟨before, knownStart, rfl⟩, knownStop, rfl⟩
  have first := bounded.toNat_place knownStart
  have last := bounded.toNat_place knownStop
  have size := bounded.size_le
  have inside := bounded.place_le knownStop
  rw [CodeLayout.maxCodeLength] at size
  refine ⟨before, by simp [LabelRange.labels, knownStart, knownStop], congrArg _ ?_⟩
  rw [← UInt16.toNat_inj]
  split
  · rename_i before
    rw [UInt16.lt_iff_toNat_lt, first, last] at before
    rw [Nat.sub_eq_zero_of_le (Nat.le_of_lt before)]
    rfl
  · rename_i notBefore
    rw [UInt16.not_lt, UInt16.le_iff_toNat_le, first, last] at notBefore
    rw [UInt16.toNat_sub_of_le _ _ (by rwa [UInt16.le_iff_toNat_le, first, last]), first, last,
      Nat.toUInt16_eq, UInt16.toNat_ofNat']
    omega

/-- What is known while local variables are written: the rows that both tables have, the variables that are
left, and labels with places. -/
structure Writes (context : CodeContext) (rows typeRows : List (List Slot)) (entries : List LocalVariable)
    (drafts : List VariableDraft) (labels : List Label) (tables : Table × Table) (pool : Pool) : Prop where
  locals : tables.1.Spells (Slot.Spells pool) rows
  types : tables.2.Spells (Slot.Spells pool) typeRows
  means : List.Forall₂ (VariableDraft.Means pool) entries drafts
  known : ∀ label ∈ labels, context.Knows label

omit bounded in
/-- The slots of a local variable with a descriptor or a signature. -/
theorem spells_row {pool : Pool} {entry : LocalVariable} {draft : VariableDraft}
    (means : draft.Means pool entry) {type : Text} {index : UInt16}
    (described : pool.text index = .ok type) :
    Slot.Spells pool ((entry.relabel context.layout.placeOf).row type) (Output.ofU16s
      [(context.layout.placeOf entry.range.start).toUInt16,
        (context.layout.placeOf entry.range.stop - context.layout.placeOf entry.range.start).toUInt16,
        draft.name, index, entry.range.slot]).toList :=
  Slot.spells_ofU16s (.cons rfl (.cons rfl (.cons means.name (.cons described (.cons rfl .nil)))))

/-- Local variables are written row by row, those with a generic signature into both tables. -/
theorem runs_writeVariables {rows typeRows : List (List Slot)} {entries : List LocalVariable}
    {drafts : List VariableDraft} {labels : List Label} :
    Runs (Writes context rows typeRows entries drafts labels) (writeVariables context drafts)
      fun _ => Writes context
        (rows ++ entries.map fun entry =>
          (entry.relabel context.layout.placeOf).row entry.descriptor)
        (typeRows ++ entries.flatMap fun entry => (entry.relabel context.layout.placeOf).typeRows)
        [] [] (labels ++ entries.flatMap fun entry => entry.range.labels) := by
  induction drafts generalizing rows typeRows entries labels with
  | nil =>
      refine (Runs.pure ()).weaken (fun _ _ => id) ?_
      rintro - tables pool ⟨-, locals, types, ⟨⟩, known⟩
      exact ⟨by simpa using locals, by simpa using types, .nil, by simpa using known⟩
  | cons draft rest ih =>
      cases entries with
      | nil => exact Runs.absurd fun _ _ known => nomatch known.means
      | cons entry entries =>
          rw [List.map_cons, List.append_cons rows, List.flatMap_cons, ← List.append_assoc typeRows,
            List.flatMap_cons, ← List.append_assoc labels]
          have range {tables : Table × Table} {pool : Pool} (known : Writes context rows typeRows
              (entry :: entries) (draft :: rest) labels tables pool) : draft.range = entry.range := by
            rcases known.means with _ | ⟨means, others⟩
            exact means.range
          refine Runs.assume (fun _ _ => range) fun sameRange => ?_
          rw [writeVariables, sameRange]
          refine (runs_rangePlaces bounded _).bind fun found => ?_
          refine Runs.assume (fun _ _ known => known.2.2) ?_
          rintro rfl
          dsimp only
          let moved := entry.relabel context.layout.placeOf
          refine (Runs.tryChange ?_ : Runs _ _ fun _ => Writes context
            (rows ++ [moved.row entry.descriptor]) typeRows (entry :: entries) (draft :: rest)
              (labels ++ entry.range.labels)).bind fun _ => ?_
          · rintro ⟨locals, types⟩ next pool ⟨known, here, -⟩ added
            simp only [bind_eq_ok, pure_eq_ok] at added
            rcases added with ⟨table, added, rfl⟩
            rcases known.means with _ | ⟨means, others⟩
            exact ⟨known.locals.add added (spells_row means means.descriptor), known.types,
              .cons means others, List.forall_mem_append.mpr ⟨known.known, here⟩⟩
          cases signed : draft.signature? with
          | none =>
              refine ih.strengthen ?_
              rintro tables pool ⟨locals, types, _ | ⟨means, others⟩, known⟩
              have signature := means.signature
              rw [signed] at signature
              have none : moved.typeRows = [] := by
                rw [LocalVariable.typeRows, show moved.signature? = entry.signature? from rfl]
                cases h : entry.signature? with
                | none => rfl
                | some type =>
                    rw [h] at signature
                    cases signature
              exact ⟨locals, by rwa [none, List.append_nil], others, known⟩
          | some index =>
              refine (Runs.tryChange ?_).bind fun _ => ih
              rintro ⟨locals, types⟩ next pool ⟨locals, types, _ | ⟨means, others⟩, known⟩ added
              simp only [bind_eq_ok, pure_eq_ok] at added
              rcases added with ⟨table, added, rfl⟩
              have signature := means.signature
              rw [signed] at signature
              cases h : entry.signature? with
              | none =>
                  rw [h] at signature
                  cases signature
              | some type =>
                  rw [h] at signature
                  cases signature with
                  | some described =>
                      have one : moved.typeRows = [moved.row type] := by
                        rw [LocalVariable.typeRows, show moved.signature? = some type from h]
                        rfl
                      rw [one]
                      exact ⟨locals, types.add added (spells_row means described), others, known⟩

end Variables

end CodeDraft

/-! ### Attributes -/

namespace CodeDraft

/-- What is written from nothing may need what is known of the pool. -/
theorem runs_writtenWith {σ τ : Type} {Before : σ → Pool → Prop} {Known : Pool → Prop} {empty : τ}
    {write : Draft τ Unit} {After : τ → Pool → Prop}
    (runs : Runs (fun part pool => part = empty ∧ Known pool) write fun _ => After)
    (known : ∀ whole pool, Before whole pool → Known pool) :
    Runs Before (written empty write) fun part whole pool => Before whole pool ∧ After part pool :=
  Runs.within (runs.bind fun _ => Runs.look id) (fun whole pool before => ⟨rfl, known whole pool before⟩)
    fun _ _ _ _ before written => ⟨before, written.1 ▸ written.2⟩

theorem on_written {σ τ : Type} {empty part : τ} {write : Draft τ Unit} {builder next : PoolBuilder}
    (ran : write.on (empty, builder) = (.ok (), part, next)) (whole : σ) :
    Draft.on (written empty write) (whole, builder) = (.ok part, whole, next) := by
  unfold written
  rw [on_within, on_bind, ran]
  rfl

end CodeDraft

namespace AttributeTable

/-- An attribute that refuses to be written is not. -/
theorem on_writeFields_ne_ok {fields : List AttributeField} {cause : ClassError}
    (refuses : .refused cause ∈ fields) (output : Output) (builder : PoolBuilder) (value : Output)
    (next : PoolBuilder) : (writeFields output fields).on builder ≠ (.ok value, next) := by
  induction fields generalizing output builder with
  | nil => cases refuses
  | cons field rest ih =>
      cases field with
      | number number => exact ih (by simpa using refuses) _ _
      | text text =>
          rw [writeFields, Pooling.on_bind]
          rcases (PoolBuilder.text text).on builder with ⟨_ | index, between⟩
          · nofun
          · exact ih (by simpa using refuses) _ _
      | refused => nofun

theorem adds_writeFields {Before : Pool → Prop} {fields : List AttributeField}
    (survive : ∀ value : Text, .text value ∈ fields → value.Survives)
    (willing : ∀ cause, .refused cause ∉ fields) (output : Output) :
    PoolBuilder.Adds Before (writeFields output fields) fun _ _ => True := by
  induction fields generalizing output Before with
  | nil => exact (PoolBuilder.Adds.pure output).weaken (fun _ => id) fun _ _ _ _ => trivial
  | cons field rest ih =>
      have behind := fun value member => survive value (List.mem_cons_of_mem _ member)
      have others := fun cause member => willing cause (List.mem_cons_of_mem _ member)
      cases field with
      | number value => exact ih behind others _
      | text value =>
          refine (PoolBuilder.adds_text (survive value List.mem_cons_self)).bind fun index => ?_
          exact ih behind others _
      | refused cause => exact absurd List.mem_cons_self (willing cause)

theorem runs_content {σ : Type} {Before : σ → Pool → Prop} {entry : Attribute}
    (survives : entry.TextsSurvive) :
    Runs Before (Draft.pooled (content entry.content)) fun _ => Before := by
  have known {adding : Pooling Output} {After : Output → Pool → Prop}
      (adds : PoolBuilder.Adds (fun _ => True) adding After) :
      Runs Before (Draft.pooled adding) fun _ => Before :=
    (Runs.pooled adds).weaken (fun _ _ => id) fun _ _ _ => And.left
  cases isContent : entry.content with
  | raw bytes => exact known (PoolBuilder.Adds.pure _)
  | fields fields =>
      by_cases refuses : ∃ cause, .refused cause ∈ fields
      · rcases refuses with ⟨cause, refuses⟩
        intro part builder content holds before value next last ran
        rw [on_pooled] at ran
        rcases ranFields : (AttributeTable.content (.fields fields)).on builder with ⟨_ | found, between⟩
        · rw [ranFields] at ran
          cases ran
        · exact absurd ranFields (on_writeFields_ne_ok refuses _ _ _ _)
      · exact known (adds_writeFields (survives.content fields isContent)
          (fun cause member => refuses ⟨cause, member⟩) _)

/-- Whether a table holds attributes, and which names those have that the format does not define. -/
def HoldsNamed (parts : AttributeParts) (names : List Text) (attributes : AttributeTable) (pool : Pool) :
    Prop :=
  ∃ customs : List NamedAttribute, customs.map NamedAttribute.name = names ∧
    attributes.table.Spells (NamedAttribute.Spells pool) (parts.written ++ customs)

theorem runs_addCustom_named {parts : AttributeParts} {names : List Text} {entry : Attribute}
    (survives : entry.TextsSurvive) :
    Runs (HoldsNamed parts names) (addCustom entry)
      fun _ => HoldsNamed parts (names ++ [entry.name]) := by
  unfold addCustom
  refine (runs_content survives).bind fun body => ?_
  refine (Runs.pooled (PoolBuilder.adds_text survives.name)).bind fun name => ?_
  unfold addNamed
  split
  · exact Runs.throw _
  · rename_i small
    apply Runs.tryChange
    rintro earlier next pool ⟨⟨customs, same, spells⟩, named⟩ added
    simp only [bind_eq_ok, pure_eq_ok] at added
    rcases added with ⟨table, added, rfl⟩
    refine ⟨customs ++ [⟨entry.name, body⟩], by simp [same], ?_⟩
    rw [← List.append_assoc]
    exact spells.add added ⟨Nat.lt_of_not_le small, name, named, by simp [Output.ofU16]⟩

theorem runs_addCustoms_named {parts : AttributeParts} {names : List Text} {entries : List Attribute}
    (survive : ∀ entry ∈ entries, entry.TextsSurvive) :
    Runs (HoldsNamed parts names) (entries.forM addCustom)
      fun _ => HoldsNamed parts (names ++ entries.map Attribute.name) := by
  induction entries generalizing names with
  | nil =>
      refine (Runs.pure ()).weaken (fun _ _ => id) fun _ _ _ holds => ?_
      simpa using holds.2
  | cons entry rest ih =>
      rw [List.forall_mem_cons] at survive
      rw [List.map_cons, List.append_cons]
      exact (runs_addCustom_named survive.1).bind fun _ => ih survive.2

end AttributeTable

/-! ### Bodies -/

/-- Whether attributes hold a table with the rows, if there are rows, and no other of its kind. -/
def AttributeKind.HoldsRows (kind : AttributeKind) (rows : List (List Slot))
    (named : List NamedAttribute) (pool : Pool) : Prop :=
  ∃ table : Table, table.Spells (Slot.Spells pool) rows ∧
    named.filter (fun entry => entry.name = kind.text) =
      if table.isEmpty then [] else [⟨kind.text, table.toOutput⟩]

open AttributeTable in
theorem AttributeKind.holdsRows_of_parts {kind : AttributeKind} {rows : List (List Slot)} {table : Table}
    {parts : AttributeParts} {customs : List NamedAttribute} {pool : Pool}
    (once : (parts.map Prod.fst).Nodup) (spells : table.Spells (Slot.Spells pool) rows)
    (found : parts.found kind = if table.isEmpty then none else some table.toOutput)
    (apart : ∀ entry ∈ customs, entry.name ≠ kind.text) :
    kind.HoldsRows rows (parts.written ++ customs) pool := by
  refine ⟨table, spells, ?_⟩
  have none : customs.filter (fun entry => entry.name = kind.text) = [] := by
    simpa [List.filter_eq_nil_iff] using apart
  rw [List.filter_append, AttributeParts.filter_written once, none, List.append_nil, found]
  cases table.isEmpty <;> rfl

/-- Whether the debug tables of a body stand among attributes; their labels are places. -/
structure BodyTables.StandIn (tables : BodyTables) (named : List NamedAttribute) (pool : Pool) : Prop where
  lines : AttributeKind.lineNumberTable.HoldsRows (tables.lines.map lineRow) named pool
  locals : AttributeKind.localVariableTable.HoldsRows
    (tables.locals.map fun entry => entry.row entry.descriptor) named pool
  types : AttributeKind.localVariableTypeTable.HoldsRows
    (tables.locals.flatMap LocalVariable.typeRows) named pool

namespace CodeDraft

variable {context : CodeContext} {parts : List Instruction} {tables : BodyTables} {draft : CodeDraft}

/-- What is known of the attributes of a body when they are written. -/
structure WritesAttributes (context : CodeContext) (tables : BodyTables) (attributes : AttributeTable)
    (pool : Pool) : Prop where
  lines : ∀ line ∈ tables.lines, context.Knows line.1
  locals : ∀ entry ∈ tables.locals, ∀ label ∈ entry.range.labels, context.Knows label
  held : ∃ named, attributes.table.Spells (NamedAttribute.Spells pool) named ∧
    (tables.relabel context.layout.placeOf).StandIn named pool

open AttributeTable in
/-- Frames, type annotations and attributes that the format does not define stand behind the tables. -/
theorem runs_writeOthers {parts : AttributeParts}
    (survive : ∀ entry ∈ draft.attributes, entry.TextsSurvive) :
    Runs (Holds parts []) (do
        let annotations ← written ({ attributes := draft.attributes } : AnnotationTables)
          (writeAnnotations context draft.annotations.reverse)
        annotations.writeTypes
        annotations.writeCustom)
      fun _ attributes pool => ∃ (visible invisible : Option Output),
        HoldsNamed (parts ++ [(.runtimeVisibleTypeAnnotations, visible),
          (.runtimeInvisibleTypeAnnotations, invisible)])
          (draft.attributes.reverse.map Attribute.name) attributes pool := by
  have writes : Runs (fun tables _ => tables = ({ attributes := draft.attributes } : AnnotationTables))
      (writeAnnotations context draft.annotations.reverse)
      fun _ tables _ => tables.attributes = draft.attributes :=
    (runs_writeAnnotations _).strengthen fun _ _ same => congrArg AnnotationTables.attributes same
  refine (runs_written writes).bind fun tables => Runs.assume (fun _ _ known => known.2) fun same => ?_
  refine ((AnnotationTables.runs_writeTypes tables).strengthen fun _ _ => And.left).bind fun _ => ?_
  rw [AnnotationTables.writeCustom, same]
  have customs : Runs (Holds (parts ++ tables.typeParts) []) (draft.attributes.reverse.forM addCustom)
      fun _ => HoldsNamed (parts ++ tables.typeParts) ([] ++ draft.attributes.reverse.map Attribute.name) :=
    (runs_addCustoms_named fun entry member => survive entry (List.mem_reverse.mp member)).strengthen
      fun _ _ holds => ⟨[], rfl, holds⟩
  exact customs.weaken (fun _ _ => id) fun _ _ _ holds => ⟨_, _, holds⟩

/-- Whether a table is that of the line numbers. -/
abbrev WritesLines (context : CodeContext) (lines : List (Label × UInt16)) (table : Table) (pool : Pool) :
    Prop :=
  table.Spells (Slot.Spells pool) ([] ++ lines.map fun line =>
    lineRow (line.map context.layout.placeOf id)) ∧ ∀ line ∈ lines, context.Knows line.1

/-- Whether tables are those of the local variables. -/
abbrev WritesLocals (context : CodeContext) (entries : List LocalVariable) : Table × Table → Pool → Prop :=
  Writes context
    ([] ++ entries.map fun entry => (entry.relabel context.layout.placeOf).row entry.descriptor)
    ([] ++ entries.flatMap fun entry => (entry.relabel context.layout.placeOf).typeRows)
    [] [] ([] ++ entries.flatMap fun entry => entry.range.labels)

open AttributeTable in
/-- The attributes that the tables of a body are written as. -/
def tableParts (lines : Table) (locals : Table × Table) : AttributeParts :=
  [AnnotationTables.part .lineNumberTable lines, AnnotationTables.part .localVariableTable locals.1,
    AnnotationTables.part .localVariableTypeTable locals.2]

open AttributeTable AttributeKind in
theorem writesAttributes_of_holds {lines : Table} {locals : Table × Table}
    {frames? visible? invisible? : Option Output} {names : List Text} {attributes : AttributeTable}
    {pool : Pool} (linesWritten : WritesLines context tables.lines lines pool)
    (localsWritten : WritesLocals context tables.locals locals pool)
    (apart : ∀ name ∈ names, ∀ kind ∈ ofTables, name ≠ kind.text)
    (holds : HoldsNamed (tableParts lines locals ++ [(.stackMapTable, frames?)] ++
      [(.runtimeVisibleTypeAnnotations, visible?), (.runtimeInvisibleTypeAnnotations, invisible?)])
      names attributes pool) : WritesAttributes context tables attributes pool := by
  rcases holds with ⟨customs, rfl, spells⟩
  have others : ∀ kind ∈ ofTables, ∀ entry ∈ customs, entry.name ≠ kind.text :=
    fun kind isTable entry member => apart _ (List.mem_map_of_mem member) kind isTable
  refine ⟨linesWritten.2, fun entry member label mentioned => localsWritten.known label ?_, _, spells, ?_⟩
  · exact List.mem_flatMap.mpr ⟨entry, member, mentioned⟩
  constructor
  · refine holdsRows_of_parts (by simp [tableParts, AnnotationTables.part]) ?_ rfl
      (others _ (by simp [ofTables]))
    simpa [BodyTables.relabel, Function.comp_def] using linesWritten.1
  · refine holdsRows_of_parts (by simp [tableParts, AnnotationTables.part]) ?_ rfl
      (others _ (by simp [ofTables]))
    simpa [BodyTables.relabel, Function.comp_def, LocalVariable.relabel] using localsWritten.locals
  · refine holdsRows_of_parts (by simp [tableParts, AnnotationTables.part]) ?_ rfl
      (others _ (by simp [ofTables]))
    simpa [BodyTables.relabel, List.flatMap_map] using localsWritten.types

open AttributeTable AttributeKind in
/-- The attributes of a body hold its tables, whatever else they hold. -/
theorem runs_writeAttributes_rows (bounded : context.layout.IsBounded) :
    Runs (fun attributes pool => attributes = ({} : AttributeTable) ∧ draft.Tells parts tables pool)
      (writeAttributes context draft) fun _ => WritesAttributes context tables := by
  refine Runs.assume (fun _ _ known => known.2.lines) fun sameLines => ?_
  refine Runs.assume (fun _ _ known => known.2.frames) fun framesSurvive => ?_
  refine Runs.assume (fun _ _ known => known.2.attributes) fun attributesFit => ?_
  have survive : ∀ told ∈ draft.frames.reverse, told.2.Survives := fun told member =>
    framesSurvive told (List.mem_reverse.mp member)
  unfold writeAttributes
  rw [sameLines]
  simp only [AttributeTable.addTable_eq]
  suffices runs : Runs (fun attributes pool => Holds [] [] attributes pool ∧ draft.Tells parts tables pool) _
      fun _ => WritesAttributes context tables by
    apply runs.strengthen
    rintro attributes pool ⟨rfl, tells⟩
    exact ⟨holds_empty pool, tells⟩
  have lines : Runs (fun table _ => table = ({} : Table)) (writeLines context tables.lines)
      fun _ => WritesLines context tables.lines :=
    runs_writeLines.strengthen fun _ _ same => same ▸ Table.spells_empty
  refine (runs_written lines).bind fun lineTable => (runs_addPart _ _).frame.frame.bind fun _ => ?_
  have locals : Runs (fun found pool => found = (({}, {}) : Table × Table) ∧ draft.Tells parts tables pool)
      (writeVariables context draft.localVariables.reverse) fun _ => WritesLocals context tables.locals := by
    refine (runs_writeVariables bounded).strengthen ?_
    rintro _ pool ⟨rfl, tells⟩
    exact ⟨Table.spells_empty, Table.spells_empty, tells.locals, by simp⟩
  refine (runs_writtenWith locals fun _ _ known => known.1.2).bind fun (found, types) => ?_
  refine (runs_addPart _ _).frame.frame.frame.bind fun _ => ?_
  refine (runs_addPart _ _).frame.frame.frame.bind fun _ => ?_
  have apart : ∀ name ∈ draft.attributes.reverse.map Attribute.name, ∀ kind ∈ ofTables,
      name ≠ kind.text := by
    simp only [List.mem_map, List.mem_reverse]
    rintro _ ⟨entry, member, rfl⟩
    exact (attributesFit entry member).2
  have others (frames? : Option Output) : Runs (fun attributes pool =>
      ((Holds (tableParts lineTable (found, types) ++ [(.stackMapTable, frames?)]) [] attributes pool ∧
        draft.Tells parts tables pool) ∧ WritesLines context tables.lines lineTable pool) ∧
          WritesLocals context tables.locals (found, types) pool) _
      fun _ => WritesAttributes context tables :=
    (@runs_writeOthers context draft _ fun entry member =>
        (attributesFit entry member).1).frame.frame.frame.weaken
      (fun _ _ => id) fun _ _ _ ⟨⟨⟨⟨_, _, holds⟩, _⟩, linesWritten⟩, localsWritten⟩ =>
        writesAttributes_of_holds linesWritten localsWritten apart holds
  by_cases someFrames : (! draft.frames.isEmpty) = true
  · rw [if_pos someFrames]
    refine (runs_written ((CodeContext.sound_writeFrames survive none).strengthen
      fun _ _ _ => trivial)).bind fun table => ?_
    refine ((runs_addPart .stackMapTable (some table.toOutput)).frame.frame.frame.strengthen
      fun _ _ => And.left).bind fun _ => ?_
    exact others (some table.toOutput)
  · rw [if_neg someFrames]
    refine (others none).strengthen ?_
    rintro attributes pool known
    simpa [Holds, AttributeParts.written, tableParts, AnnotationTables.part] using known

/-- What is known of a body when it is written: its code is laid out, the labels of its tables have places,
and the handlers and the attributes hold the tables under these places. -/
structure WritesBody (method : Text) (draft : CodeDraft) (tables : BodyTables) (layout : CodeLayout)
    (handlers attributes : Table) (named : List NamedAttribute) (pool : Pool) : Prop where
  laidOut : CodeLayout.ofItems method draft.items.reverse = .ok layout
  known : ∀ label ∈ tables.labels, layout.offsets.place? label = some (layout.placeOf label)
  handlers : handlers.Spells (Slot.Spells pool)
    ((tables.relabel layout.placeOf).handlers.map TryCatch.row)
  attributes : attributes.Spells (NamedAttribute.Spells pool) named
  stand : (tables.relabel layout.placeOf).StandIn named pool

/-- A body is written with the rows of its tables. -/
theorem runs_write_rows {σ : Type} {Before : σ → Pool → Prop} (method : Text) :
    Runs (fun whole pool => Before whole pool ∧ draft.Tells parts tables pool) (draft.write method)
      fun output whole pool => Before whole pool ∧ ∃ layout handlers attributes named,
        WritesBody method draft tables layout handlers attributes named pool ∧
          output = attributes.write (handlers.write (((Output.empty.u16 draft.maxStack).u16
            draft.maxLocals).u32 layout.code.size.toUInt32 |>.append layout.code)) := by
  have laysOut : Runs (fun whole pool => Before whole pool ∧ draft.Tells parts tables pool)
      (liftM (Fault.ofExcept (CodeLayout.ofItems method draft.items.reverse)))
      fun layout whole pool => CodeLayout.ofItems method draft.items.reverse = .ok layout ∧
        Before whole pool ∧ draft.Tells parts tables pool := by
    refine Runs.lift.weaken (fun _ _ => id) ?_
    rintro layout whole pool ⟨laidOut, known⟩
    refine ⟨?_, known⟩
    cases found : CodeLayout.ofItems method draft.items.reverse with
    | ok other =>
        rw [found] at laidOut
        cases laidOut
        rfl
    | error cause =>
        rw [found] at laidOut
        cases laidOut
  refine laysOut.bind fun layout => ?_
  refine Runs.assume (fun _ _ known => known.1) fun laidOut => ?_
  dsimp only
  have handlers : Runs (fun table pool => table = Table.empty ∧ draft.Tells parts tables pool)
      (writeHandlers ⟨method, layout⟩ draft.handlers.reverse)
      fun _ table pool => table.Spells (Slot.Spells pool)
          ([] ++ tables.handlers.map fun block => (block.relabel layout.placeOf).row) ∧
        ∀ block ∈ tables.handlers, ∀ label ∈ [block.start, block.stop, block.handler],
          CodeContext.Knows ⟨method, layout⟩ label := by
    refine (@runs_writeHandlers ⟨method, layout⟩ tables.handlers _ []).strengthen ?_
    rintro table pool ⟨rfl, tells⟩
    exact ⟨Table.spells_empty, tells.handlers⟩
  refine (runs_writtenWith handlers fun _ _ known => known.2.2).bind fun handlers => ?_
  refine (runs_writtenWith (runs_writeAttributes_rows (CodeLayout.isBounded_of_ofItems laidOut))
    fun _ _ known => known.1.2.2).bind fun attributes => ?_
  refine (Runs.pure _).weaken (fun _ _ => id) ?_
  rintro _ whole pool ⟨rfl, ⟨⟨-, before, -⟩, handlersSpelled, handlersKnown⟩, written⟩
  rcases written.held with ⟨named, spells, stand⟩
  refine ⟨before, layout, handlers, attributes.table, named, ⟨laidOut, ?_, ?_, spells, stand⟩, rfl⟩
  · simp only [BodyTables.labels, List.forall_mem_append, List.forall_mem_flatMap,
      List.forall_mem_map]
    exact ⟨⟨handlersKnown, written.lines⟩, written.locals⟩
  · simpa [BodyTables.relabel, Function.comp_def] using handlersSpelled

end CodeDraft

end ClassFile
