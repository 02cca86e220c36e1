import ClassFile.Proofs.Frames.Told
import ClassFile.Proofs.Tables.Ordering
import ClassFile.Proofs.Tables.Writing

/-!
# Reading the tables of a body

The first pass over a body collects line numbers by their places, and the second one tells those of a place
in front of its instruction.  The generic signature of a local variable is looked up by where the variable
starts, how far it reaches and which slot it has; if no two variables have all three in common, each finds
its own (`ClassImage.emits_tellVariableTable`).  Where the rows of tables stand in a file, the tables are
told, the line numbers in the order of their places (`ClassImage.Reads.givesTables_tellCode`).
-/

namespace ClassFile

/-! ### Rows -/

namespace ClassImage

variable {image : ClassImage} {offset : Nat} {rows : List (List Slot)}

/-- Whether rows of slots stand one after the other from an offset on. -/
def RowsAt (image : ClassImage) (offset : Nat) : List (List Slot) → Prop
  | [] => True
  | row :: rest => image.SlotsAt offset row ∧ RowsAt image (offset + 2 * row.length) rest

/-- Whether a table of rows stands at an offset. -/
def HasRows (image : ClassImage) (offset : Nat) (rows : List (List Slot)) : Prop :=
  ∃ count, image.input.u16 offset = .ok count ∧ count.toNat = rows.length ∧
    image.RowsAt (offset + 2) rows

theorem rowsAt_of_hasAt {bytes : List UInt8} (all : SpellsAll (Slot.Spells image.pool) rows bytes)
    (held : image.input.HasAt offset bytes) : image.RowsAt offset rows := by
  rcases all with ⟨chunks, each, rfl⟩
  induction each generalizing offset with
  | nil => trivial
  | cons first _ ih =>
      rw [List.flatten_cons] at held
      exact ⟨slotsAt_of_hasAt first held.left, ih (first.length ▸ held.right)⟩

theorem hasRows_of_hasAt {table : Table} (spells : table.Spells (Slot.Spells image.pool) rows)
    (held : image.input.HasAt offset (bigEndian16 table.count ++ Pieces.toList table.entries)) :
    image.HasRows offset rows :=
  ⟨table.count, held.left.u16, spells.count, rowsAt_of_hasAt spells.entries held.right⟩

end ClassImage

/-- Rows of the same width. -/
theorem Slot.length_of_spellsAll {pool : Pool} {rows : List (List Slot)} {bytes : List UInt8} {width : Nat}
    (all : SpellsAll (Slot.Spells pool) rows bytes) (wide : ∀ row ∈ rows, row.length = width) :
    bytes.length = 2 * width * rows.length := by
  rcases all with ⟨chunks, each, rfl⟩
  induction each with
  | nil => rfl
  | cons first _ ih =>
      rw [List.forall_mem_cons] at wide
      rw [List.flatten_cons, List.length_append, first.length, ih wide.2, wide.1, List.length_cons,
        Nat.mul_succ, Nat.add_comm]

theorem toNat_toUInt16 {value : Nat} (small : value ≤ 65535) : value.toUInt16.toNat = value := by
  rw [Nat.toUInt16_eq, UInt16.toNat_ofNat']
  omega

/-! ### Handlers -/

namespace ClassImage

variable {image : ClassImage} {code : CodeArray} {offset : Nat}

section Proper

variable (proper : image.IsProper) (small : code.length ≤ 65535)
include proper small

/-- Exception handlers are told row by row. -/
theorem emits_tellHandlers {blocks : List TryCatch} (stand : image.RowsAt offset (blocks.map TryCatch.row))
    (inside : ∀ block ∈ blocks, ∀ label ∈ [block.start, block.stop, block.handler], label ≤ code.length) :
    (image.tellHandlers code offset blocks.length).Emits ()
      (blocks.map fun block => .event (.methodItem (.tryCatch block))) := by
  induction blocks generalizing offset with
  | nil => exact Emit.emits_pure ()
  | cons block blocks ih =>
      rw [List.forall_mem_cons] at inside
      rcases stand with ⟨⟨start, stop, handler, type, -⟩, others⟩
      have place {label : Label} (member : label ∈ [block.start, block.stop, block.handler]) :
          code.place label.toUInt16.toNat offset = .ok label := by
        have within := inside.1 label member
        rw [toNat_toUInt16 (Nat.le_trans within small), CodeArray.place,
          if_neg (Nat.not_lt.mpr within)]
      rcases type with ⟨index, readType, means⟩
      refine .bind_lift start.number (.bind_lift (place (by simp)) ?_)
      refine .bind_lift stop.number (.bind_lift (place (by simp)) ?_)
      refine .bind_lift handler.number (.bind_lift (place (by simp)) ?_)
      refine .bind_lift readType (.bind_lift (proper.optionalClass means) ?_)
      exact (Emit.emits_tell _).bind (ih others inside.2)

end Proper

end ClassImage

/-! ### Local variables -/

namespace LocalVariable

/-- Where a local variable starts, how far it reaches, and its slot. -/
def key (entry : LocalVariable) : UInt16 × UInt16 × UInt16 :=
  (entry.range.start.toUInt16, (entry.range.stop - entry.range.start).toUInt16, entry.range.slot)

/-- The generic signatures of local variables with those of some more. -/
def addTypes (types : ClassImage.VariableTypes) (entries : List LocalVariable) :
    ClassImage.VariableTypes :=
  entries.foldl (fun types entry => entry.signature?.elim types (types.insert entry.key)) types

theorem getElem?_addTypes_of_not_mem {types : ClassImage.VariableTypes} {entries : List LocalVariable}
    {sought : UInt16 × UInt16 × UInt16} (absent : sought ∉ entries.map key) :
    (addTypes types entries)[sought]? = types[sought]? := by
  induction entries generalizing types with
  | nil => rfl
  | cons entry rest ih =>
      rw [List.map_cons, List.mem_cons, not_or] at absent
      rw [addTypes, List.foldl_cons, ← addTypes, ih absent.2]
      cases entry.signature? with
      | none => rfl
      | some signature =>
          rw [Option.elim_some, Std.HashMap.getElem?_insert, if_neg (by simpa using Ne.symm absent.1)]

/-- Each variable finds its signature, and one that has none finds none. -/
theorem getElem?_addTypes {types : ClassImage.VariableTypes} {entries : List LocalVariable}
    (once : (entries.map key).Nodup) (fresh : ∀ entry ∈ entries, types[entry.key]? = none) :
    ∀ entry ∈ entries, (addTypes types entries)[entry.key]? = entry.signature? := by
  induction entries generalizing types with
  | nil => simp
  | cons entry rest ih =>
      rw [List.map_cons, List.nodup_cons] at once
      rw [List.forall_mem_cons] at fresh ⊢
      rw [addTypes, List.foldl_cons, ← addTypes]
      constructor
      · rw [getElem?_addTypes_of_not_mem once.1]
        cases entry.signature? with
        | none => exact fresh.1
        | some signature => rw [Option.elim_some, Std.HashMap.getElem?_insert_self]
      · refine ih once.2 fun other member => ?_
        have apart : entry.key ≠ other.key := fun same => once.1 (same ▸ List.mem_map_of_mem member)
        cases entry.signature? with
        | none => exact fresh.2 other member
        | some signature =>
            rw [Option.elim_some, Std.HashMap.getElem?_insert, if_neg (by simpa using apart)]
            exact fresh.2 other member

end LocalVariable

namespace ClassImage

variable {image : ClassImage} {code : CodeArray} {offset : Nat} {entries : List LocalVariable}

theorem variableTypes_eq_ok (proper : image.IsProper)
    (stand : image.RowsAt offset (entries.flatMap LocalVariable.typeRows)) (types : VariableTypes) :
    image.variableTypes offset types (entries.flatMap LocalVariable.typeRows).length =
      .ok (LocalVariable.addTypes types entries) := by
  induction entries generalizing offset types with
  | nil => rfl
  | cons entry rest ih =>
      rw [List.flatMap_cons, LocalVariable.typeRows] at stand ⊢
      rw [LocalVariable.addTypes, List.foldl_cons, ← LocalVariable.addTypes]
      cases h : entry.signature? with
      | none =>
          rw [h] at stand
          exact ih stand types
      | some signature =>
          rw [h] at stand
          rcases stand with ⟨⟨start, length, -, type, slot, -⟩, others⟩
          rw [Option.toList_some, List.map_singleton, List.singleton_append, List.length_cons,
            variableTypes, start.number, ok_bind, length.number, ok_bind, slot.number, ok_bind,
            proper.textAt type, ok_bind]
          exact ih others _

/-- Local variables are told row by row, each with the signature that it finds. -/
theorem emits_tellVariables (proper : image.IsProper) (small : code.length ≤ 65535)
    (stand : image.RowsAt offset (entries.map fun entry => entry.row entry.descriptor))
    {types : VariableTypes} (signed : ∀ entry ∈ entries, types[entry.key]? = entry.signature?)
    (inside : ∀ entry ∈ entries, entry.range.start ≤ entry.range.stop ∧ entry.range.stop ≤ code.length) :
    (image.tellVariables code types offset entries.length).Emits ()
      (entries.map fun entry => .event (.methodItem (.localVariable entry))) := by
  induction entries generalizing offset with
  | nil => exact Emit.emits_pure ()
  | cons entry rest ih =>
      rw [List.forall_mem_cons] at signed inside
      rcases stand with ⟨⟨start, length, name, descriptor, slot, -⟩, others⟩
      rcases inside.1 with ⟨ordered, within⟩
      have startPlace : entry.range.start.toUInt16.toNat = entry.range.start :=
        toNat_toUInt16 (Nat.le_trans (Nat.le_trans ordered within) small)
      have lengthPlace : (entry.range.stop - entry.range.start).toUInt16.toNat =
          entry.range.stop - entry.range.start :=
        toNat_toUInt16 (Nat.le_trans (Nat.sub_le _ _) (Nat.le_trans within small))
      have first : code.place entry.range.start.toUInt16.toNat offset = .ok entry.range.start := by
        rw [startPlace, CodeArray.place, if_neg (Nat.not_lt.mpr (Nat.le_trans ordered within))]
      have last : code.place (entry.range.start.toUInt16.toNat +
          (entry.range.stop - entry.range.start).toUInt16.toNat) offset = .ok entry.range.stop := by
        rw [startPlace, lengthPlace, Nat.add_sub_cancel' ordered, CodeArray.place,
          if_neg (Nat.not_lt.mpr within)]
      refine .bind_lift start.number (.bind_lift length.number ?_)
      refine .bind_lift (proper.textAt name) (.bind_lift (proper.textAt descriptor) ?_)
      refine .bind_lift slot.number (.bind_lift first (.bind_lift last ?_))
      have found : types[(entry.range.start.toUInt16, (entry.range.stop - entry.range.start).toUInt16,
          entry.range.slot)]? = entry.signature? := signed.1
      rw [found]
      exact (Emit.emits_tell _).bind (ih others signed.2 inside.2)

end ClassImage

/-! ### The first pass -/

namespace CodeBody

theorem getD_foldl_addLine (lines : List (Label × UInt16)) (known : Std.HashMap Label (Array UInt16))
    (place : Label) : ((lines.foldl addLine known).getD place #[]).toList =
      (known.getD place #[]).toList ++ (linesAt place lines).map Prod.snd := by
  induction lines generalizing known with
  | nil => simp [linesAt]
  | cons line rest ih =>
      rw [List.foldl_cons, ih, addLine, Std.HashMap.getD_alter, linesAt_cons]
      by_cases here : line.1 = place
      · subst here
        simp [Std.HashMap.getD_eq_getD_getElem?]
      · simp [here]

variable {body : CodeBody}

/-- A step that adds no lines changes no debug table. -/
theorem Adds.exists_extend {notes : Prop} {α : Type} {run : CodeBody → Except ClassError α}
    {result : CodeBody → α} {value : α} (adds : Adds False notes body.code run result)
    (ran : run body = .ok value) :
    ∃ added : Addition, added.lines = [] ∧ value = result (body.extend added) := by
  rcases adds with ⟨added, noLines, -, goesOn⟩
  rw [goesOn body rfl] at ran
  exact ⟨added, Decidable.not_not.mp noLines, (Except.ok.inj ran).symm⟩

end CodeBody

namespace ClassImage

open CodeBody

variable {image : ClassImage} {options : ReadOptions} {body later : CodeBody} {offset : Nat}

theorem lines_of_markLines {lines : List (Label × UInt16)}
    (stand : image.RowsAt offset (lines.map lineRow)) (small : ∀ line ∈ lines, line.1 ≤ 65535)
    (marked : image.markLines offset body lines.length = .ok later) :
    later.lines = lines.foldl addLine body.lines ∧ ∀ line ∈ lines, line.1 ∈ later.labels := by
  induction lines generalizing offset body with
  | nil =>
      cases marked
      exact ⟨rfl, by simp⟩
  | cons line rest ih =>
      rw [List.forall_mem_cons] at small ⊢
      rcases stand with ⟨⟨start, number, -⟩, others⟩
      simp only [List.length_cons, markLines, start.number, number.number, ok_bind, bind_eq_ok,
        toNat_toUInt16 small.1] at marked
      rcases marked with ⟨one, markedStart, behind⟩
      rcases marks_of_mark markedStart with ⟨marks, isLabel⟩
      rcases ih others small.2 behind with ⟨same, all⟩
      refine ⟨?_, (marks_of_markLines behind).labels _ isLabel, all⟩
      obtain rfl : one = body.extend { labels := [line.1] } :=
        Except.ok.inj (markedStart.symm.trans (mark_of_mark markedStart rfl))
      exact same

/-- What an attribute changes of the debug tables that the first pass finds. -/
structure Debugs (entry : RawAttribute) (body later : CodeBody) : Prop where
  lines : entry.kind? ≠ some .lineNumberTable → later.lines = body.lines
  locals : later.localVariables? =
    if entry.kind? = some .localVariableTable then some entry.offset else body.localVariables?
  types : later.variableTypes? =
    if entry.kind? = some .localVariableTypeTable then some entry.offset else body.variableTypes?

theorem debugs_extend {entry : RawAttribute} {added : Addition}
    (lines : entry.kind? ≠ some .lineNumberTable → added.lines = [])
    (locals : entry.kind? ≠ some .localVariableTable)
    (types : entry.kind? ≠ some .localVariableTypeTable) : Debugs entry body (body.extend added) where
  lines other := by rw [extend, lines other, List.foldl_nil]
  locals := (if_neg locals).symm
  types := (if_neg types).symm

theorem debugs_of_markAttribute {entry : RawAttribute} (asked : options.skipDebug = false)
    (marked : image.markAttribute options body entry = .ok later) : Debugs entry body later := by
  have same (locals : entry.kind? ≠ some .localVariableTable)
      (types : entry.kind? ≠ some .localVariableTypeTable) : Debugs entry body body :=
    extend_nothing body ▸ debugs_extend (fun _ => rfl) locals types
  unfold markAttribute at marked
  split at marked
  case h_7 isLocals isTypes _ _ _ =>
    cases marked
    exact { same isLocals isTypes with }
  all_goals rename_i kind
  · rw [asked] at marked
    simp only [Bool.false_eq_true, if_false, bind_eq_ok] at marked
    rcases marked with ⟨count, -, marked⟩
    rcases @adds_markLines image body.code body later _ _ True marked rfl with ⟨added, -, -, ran⟩
    obtain rfl := Except.ok.inj (marked.symm.trans (ran body rfl))
    exact debugs_extend (fun other => absurd kind other) (by simp [kind]) (by simp [kind])
  · rw [asked] at marked
    simp only [Bool.false_eq_true, if_false, bind_eq_ok, pure_eq_ok] at marked
    rcases marked with ⟨count, -, one, marked, rfl⟩
    have adds : Adds False True body.code (fun other => image.markVariables _ other _) id :=
      adds_markVariables marked rfl
    rcases adds.exists_extend marked with ⟨added, noLines, rfl⟩
    exact ⟨fun _ => by simp [extend, noLines], by simp [kind], by simp [kind, extend]⟩
  · rw [asked] at marked
    cases marked
    exact ⟨fun _ => rfl, by simp [kind], by simp [kind]⟩
  · split at marked
    · cases marked
      exact same (by simp [kind]) (by simp [kind])
    · simp only [bind_eq_ok, pure_eq_ok] at marked
      rcases marked with ⟨count, -, ⟨frames, one⟩, marked, rfl⟩
      have adds : Adds False True body.code (fun other => image.readFrames _ _ _ other _)
          fun other => (frames, other) := adds_readFrames marked rfl
      rcases adds.exists_extend marked with ⟨added, noLines, isOne⟩
      obtain rfl := (Prod.mk.inj isOne).2
      exact ⟨fun _ => by simp [extend, noLines], by simp [kind, extend], by simp [kind, extend]⟩
  all_goals
    split at marked
    · cases marked
      exact same (by simp [kind]) (by simp [kind])
    · simp only [bind_eq_ok] at marked
      rcases marked with ⟨count, -, marked⟩
      have adds : Adds False True body.code (fun other => image.markAnnotations _ _ other _) id :=
        adds_markAnnotations marked rfl
      rcases adds.exists_extend marked with ⟨added, noLines, rfl⟩
      exact debugs_extend (fun _ => noLines) (by simp [kind]) (by simp [kind])

/-- The entries of a kind among the attributes. -/
abbrev ofKind (kind : AttributeKind) (attributes : List RawAttribute) : List RawAttribute :=
  attributes.filter fun entry => entry.kind? = some kind

/-- Whether an attribute is a table of line numbers. -/
abbrev HasLines (image : ClassImage) (lines : List (Label × UInt16)) (entry : RawAttribute) : Prop :=
  image.HasRows entry.offset (lines.map lineRow)

/-- The line numbers of all tables among attributes are collected, one table after the other. -/
theorem lines_of_markAttributes {attributes : List RawAttribute} {tables : List (List (Label × UInt16))}
    (asked : options.skipDebug = false) (isMarked : body.IsMarked image)
    (stand : List.Forall₂ image.HasLines tables (ofKind .lineNumberTable attributes))
    (small : ∀ lines ∈ tables, ∀ line ∈ lines, line.1 ≤ 65535)
    (marked : attributes.foldlM (image.markAttribute options) body = .ok later) :
    later.lines = tables.flatten.foldl addLine body.lines ∧
      ∀ line ∈ tables.flatten, line.1 ∈ later.labels := by
  induction attributes generalizing body tables with
  | nil =>
      cases marked
      cases stand
      exact ⟨rfl, by simp⟩
  | cons entry rest ih =>
      simp only [List.foldlM_cons, bind_eq_ok] at marked
      rcases marked with ⟨one, markedEntry, markedRest⟩
      rcases continues_of_markAttribute isMarked markedEntry with ⟨-, isMarkedOne⟩
      have debugs := debugs_of_markAttribute asked markedEntry
      by_cases isLines : entry.kind? = some .lineNumberTable
      · rw [ofKind, List.filter_cons_of_pos (by simpa using isLines)] at stand
        rcases stand with _ | ⟨⟨count, counted, length, rows⟩, others⟩
        rw [List.forall_mem_cons] at small
        rw [markAttribute, isLines] at markedEntry
        simp only [asked, Bool.false_eq_true, if_false, counted, ok_bind, length, List.length_map]
          at markedEntry
        rcases lines_of_markLines rows small.1 markedEntry with ⟨same, labeled⟩
        rcases ih isMarkedOne others small.2 markedRest with ⟨sameRest, labeledRest⟩
        refine ⟨by rw [sameRest, same, List.flatten_cons, List.foldl_append], ?_⟩
        rw [List.flatten_cons, List.forall_mem_append]
        have grows := (continues_of_markAttributes isMarkedOne markedRest).1.labels
        exact ⟨fun line member => grows _ (labeled line member), labeledRest⟩
      · rw [ofKind, List.filter_cons_of_neg (by simpa using isLines)] at stand
        rw [← debugs.lines isLines]
        exact ih isMarkedOne stand small markedRest

/-- The last table of a kind counts. -/
theorem locals_of_markAttributes {attributes : List RawAttribute} (asked : options.skipDebug = false)
    (marked : attributes.foldlM (image.markAttribute options) body = .ok later) :
    later.localVariables? = ((RawAttribute.last? .localVariableTable attributes).map
        RawAttribute.offset).or body.localVariables? ∧
      later.variableTypes? = ((RawAttribute.last? .localVariableTypeTable attributes).map
        RawAttribute.offset).or body.variableTypes? := by
  induction attributes using List.reverseRecOn generalizing later with
  | nil =>
      cases marked
      exact ⟨rfl, rfl⟩
  | append_singleton rest entry ih =>
      simp only [List.foldlM_append, List.foldlM_cons, List.foldlM_nil, bind_eq_ok, pure_eq_ok]
        at marked
      rcases marked with ⟨between, markedRest, _, markedEntry, rfl⟩
      rcases ih markedRest with ⟨locals, types⟩
      have debugs := debugs_of_markAttribute asked markedEntry
      rw [debugs.locals, debugs.types, locals, types, RawAttribute.last?_concat,
        RawAttribute.last?_concat]
      constructor
      · split <;> rfl
      · split <;> rfl

end ClassImage

/-! ### The second pass -/

/-- Whether the places in the tables of a body are in code of the given length, no range ends in front of its
start, and no two local variables have the same range and slot. -/
structure BodyTables.FitIn (tables : BodyTables) (length : Nat) : Prop where
  handlers : ∀ block ∈ tables.handlers, ∀ label ∈ [block.start, block.stop, block.handler], label ≤ length
  lines : ∀ line ∈ tables.lines, line.1 ≤ length
  ranges : ∀ entry ∈ tables.locals, entry.range.start ≤ entry.range.stop ∧ entry.range.stop ≤ length
  once : (tables.locals.map LocalVariable.key).Nodup

namespace BodyTables

theorem ofEvents_append (events others : List Event) :
    ofEvents (events ++ others) = ofEvents events ++ ofEvents others := by
  ext1 <;> simp [ofEvents]

theorem ofEvents_eq_empty {events : List Event} (none : ∀ event ∈ events, event.tables = {}) :
    ofEvents events = {} := by
  induction events with
  | nil => rfl
  | cons event rest ih =>
      rw [List.forall_mem_cons] at none
      rw [ofEvents_cons, none.1, ih none.2]
      rfl

theorem ofEvents_handlers (blocks : List TryCatch) :
    ofEvents (blocks.map fun block => .methodItem (.tryCatch block)) = { handlers := blocks } := by
  ext1 <;> simp [ofEvents, Event.tables, List.flatMap_map]

theorem ofEvents_lines (lines : List (Label × UInt16)) :
    ofEvents (lines.map fun line => .methodItem (.instruction (.line line.2 line.1))) =
      { lines := lines } := by
  ext1 <;> simp [ofEvents, Event.tables, List.flatMap_map]

theorem ofEvents_locals (entries : List LocalVariable) :
    ofEvents (entries.map fun entry => .methodItem (.localVariable entry)) = { locals := entries } := by
  ext1 <;> simp [ofEvents, Event.tables, List.flatMap_map]

theorem append_lines (lines others : List (Label × UInt16)) :
    ({ lines := lines ++ others } : BodyTables) = { lines } ++ { lines := others } :=
  rfl

end BodyTables

namespace Item

theorem allEvents_event {α : Type} (values : List α) (told : α → Event) :
    allEvents (values.map fun value => .event (told value)) = values.map told := by
  induction values with
  | nil => rfl
  | cons value rest ih =>
      rw [List.map_cons, allEvents, ih]
      rfl

/-- Whether what an item tells is of no table of a body. -/
def TellsNoTable (item : Item) : Prop :=
  ∀ event ∈ item.events, event.tables = {}

theorem tellsNoTable_scope {opening : Opening} {body : List Item}
    (inside : ∀ item ∈ body, item.TellsNoTable) : (Item.scope opening body).TellsNoTable := by
  unfold TellsNoTable
  rw [events, List.forall_mem_cons, List.forall_mem_append, forall_mem_allEvents]
  exact ⟨rfl, inside, by simp [Event.tables]⟩

theorem IsValue.tellsNoTable {levels : Nat} {named : Bool} {item : Item}
    (isValue : item.IsValue levels named) : item.TellsNoTable := by
  induction isValue with
  | constant | enumeration => simp [TellsNoTable, events, Event.tables]
  | nested _ _ _ ih => exact tellsNoTable_scope ih
  | array _ _ ih => exact tellsNoTable_scope ih

/-- Handlers, line numbers and local variables are told in their turns. -/
theorem Fits.tellsNoTable {kinds : List AttributeKind} {item : Item} (fits : item.Fits kinds)
    (elsewhere : item.turn ∉ [.handler, .step, .variable]) : item.TellsNoTable := by
  cases item with
  | fault => simp [TellsNoTable, events]
  | event event =>
      unfold TellsNoTable
      rw [events, List.forall_mem_singleton]
      unfold Event.tables
      split
      · exact absurd (by simp [turn, MethodItem.turn]) elsewhere
      · exact absurd (by simp [turn, MethodItem.turn]) elsewhere
      · exact absurd (by simp [turn, MethodItem.turn]) elsewhere
      · rfl
  | scope opening body =>
      apply tellsNoTable_scope
      cases opening with
      | annotationDefault =>
          rcases fits with ⟨value, rfl, isValue⟩
          exact List.forall_mem_singleton.mpr isValue.tellsNoTable
      | _ => exact fun item member => (fits.2 item member).tellsNoTable

end Item

namespace Emit

variable {α β : Type} {first : Emit α} {second : α → Emit β} {tables others : BodyTables}

/-- Whether a producer, if it goes on, tells tables of a body. -/
abbrev GivesTables (tables : BodyTables) (emit : Emit α) : Prop :=
  Gives (fun items => BodyTables.ofEvents (Item.allEvents items) = tables) emit

theorem GivesTables.bind (here : GivesTables tables first)
    (next : ∀ value, GivesTables others (second value)) :
    GivesTables (tables ++ others) (first >>= second) := by
  refine Gives.bind here next ?_
  rintro items more rfl rfl
  rw [Item.allEvents_append, BodyTables.ofEvents_append]

theorem GivesTables.pure (value : α) : GivesTables {} (pure value) :=
  Gives.pure (P := fun items => BodyTables.ofEvents (Item.allEvents items) = {}) rfl value

/-- What tells of no table does not matter. -/
theorem GivesTables.then (silent : GivesTables {} first)
    (next : ∀ value, GivesTables tables (second value)) : GivesTables tables (first >>= second) :=
  silent.bind next

theorem GivesTables.of_each {emit : Emit α} (silent : GivesEach Item.TellsNoTable emit) :
    GivesTables {} emit :=
  silent.weaken fun _ none => BodyTables.ofEvents_eq_empty (Item.forall_mem_allEvents.mpr none)

theorem GivesTables.of_turn {emit : Emit α} {turn : Turn}
    (gives : Gives (AtTurn (Item.Fits AttributeKind.ofMethod) turn) emit)
    (elsewhere : turn ∉ [.handler, .step, .variable]) : GivesTables {} emit :=
  .of_each <| gives.weaken fun _ here item member =>
    (here.good item member).tellsNoTable (here.turn_eq item member ▸ elsewhere)

/-- Items that are told whatever comes before them. -/
theorem Emits.givesTables {emit : Emit α} {value : α} {items : List Item} (emits : Emits emit value items) :
    GivesTables (.ofEvents (Item.allEvents items)) emit := by
  intro before result after told
  rcases emits.tells_iff.mp told with ⟨rfl, rfl⟩
  exact ⟨items, rfl, rfl⟩

end Emit

namespace ClassImage

open Emit Item

variable {image : ClassImage} {options : ReadOptions} {body : CodeBody}
  {lines : List (Label × UInt16)}

theorem givesTables_notes (opening : CodeAnnotation → Opening) (notes : List CodeAnnotation) :
    GivesTables {} (notes.forM fun note => image.tellCodeAnnotation (opening note) note) := by
  refine .of_each (GivesEach.forM fun note _ => (gives_tellCodeNote _ note).weaken ?_)
  intro items scopes item member
  rcases scopes item member with ⟨inside, rfl, values⟩
  exact tellsNoTable_scope fun item member => (values item member).tellsNoTable

theorem givesTables_instruction {instruction : Instruction} (real : instruction.isReal = true) :
    GivesTables {} (tellInstruction instruction) := by
  refine Gives.tell ?_
  cases instruction
  case label | line => cases real
  all_goals rfl

theorem givesTables_tellFrames (position : Label) (frames : List (Label × Frame)) :
    GivesTables {} (tellFrames position frames) := by
  have none (told : List (Label × Frame)) : BodyTables.ofEvents (allEvents
      (told.map fun entry => .event (.methodItem (.instruction (.frame entry.2))))) = {} := by
    rw [allEvents_event]
    refine BodyTables.ofEvents_eq_empty fun event member => ?_
    rcases List.mem_map.mp member with ⟨entry, -, rfl⟩
    rfl
  exact none _ ▸ (emits_tellFrames position frames).givesTables

/-- The second pass goes from place to place. -/
theorem Reads.pairwise_places {api : Api} {code : CodeArray} {pc : Nat}
    {entries : List (Label × Instruction)} (reads : Reads image api code code.stop pc entries)
    (begun : code.start ≤ pc) : (entries.map Prod.fst).Pairwise (· < ·) := by
  induction reads with
  | done => exact .nil
  | @step pc _ _ _ inside wellFormed read others ih =>
      have longer := lt_of_readInstruction read
      have behind := others.le_place (by omega)
      refine List.pairwise_cons.mpr ⟨?_, ih (by omega)⟩
      rw [List.forall_mem_map]
      intro entry member
      have later := behind entry member
      have less : pc - code.start < entry.1 := by omega
      exact less

section Collected

variable (collected : ∀ place, (body.lines.getD place #[]).toList = (linesAt place lines).map Prod.snd)
  (labeled : ∀ line ∈ lines, line.1 ∈ body.labels)
include collected labeled

/-- At a place its line numbers are told. -/
theorem givesTables_tellLabel (position : Label) :
    GivesTables { lines := linesAt position lines } (tellLabel body position) := by
  unfold tellLabel
  split
  · have same : linesAt position lines =
        (body.lines.getD position #[]).toList.map fun line => (position, line) := by
      rw [collected, List.map_map]
      symm
      refine (List.map_congr_left fun line member => ?_).trans (List.map_id _)
      rw [Function.comp_apply, ← (mem_linesAt.mp member).2]
      rfl
    have emits : Emits ((body.lines.getD position #[]).toList.forM fun line =>
        tellInstruction (.line line position)) () _ := emits_forM fun line _ => emits_tell _
    have gives := emits.givesTables
    rw [allEvents_event] at gives
    have told := BodyTables.ofEvents_lines (linesAt position lines)
    rw [same, List.map_map] at told
    refine GivesTables.then (Gives.tell rfl) fun _ => ?_
    rw [same]
    exact told ▸ gives
  · rename_i unmarked
    have none : linesAt position lines = [] := by
      refine List.filter_eq_nil_iff.mpr fun line member same => unmarked ?_
      rw [← of_decide_eq_true same]
      exact Std.HashSet.contains_iff_mem.mpr (labeled line member)
    rw [none]
    exact GivesTables.pure _

/-- The second pass tells the line numbers place by place. -/
theorem Reads.givesTables_tellInstructions {api : Api} {pc : Nat} {entries : List (Label × Instruction)}
    {annotations : Std.HashMap Label (Array CodeAnnotation)} {frames : List (Label × Frame)}
    (reads : Reads image api body.code body.code.stop pc entries) (begun : body.code.start ≤ pc)
    (fuel : Nat) :
    GivesTables { lines := entries.flatMap fun entry => linesAt entry.1 lines }
      (image.tellInstructions api body annotations pc frames fuel) := by
  induction fuel generalizing pc entries frames with
  | zero =>
      unfold ClassImage.tellInstructions
      split
      · exact Gives.throw _
      · rename_i outside
        cases reads with
        | done => exact GivesTables.pure _
        | step inside => exact absurd inside outside
  | succ fuel ih =>
      unfold ClassImage.tellInstructions
      cases reads with
      | done =>
          rw [if_neg (Nat.lt_irrefl _)]
          exact GivesTables.pure _
      | @step _ next instruction rest inside wellFormed read others =>
          rw [if_pos inside, List.flatMap_cons, BodyTables.append_lines]
          have longer := lt_of_readInstruction read
          refine Gives.bind_lift fun position found => ?_
          obtain rfl := (CodeArray.position_eq_ok.mp found).2
          refine (givesTables_tellLabel collected labeled _).bind fun _ => ?_
          refine GivesTables.then (givesTables_tellFrames _ frames) fun left => ?_
          refine Gives.bind_lift fun both readAgain => ?_
          cases read.symm.trans readAgain
          refine GivesTables.then (givesTables_instruction (fits_of_readInstruction read).1) fun _ => ?_
          refine GivesTables.then (givesTables_notes _ _) fun _ => ?_
          exact ih others (by omega)

/-- The body of a method is told with the line numbers of those places where an instruction starts. -/
theorem Reads.givesTables_parts {entry : RawAttribute} {entries : List (Label × Instruction)}
    {handlers : List TryCatch} {locals : List LocalVariable}
    (reads : Reads image options.api body.code body.code.stop body.code.start entries)
    (found : image.codeBody options entry = .ok body)
    (givesHandlers : GivesTables { handlers }
      (image.tellHandlers body.code body.handlersOffset body.handlers))
    (givesLocals : GivesTables { locals } (image.tellVariableTable body)) :
    GivesTables { handlers, lines := entries.flatMap fun entry => linesAt entry.1 lines, locals }
      (image.tellCode options entry) := by
  have isMarked := (codeBody_marks found).1
  have rest : GivesTables { locals } (do
      image.tellVariableTable body
      image.tellVariableAnnotations body entry.offset
      image.tellOthers options true body.common
      tellItem (.maxs body.maxStack body.maxLocals)) := by
    rw [← BodyTables.append_empty { locals }]
    refine givesLocals.bind fun _ => ?_
    refine GivesTables.then (.of_turn (gives_tellVariableAnnotations isMarked _) (by decide)) fun _ => ?_
    refine GivesTables.then (.of_each (GivesEach.forM fun _ _ => Gives.bind_lift fun _ _ =>
      GivesEach.tell ?_)) fun _ => Gives.tell rfl
    simp [TellsNoTable, events, Event.tables]
  refine Gives.bind_lift fun other foundAgain => ?_
  cases found.symm.trans foundAgain
  refine GivesTables.then (Gives.tell rfl) fun _ => ?_
  rw [show ({ handlers, lines := entries.flatMap fun entry => linesAt entry.1 lines, locals } : BodyTables) =
    { handlers } ++ ({ lines := entries.flatMap fun entry => linesAt entry.1 lines } ++ { locals }) by
      ext1 <;> simp]
  refine givesHandlers.bind fun _ => ?_
  refine GivesTables.then (.of_turn (gives_tellHandlerAnnotations isMarked) (by decide)) fun _ => ?_
  refine (reads.givesTables_tellInstructions collected labeled (Nat.le_refl _) _).bind fun _ => ?_
  dsimp only
  split
  · exact GivesTables.then (Gives.tell rfl) fun _ => rest
  · exact rest

end Collected

/-- Whether the first pass has found the debug tables of a body. -/
structure FindsDebug (image : ClassImage) (body : CodeBody) (tables : BodyTables) : Prop where
  lines : ∀ place, (body.lines.getD place #[]).toList = (linesAt place tables.lines).map Prod.snd
  labeled : ∀ line ∈ tables.lines, line.1 ∈ body.labels
  locals : body.localVariables?.elim ((tables.locals.map fun entry => entry.row entry.descriptor) = [])
    fun offset => image.HasRows offset (tables.locals.map fun entry => entry.row entry.descriptor)
  types : body.variableTypes?.elim (tables.locals.flatMap LocalVariable.typeRows = []) fun offset =>
    image.HasRows offset (tables.locals.flatMap LocalVariable.typeRows)

/-- Whether the first pass has found all tables of a body. -/
structure FindsTables (image : ClassImage) (body : CodeBody) (tables : BodyTables) : Prop
    extends FindsDebug image body tables where
  count : body.handlers = tables.handlers.length
  handlers : image.RowsAt body.handlersOffset (tables.handlers.map TryCatch.row)

section Finds

variable {tables : BodyTables} (proper : image.IsProper) (small : body.code.length ≤ 65535)
  (finds : image.FindsTables body tables) (fit : tables.FitIn body.code.length)
include proper small finds fit

/-- Local variables are told as they stand in the table, with their signatures. -/
theorem emits_tellVariableTable : (image.tellVariableTable body).Emits ()
    (tables.locals.map fun entry => .event (.methodItem (.localVariable entry))) := by
  have locals := finds.locals
  have types := finds.types
  unfold tellVariableTable
  cases isTable : body.localVariables? with
  | none =>
      rw [isTable, Option.elim_none, List.map_eq_nil_iff] at locals
      rw [locals]
      exact emits_pure ()
  | some offset =>
      rw [isTable, Option.elim_some] at locals
      rcases locals with ⟨count, counted, length, rows⟩
      have signed := @LocalVariable.getElem?_addTypes ∅ _ fit.once fun _ _ =>
        Std.HashMap.getElem?_empty
      have tells : Emits (do
          let count ← image.input.u16 offset
          image.tellVariables body.code (LocalVariable.addTypes ∅ tables.locals) (offset + 2)
            count.toNat) () (tables.locals.map fun entry => .event (.methodItem (.localVariable entry))) := by
        refine .bind_lift counted ?_
        rw [length, List.length_map]
        exact emits_tellVariables proper small rows signed fit.ranges
      cases isTypes : body.variableTypes? with
      | none =>
          rw [isTypes, Option.elim_none] at types
          have read := @variableTypes_eq_ok image 0 tables.locals proper (types ▸ trivial) ∅
          rw [types] at read
          rw [← Except.ok.inj read] at tells
          exact tells
      | some place =>
          rw [isTypes, Option.elim_some] at types
          rcases types with ⟨typeCount, typesCounted, typeLength, typeRows⟩
          have read := variableTypes_eq_ok proper typeRows ∅
          rw [← typeLength] at read
          exact .bind_lift typesCounted (.bind_lift read tells)

/-- The body of a method is told with its tables, the line numbers in the order of their places. -/
theorem Reads.givesTables_tellCode {entry : RawAttribute} {entries : List (Label × Instruction)}
    (found : image.codeBody options entry = .ok body)
    (reads : Reads image options.api body.code body.code.stop body.code.start entries)
    (started : ∀ line ∈ tables.lines, line.1 ∈ entries.map Prod.fst) :
    GivesTables { tables with lines := linesByPlace tables.lines } (image.tellCode options entry) := by
  have handlers : GivesTables { handlers := tables.handlers }
      (image.tellHandlers body.code body.handlersOffset body.handlers) := by
    have gives := (emits_tellHandlers proper small finds.handlers fit.handlers).givesTables
    rwa [allEvents_event, BodyTables.ofEvents_handlers, ← finds.count] at gives
  have locals : GivesTables { locals := tables.locals } (image.tellVariableTable body) := by
    have gives := (emits_tellVariableTable proper small finds fit).givesTables
    rwa [allEvents_event, BodyTables.ofEvents_locals] at gives
  have gives := reads.givesTables_parts finds.lines finds.labeled found handlers locals
  rwa [← List.flatMap_map Prod.fst fun place => linesAt place tables.lines,
    flatMap_linesAt (reads.pairwise_places (Nat.le_refl _)) started] at gives

end Finds

end ClassImage

/-! ### Tables in the bytes of a body -/

/-- A reader that sorts attributes finds the rows of a table, if there are any. -/
theorem AttributeKind.HoldsRows.finds {image : ClassImage} {kind : AttributeKind} {rows : List (List Slot)}
    {named : List NamedAttribute} {attributes : List RawAttribute}
    (holds : kind.HoldsRows rows named image.pool)
    (stand : List.Forall₂ (ClassImage.StandsAs image) named attributes) :
    (rows = [] ∧ ClassImage.ofKind kind attributes = []) ∨
      ∃ entry, ClassImage.ofKind kind attributes = [entry] ∧ image.HasRows entry.offset rows := by
  rcases holds with ⟨table, spells, only⟩
  have ofKind := List.rel_filter (R := ClassImage.StandsAs image)
    (p := fun written => decide (written.name = kind.text))
    (q := fun entry => decide (entry.kind? = some kind))
    (fun written entry same => by simpa using (same.kind kind).symm) stand
  rw [only] at ofKind
  cases isEmpty : table.isEmpty with
  | true =>
      rw [isEmpty, if_pos rfl] at ofKind
      exact .inl ⟨spells.isEmpty_iff.mp isEmpty, List.forall₂_nil_left_iff.mp ofKind⟩
  | false =>
      rw [isEmpty, if_neg Bool.false_ne_true] at ofKind
      rcases List.forall₂_cons_left_iff.mp ofKind with ⟨entry, others, stands, none, same⟩
      rw [List.forall₂_nil_left_iff.mp none] at same
      refine .inr ⟨entry, same, ClassImage.hasRows_of_hasAt spells ?_⟩
      simpa [Table.toOutput] using stands.held

theorem AttributeKind.HoldsRows.last {image : ClassImage} {kind : AttributeKind} {rows : List (List Slot)}
    {named : List NamedAttribute} {attributes : List RawAttribute}
    (holds : kind.HoldsRows rows named image.pool)
    (stand : List.Forall₂ (ClassImage.StandsAs image) named attributes) :
    ((RawAttribute.last? kind attributes).map RawAttribute.offset).elim (rows = [])
      fun offset => image.HasRows offset rows := by
  change ((ClassImage.ofKind kind attributes).getLast?.map RawAttribute.offset).elim _ _
  rcases holds.finds stand with ⟨none, absent⟩ | ⟨entry, only, rows⟩
  · rw [absent]
    exact none
  · rw [only]
    exact rows

namespace ClassImage

open CodeBody

variable {image : ClassImage} {options : ReadOptions} {body : CodeBody} {entry : RawAttribute}
  {tables : BodyTables} {named : List NamedAttribute}

theorem findsDebug_of_markAttributes {one : CodeBody} {attributes : List RawAttribute}
    (asked : options.skipDebug = false) (isMarked : one.IsMarked image)
    (noLines : one.lines = ∅) (noLocals : one.localVariables? = none) (noTypes : one.variableTypes? = none)
    (stand : tables.StandIn named image.pool) (small : ∀ line ∈ tables.lines, line.1 ≤ 65535)
    (listed : List.Forall₂ (StandsAs image) named attributes)
    (marked : attributes.foldlM (image.markAttribute options) one = .ok body) :
    image.FindsDebug body tables := by
  have lines : body.lines = tables.lines.foldl addLine ∅ ∧ ∀ line ∈ tables.lines, line.1 ∈ body.labels := by
    rw [← noLines]
    rcases stand.lines.finds listed with ⟨none, absent⟩ | ⟨entry, only, rows⟩
    · have found : List.Forall₂ image.HasLines [] (ofKind .lineNumberTable attributes) := absent ▸ .nil
      rw [List.map_eq_nil_iff.mp none]
      exact lines_of_markAttributes asked isMarked found (by simp) marked
    · have found : List.Forall₂ image.HasLines [tables.lines] (ofKind .lineNumberTable attributes) :=
        only ▸ .cons rows .nil
      have whole := lines_of_markAttributes asked isMarked found (by simpa using small) marked
      rwa [List.flatten_singleton] at whole
  rcases locals_of_markAttributes asked marked with ⟨locals, types⟩
  rw [noLocals, Option.or_none] at locals
  rw [noTypes, Option.or_none] at types
  refine ⟨fun place => ?_, lines.2, ?_, ?_⟩
  · rw [lines.1, getD_foldl_addLine, Std.HashMap.getD_empty, List.nil_append]
  · exact locals ▸ stand.locals.last listed
  · exact types ▸ stand.types.last listed

/-- What the first pass finds in front of the attributes. -/
theorem codeBody_parts (found : image.codeBody options entry = .ok body) :
    ∃ (length : UInt32) (count : UInt16) (one : CodeBody) (attributes : List RawAttribute) (stop : Nat),
      image.input.u32 (entry.offset + 4) = .ok length ∧ body.code = ⟨entry.offset + 8, length.toNat⟩ ∧
      image.input.u16 body.code.stop = .ok count ∧ body.handlers = count.toNat ∧
      rawAttributes image.pool (body.handlersOffset + body.handlers * 8) = .ok (attributes, stop) ∧
      one.IsMarked image ∧ one.lines = ∅ ∧ one.localVariables? = none ∧ one.variableTypes? = none ∧
      attributes.foldlM (image.markAttribute options) one = .ok body := by
  simp only [codeBody, bind_eq_ok] at found
  rcases found with ⟨maxStack, -, maxLocals, -, length, readLength, found⟩
  split at found
  · cases found
  simp only [bind_eq_ok] at found
  rcases found with ⟨⟨labels, last⟩, -, found⟩
  split at found
  · cases found
  simp only [bind_eq_ok] at found
  rcases found with ⟨count, counted, one, marksHandlers, ⟨attributes, stop⟩, listed, marked⟩
  obtain ⟨first, isFirst⟩ : ∃ first : CodeBody, first =
      { maxStack, maxLocals, code := ⟨entry.offset + 8, length.toNat⟩, labels,
        handlers := count.toNat } := ⟨_, rfl⟩
  rw [← isFirst] at marksHandlers
  have adds : Adds False True first.code
      (fun other => image.markHandlers first.handlersOffset other count.toNat) id :=
    adds_markHandlers marksHandlers rfl
  rcases adds.exists_extend marksHandlers with ⟨added, noLines, rfl⟩
  have isMarked : (first.extend added).IsMarked image := by
    refine (marks_of_markHandlers marksHandlers).1.isMarked ?_
    rw [isFirst]
    exact ⟨by simp [FramesMarked], by simp, by simp⟩
  have continues := (continues_of_markAttributes isMarked marked).1
  have isCode : body.code = ⟨entry.offset + 8, length.toNat⟩ := by
    rw [continues.code, isFirst]
    rfl
  have handlers : body.handlers = count.toNat := by
    rw [continues.handlers, isFirst]
    rfl
  refine ⟨length, count, first.extend added, attributes, stop, readLength, isCode, isCode ▸ counted,
    handlers, ?_, isMarked, ?_, ?_, ?_, marked⟩
  · rw [handlers, handlersOffset, continues.code]
    exact listed
  all_goals rw [isFirst]
  · rw [extend, noLines]
    rfl
  · rfl
  · rfl

/-- The tables that stand in the bytes of a body are found there. -/
theorem findsTables_of_codeBody (asked : options.skipDebug = false) (proper : image.IsProper)
    (found : image.codeBody options entry = .ok body) {maxStack maxLocals : UInt16} {code : List UInt8}
    {handlers attributes : Table}
    (held : image.input.HasAt entry.offset (bigEndian16 maxStack ++ (bigEndian16 maxLocals ++
      (bigEndian32 code.length.toUInt32 ++ (code ++
        ((bigEndian16 handlers.count ++ Pieces.toList handlers.entries) ++
          (bigEndian16 attributes.count ++ Pieces.toList attributes.entries)))))))
    (small : code.length ≤ 65535)
    (handlersSpelled : handlers.Spells (Slot.Spells image.pool) (tables.handlers.map TryCatch.row))
    (attributesSpelled : attributes.Spells (NamedAttribute.Spells image.pool) named)
    (stand : tables.StandIn named image.pool) (placed : ∀ line ∈ tables.lines, line.1 ≤ code.length) :
    body.code = ⟨entry.offset + 8, code.length⟩ ∧ image.FindsTables body tables := by
  have size : code.length.toUInt32.toNat = code.length := by
    rw [Nat.toUInt32_eq, UInt32.toNat_ofNat']
    omega
  have width : (Pieces.toList handlers.entries).length = 8 * tables.handlers.length := by
    have four : ∀ row ∈ tables.handlers.map TryCatch.row, row.length = 4 := by simp [TryCatch.row]
    rw [Slot.length_of_spellsAll handlersSpelled.entries four, List.length_map]
  have lengthHeld := held.right.right.left
  have handlersHeld := held.right.right.right.right.left
  have attributesHeld := held.right.right.right.right.right
  simp only [length_bigEndian16, length_bigEndian32] at lengthHeld handlersHeld
  simp only [length_bigEndian16, length_bigEndian32, List.length_append, width] at attributesHeld
  rcases codeBody_parts found with ⟨length, count, one, raws, stop, readLength, isCode, counted, isCount,
    listed, isMarked, noLines, noLocals, noTypes, marked⟩
  obtain rfl := Except.ok.inj (lengthHeld.u32.symm.trans readLength)
  rw [size] at isCode
  rcases hasRows_of_hasAt handlersSpelled handlersHeld with ⟨again, countedAgain, number, rows⟩
  have stopPlace : body.code.stop = entry.offset + 2 + 2 + 4 + code.length := by
    rw [isCode]
    rfl
  rw [stopPlace] at counted
  obtain rfl := Except.ok.inj (counted.symm.trans countedAgain)
  rw [List.length_map, ← isCount] at number
  have attributesPlace : body.handlersOffset + body.handlers * 8 =
      entry.offset + 2 + 2 + 4 + code.length + (2 + 8 * tables.handlers.length) := by
    rw [handlersOffset, stopPlace, number]
    omega
  rw [← attributesPlace, ← proper.input] at attributesHeld
  rcases exists_rawAttributes attributesSpelled attributesHeld with ⟨others, listedToo, standAs⟩
  rw [listed, Except.ok.injEq, Prod.mk.injEq] at listedToo
  rcases listedToo with ⟨rfl, -⟩
  have debug := findsDebug_of_markAttributes asked isMarked noLines noLocals noTypes stand
    (fun line member => Nat.le_trans (placed line member) small)
    (standAs image proper.input.symm rfl) marked
  refine ⟨isCode, { debug with count := number, handlers := ?_ }⟩
  rw [handlersOffset, stopPlace]
  exact rows

end ClassImage

end ClassFile
