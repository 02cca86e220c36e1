import ClassFile.Proofs.Tables.Reading

/-!
# Reading the tables of a body that was written

What a body was told of exception handlers, line numbers and local variables is told again when the bytes
are read that it was written as (`BodyRun.tables_written`).  Labels are told as the places where they were
laid out, and line numbers in the order of these places.
-/

namespace ClassFile

namespace BodyTables

/-- The tables with the line numbers in the order of their places. -/
def byPlace (tables : BodyTables) : BodyTables :=
  { tables with lines := linesByPlace tables.lines }

/-- Whether local variables whose labels are places can be told again: no range ends in front of its start,
and no two have the same start, length and slot. -/
structure AreDistinct (tables : BodyTables) : Prop where
  ordered : ∀ entry ∈ tables.locals, entry.range.start ≤ entry.range.stop
  once : (tables.locals.map LocalVariable.key).Nodup

end BodyTables

/-- The places of labels are in the code. -/
theorem BodyTables.fitIn_relabel {tables : BodyTables} {layout : CodeLayout} (bounded : layout.IsBounded)
    (known : ∀ label ∈ tables.labels, layout.offsets.place? label = some (layout.placeOf label))
    (distinct : (tables.relabel layout.placeOf).AreDistinct) :
    (tables.relabel layout.placeOf).FitIn layout.code.size := by
  have inside : ∀ label ∈ tables.labels, layout.placeOf label ≤ layout.code.size :=
    fun label member => bounded.place_le (known label member)
  simp only [labels, List.forall_mem_append, List.forall_mem_flatMap, List.forall_mem_map] at inside
  rcases inside with ⟨⟨handlers, lines⟩, locals⟩
  refine ⟨?_, ?_, ?_, distinct.once⟩
  · simpa [relabel, TryCatch.relabel] using handlers
  · intro line member
    rcases List.mem_map.mp member with ⟨original, isOriginal, rfl⟩
    exact lines original isOriginal
  · intro entry member
    refine ⟨distinct.ordered entry member, ?_⟩
    rcases List.mem_map.mp member with ⟨original, isOriginal, rfl⟩
    exact locals original isOriginal original.range.stop (by simp [LabelRange.labels])

/-- A run in which a body is recorded, with whatever else is told inside its method, and then written; other
parts of the class are added to the pool before and after. -/
structure BodyRun where
  seed? : Option Pool
  first : PoolBuilder
  starts : PoolBuilder.Starts seed? first
  builder : PoolBuilder
  before : first.LeadsTo builder
  draft : ClassDraft
  closed : draft.depth = 0
  method : MethodDraft
  isOpen : draft.member = .method method
  fresh : method.code? = none
  events : List Event
  /-- Annotations are opened and closed in turn. -/
  belongs : Event.depthBehindAll 0 events = some 0
  later : ClassDraft
  between : PoolBuilder
  recorded : Draft.on (events.forM ClassDraft.record) (draft, builder) = (.ok (), later, between)
  told : MethodDraft
  stays : later.member = .method told
  whole : AttributeTable
  output : Output
  wholeAfter : AttributeTable
  next : PoolBuilder
  written : Draft.on (told.code.write told.name) (whole, between) = (.ok output, wholeAfter, next)
  last : PoolBuilder
  after : next.LeadsTo last

namespace BodyRun

/-- The tables that the body was told. -/
def tables (run : BodyRun) : BodyTables :=
  .ofEvents run.events

/-- The instructions and labels that the body was told. -/
def parts (run : BodyRun) : List Instruction :=
  run.events.flatMap Event.codeParts

/-- Whether the label of every line number is visited in front of an instruction. -/
def StartsLines (run : BodyRun) : Prop :=
  ∀ line ∈ run.tables.lines, ∃ instruction, instruction.isReal = true ∧
    [.label line.1, instruction].Sublist run.parts

/-- Whether an input holds the pool of the class, the table of its bootstrap methods at `bootstraps`
and the body at `offset`. -/
structure IsIn (run : BodyRun) (input : Input) (bootstraps offset : Nat) : Prop where
  pool : input.HasAt 8 (run.last.write .empty).toList
  bootstraps : input.HasAt bootstraps (run.last.writeBootstraps .empty).toList
  body : input.HasAt offset run.output.toList

section Survive

variable (run : BodyRun) (survive : ∀ event ∈ run.events, event.TextsSurvive)
  (counted : ∀ element, .methodItem (.instruction element) ∈ run.events → element.IsCounted)
  (apart : ∀ entry, .attribute entry ∈ run.events → entry.inCode = true → entry.IsNoTable)
include survive counted apart

open CodeDraft in
/-- The parts of the body are kept, and the pool at the end of a run knows what the rows of its tables stand
for. -/
theorem exists_rows : ∃ content, run.last.Holds content ∧ ∀ pool : Pool, pool.Has content →
    List.Forall₂ Instruction.IsKeptAs run.parts run.told.code.items.reverse ∧
    ∃ layout handlers attributes named,
      WritesBody run.told.name run.told.code run.tables layout handlers attributes named pool ∧
        run.output = attributes.write (handlers.write (((Output.empty.u16 run.told.code.maxStack).u16
          run.told.code.maxLocals).u32 layout.code.size.toUInt32 |>.append layout.code)) := by
  rcases run.starts.holds with ⟨seedContent, holdsFirst, -⟩
  rcases run.before.added holdsFirst with ⟨content, added⟩
  have starts (pool : Pool) : ClassDraft.InBody [] {} 0 run.draft pool := by
    refine ⟨run.closed, run.method, run.isOpen, ?_⟩
    rw [MethodDraft.TellsTables, MethodDraft.code, run.fresh]
    exact CodeDraft.tells_empty pool
  rcases ClassDraft.runs_recordAll run.belongs survive counted apart run.draft run.builder content added.holds
    (fun pool _ => starts pool) _ _ _ run.recorded with ⟨recordedContent, addedEvents, tells⟩
  have inBody (pool : Pool) (has : pool.Has recordedContent) : run.told.code.Tells run.parts run.tables pool := by
    rcases tells pool has with ⟨-, method, isMethod, tells⟩
    rw [run.stays] at isMethod
    cases isMethod
    rwa [List.nil_append, BodyTables.empty_append] at tells
  rcases @runs_write_rows run.parts run.tables run.told.code AttributeTable (fun _ _ => True) run.told.name
    run.whole run.between recordedContent addedEvents.holds (fun pool has => ⟨trivial, inBody pool has⟩)
    _ _ _ run.written with ⟨writtenContent, addedWritten, written⟩
  rcases run.after.added addedWritten.holds with ⟨later, addedLater⟩
  refine ⟨later, addedLater.holds, fun pool has => ⟨?_, ?_⟩⟩
  · exact (inBody pool (has.mono (addedWritten.contentGrows.trans addedLater.contentGrows))).items
  · exact (written pool (has.mono addedLater.contentGrows)).2

open ClassImage in
/-- The tables of a body that is written are told again: the exception handlers in their order, the line
numbers in the order of their places, those of one place in their order, and the local variables in their
order, each with the signature that it had, if it had one.  A label is told as its place, which it has. -/
theorem tables_written (started : run.StartsLines) {options : ReadOptions}
    (asked : options.skipDebug = false) :
    ∃ layout, CodeLayout.ofItems run.told.name run.told.code.items.reverse = .ok layout ∧
      (∀ label ∈ run.tables.labels, layout.offsets.place? label = some (layout.placeOf label)) ∧
      ((run.tables.relabel layout.placeOf).AreDistinct →
        ∀ {input : Input} {bootstraps offset : Nat}, run.IsIn input bootstraps offset →
          ∃ parsed pool, Pool.ofInput? input = .ok parsed ∧
            parsed.withBootstrapMethods bootstraps = .ok pool ∧
            ∀ image : ClassImage, image.input = input → image.pool = pool →
              ∀ (entry : RawAttribute) (script : Script), entry.offset = offset →
                (image.tellCode options entry).collect = (script, .ok ()) →
                  BodyTables.ofEvents (Item.allEvents script) =
                    (run.tables.relabel layout.placeOf).byPlace) := by
  rcases run.exists_rows survive counted apart with ⟨content, holds, known⟩
  rcases holds.exists_pool with ⟨anyPool, same⟩
  rcases known anyPool same.has with ⟨kept, layout, _, _, _, anyRows, -⟩
  have jumps := CodeLayout.jumps_of_kept kept
  have starts := CodeLayout.position_zero jumps anyRows.laidOut
  have faithful := CodeLayout.faithful_ofItems jumps anyRows.laidOut
  have bounded := CodeLayout.isBounded_of_ofItems anyRows.laidOut
  refine ⟨layout, anyRows.laidOut, anyRows.known, fun distinct {input bootstraps offset} isIn => ?_⟩
  rcases holds.parses isIn.pool isIn.bootstraps with ⟨parsed, pool, read, readMethods, -, same⟩
  refine ⟨parsed, pool, read, readMethods, ?_⟩
  rintro image rfl rfl entry script rfl collected
  have sameInput : image.pool.input = image.input :=
    (Pool.input_of_withBootstrapMethods readMethods).trans (Pool.input_of_ofInput? read)
  have isProper := isProper_of_matches sameInput same
  rcases known image.pool same.has with ⟨-, other, handlers, attributes, named, rows, bytes⟩
  obtain rfl : layout = other := Except.ok.inj (anyRows.laidOut.symm.trans rows.laidOut)
  have fit := BodyTables.fitIn_relabel bounded rows.known distinct
  have size : layout.code.size = layout.code.toList.length := Output.size_eq_length _
  have small : layout.code.toList.length ≤ 65535 := size ▸ bounded.size_le
  have held := isIn.body
  rw [bytes] at held
  simp only [Table.toList_write, Output.toList_append, Output.toList_u16, Output.toList_u32,
    Output.toList_empty, List.nil_append, List.append_assoc, size] at held
  rcases told_of_tellCode (Emit.collect_eq_ok.mp collected) with ⟨body, entries, _, found, reads, -⟩
  rcases findsTables_of_codeBody asked isProper found held small rows.handlers rows.attributes
    rows.stand (fun line member => size ▸ fit.lines line member) with ⟨isCode, finds⟩
  rw [← size] at isCode small
  have fits : body.code.length = layout.code.size := by rw [isCode]
  have codeHeld : image.input.HasAt body.code.start layout.code.toList := by
    have whole := held.right.right.right.left
    simp only [length_bigEndian16, length_bigEndian32] at whole
    rw [isCode]
    exact whole
  have startsAt : ∀ line ∈ (run.tables.relabel layout.placeOf).lines, line.1 ∈ entries.map Prod.fst := by
    intro line member
    rcases List.mem_map.mp member with ⟨original, isOriginal, rfl⟩
    rcases started original isOriginal with ⟨instruction, real, behind⟩
    rcases faithful.exists_position kept behind real with ⟨visit, inside, place, before⟩
    have boundary := faithful.isBoundary_position kept starts codeHeld fits reads inside
    rcases List.mem_append.mp (reads.isBoundary_iff.mp boundary) with isStart | isEnd
    · rwa [Prod.map_fst, place]
    · exact absurd ((List.mem_singleton.mp isEnd).trans fits) (Nat.ne_of_lt before)
  rcases reads.givesTables_tellCode isProper (fits ▸ small) finds (fits ▸ fit) found startsAt
    (Emit.collect_eq_ok.mp collected) with ⟨items, all, told⟩
  obtain rfl : script = items := by simpa using all
  exact told

end Survive

end BodyRun

/-! ### Pools of texts -/

/-- A builder of a pool with texts alone. -/
def PoolBuilder.ofTexts (texts : List Text) : PoolBuilder :=
  texts.foldl (fun builder text => builder.push (.utf8 text)) .empty

namespace PoolBuilder

variable {texts : List Text}

theorem ofTexts_concat (text : Text) : ofTexts (texts ++ [text]) = (ofTexts texts).push (.utf8 text) := by
  rw [ofTexts, List.foldl_append]
  rfl

theorem getElem?_ofTexts {text : Text} (fresh : text ∉ texts) :
    (ofTexts texts).indices[PoolKey.utf8 text]? = none := by
  induction texts using List.reverseRecOn with
  | nil => exact Std.HashMap.getElem?_empty
  | append_singleton texts last ih =>
      rw [List.mem_append, List.mem_singleton, not_or] at fresh
      rw [ofTexts_concat, push, Std.HashMap.getElem?_insert,
        if_neg (by simpa using fun same => fresh.2 same.symm)]
      exact ih fresh.1

theorem count_ofTexts : (ofTexts texts).count = (texts.length + 1).toUInt16 := by
  induction texts using List.reverseRecOn with
  | nil => rfl
  | append_singleton texts last ih =>
      rw [ofTexts_concat, push, ih]
      simp [PoolKey.width, PoolKey.tag, PoolTag.isWide]

/-- Texts that are added in turn get the indices in turn. -/
theorem on_text_take (distinct : texts.Nodup) (few : texts.length < 65535)
    (short : ∀ text ∈ texts, text.encode.length ≤ 65535) (place : Fin texts.length) :
    (text texts[place]).on (ofTexts (texts.take place)) =
      (.ok (place.val + 1).toUInt16, ofTexts (texts.take (place + 1))) := by
  have fresh : texts[place] ∉ texts.take place := by
    rw [List.mem_take_iff_getElem]
    rintro ⟨earlier, before, same⟩
    have := (distinct.getElem_inj_iff).mp same
    omega
  have length : (texts.take place).length = place := List.length_take_of_le (Nat.le_of_lt place.2)
  have added := @on_add_new (.utf8 texts[place]) _ (getElem?_ofTexts fresh) ?_ ?_
  · rw [text, added, count_ofTexts, length, ← List.take_append_getElem place.2, ofTexts_concat]
    rfl
  · have inside := place.2
    rw [count_ofTexts, length]
    simp [PoolKey.width, PoolKey.tag, PoolTag.isWide]
    omega
  · simpa [PoolKey.overlong?] using short texts[place] (List.getElem_mem _)

/-- A text that was added has its index. -/
theorem on_text_known {builder : PoolBuilder} {text : Text} {index : UInt16}
    (known : builder.indices[PoolKey.utf8 text]? = some index) :
    (PoolBuilder.text text).on builder = (.ok index, builder) := by
  rw [PoolBuilder.text, on_add, known]

end PoolBuilder

/-! ### Runs of a single body -/

/-- A class with an open method whose body is recorded so far. -/
def bodyDraft (code? : Option CodeDraft) : ClassDraft :=
  { member := .method
      { access := 0, name := .empty, nameIndex := 0, descriptor := 0, signature? := none, exceptions := [],
        code? } }

theorem on_inMethod_inCode {step : Draft CodeDraft Unit} {code? : Option CodeDraft} {code : CodeDraft}
    {builder next : PoolBuilder} (ran : step.on (code?.getD {}, builder) = (.ok (), code, next)) :
    Draft.on (ClassDraft.inMethod (MethodDraft.inCode step)) (bodyDraft code?, builder) =
      (.ok (), bodyDraft (some code), next) := by
  unfold ClassDraft.inMethod MethodDraft.inCode
  rw [Draft.on_bind, Draft.on_look]
  dsimp only [bodyDraft]
  rw [Draft.on_within, Draft.on_within]
  dsimp only [MethodDraft.code]
  rw [ran]
  rfl

theorem CodeContext.on_labelOffset {method : Text} {layout : CodeLayout} {label : Label} {place : UInt16}
    (isPlace : layout.labelOffset method label = .ok place) {σ : Type} (state : σ × PoolBuilder) :
    Draft.on (labelOffset ⟨method, layout⟩ label) state = (.ok place, state) := by
  rw [Draft.on, labelOffset]
  simp only [isPlace]
  rfl

/-- A body is written as its code, its handlers and its attributes are. -/
theorem CodeDraft.on_write_parts {draft : CodeDraft} {layout : CodeLayout} {handlers : Table}
    {attributes : AttributeTable} {between later next : PoolBuilder}
    (laidOut : CodeLayout.ofItems .empty draft.items.reverse = .ok layout)
    (handlersWritten : Draft.on (writeHandlers ⟨.empty, layout⟩ draft.handlers.reverse) (.empty, between) =
      (.ok (), handlers, later))
    (attributesWritten : Draft.on (draft.writeAttributes ⟨.empty, layout⟩) ({}, later) =
      (.ok (), attributes, next)) (whole : AttributeTable) :
    Draft.on (draft.write .empty) (whole, between) =
      (.ok (attributes.table.write (handlers.write (((Output.empty.u16 draft.maxStack).u16
        draft.maxLocals).u32 layout.code.size.toUInt32 |>.append layout.code))), whole, next) := by
  have laysOut : Draft.on (ExceptT.mk fun state =>
      (Fault.ofExcept (CodeLayout.ofItems .empty draft.items.reverse), state)) (whole, between) =
        (.ok layout, whole, between) := by
    rw [laidOut]
    rfl
  unfold write
  rw [Draft.on_bind, laysOut]
  dsimp only
  rw [Draft.on_bind, on_written handlersWritten]
  dsimp only
  rw [Draft.on_bind, on_written attributesWritten]
  rfl

/-- A body that is recorded and written alone is a run, with the pool that it leaves behind. -/
theorem exists_bodyRun {events : List Event} {code : CodeDraft} {between next : PoolBuilder} {output : Output}
    (belongs : Event.depthBehindAll 0 events = some 0)
    (recorded : Draft.on (events.forM ClassDraft.record) (bodyDraft none, .empty) =
      (.ok (), bodyDraft (some code), between))
    (written : Draft.on (code.write .empty) (({} : AttributeTable), between) = (.ok output, {}, next))
    {input : Input} {bootstraps offset : Nat} (pool : input.HasAt 8 (next.write .empty).toList)
    (methods : input.HasAt bootstraps (next.writeBootstraps .empty).toList)
    (body : input.HasAt offset output.toList) :
    ∃ run : BodyRun, run.events = events ∧ run.told.code = code ∧ run.told.name = .empty ∧
      run.IsIn input bootstraps offset :=
  ⟨{
    starts := .empty
    before := .refl .empty
    draft := bodyDraft none
    closed := rfl
    isOpen := rfl
    fresh := rfl
    events
    belongs
    recorded
    stays := rfl
    written
    after := .refl next
    .. }, rfl, rfl, rfl, ⟨pool, methods, body⟩⟩

/-- One step of the search for the entries of a pool. -/
theorem Pool.findEntries_narrow {input : Input} {tag : PoolTag} {count index offset size : Nat}
    {offsets : Array Nat} (inside : index < count) (tagged : tagAt input offset = .ok tag)
    (narrow : tag.isWide = false) (sized : bodySize input tag (offset + 1) = .ok size) :
    findEntries input count index offset offsets =
      findEntries input count (index + 1) (offset + 1 + size) (offsets.push offset) := by
  rw [findEntries, if_pos inside, tagged, ok_bind, sized]
  simp only [narrow, Bool.false_and]
  rfl

section Guarded

set_option maxRecDepth 4000

open Draft ClassImage Emit

/-- A local variable and a line number over a single instruction, which handles its own exceptions. -/
def guardedEvents : List Event :=
  [.methodItem (.localVariable ⟨.ofString "x", .ofString "I", some (.ofString "TT;"), ⟨0, 1, 0⟩⟩),
    .methodItem (.tryCatch ⟨0, 1, 0, none⟩), .methodItem (.instruction (.label 0)),
    .methodItem (.instruction (.line 7 0)), .methodItem (.instruction (.simple .returnVoid)),
    .methodItem (.instruction (.label 1))]

def guardedCode : CodeDraft where
  items := [.label 1, .fixed [Opcode.returnVoid.code], .label 0]
  itemCount := 3
  lastInstruction? := some 1
  lines := [(0, 7)]
  localVariables := [⟨1, 2, some 3, ⟨0, 1, 0⟩⟩]
  handlers := [⟨0, 1, 0, 0⟩]

/-- The texts that the body needs. -/
def guardedTexts : List Text :=
  [.ofString "x", .ofString "I", .ofString "TT;", AttributeKind.lineNumberTable.text,
    AttributeKind.localVariableTable.text, AttributeKind.localVariableTypeTable.text]

theorem on_text_guardedTexts : ∀ place : Fin 6,
    (PoolBuilder.text guardedTexts[place]).on (.ofTexts (guardedTexts.take place)) =
      (.ok (place.val + 1).toUInt16, .ofTexts (guardedTexts.take (place + 1))) :=
  @PoolBuilder.on_text_take guardedTexts (by decide +kernel) (by decide) (by decide +kernel)

theorem on_record_guarded :
    Draft.on (guardedEvents.forM ClassDraft.record) (bodyDraft none, .empty) =
      (.ok (), bodyDraft (some guardedCode), .ofTexts (guardedTexts.take 3)) := by
  have name : (PoolBuilder.text (.ofString "x")).on (.ofTexts []) =
      (.ok 1, .ofTexts (guardedTexts.take 1)) := on_text_guardedTexts 0
  have descriptor : (PoolBuilder.text (.ofString "I")).on (.ofTexts (guardedTexts.take 1)) =
      (.ok 2, .ofTexts (guardedTexts.take 2)) := on_text_guardedTexts 1
  have signature : (PoolBuilder.text (.ofString "TT;")).on (.ofTexts (guardedTexts.take 2)) =
      (.ok 3, .ofTexts (guardedTexts.take 3)) := on_text_guardedTexts 2
  have recorded : Draft.on (CodeDraft.localVariable
      ⟨.ofString "x", .ofString "I", some (.ofString "TT;"), ⟨0, 1, 0⟩⟩) ({}, .ofTexts []) =
        (.ok (), { localVariables := guardedCode.localVariables }, .ofTexts (guardedTexts.take 3)) := by
    unfold CodeDraft.localVariable CodeDraft.signatureIndex?
    simp only [on_bind, on_pooled, name, descriptor, signature]
    rfl
  show Draft.on (ClassDraft.inMethod (MethodDraft.inCode (CodeDraft.localVariable _)) >>= fun _ =>
    guardedEvents.tail.forM ClassDraft.record) _ = _
  rw [on_bind, on_inMethod_inCode recorded]
  rfl

def guardedLayout : CodeLayout where
  code := Output.empty.bytes [Opcode.returnVoid.code]
  offsets := CodeOffsets.ofSized (guardedCode.items.reverse.map fun item => (item, .wide))

theorem ofItems_guardedCode : CodeLayout.ofItems .empty guardedCode.items.reverse = .ok guardedLayout := by
  have settled : CodeLayout.Settled .empty (guardedCode.items.reverse.map fun item => (item, .wide)) := rfl
  rw [CodeLayout.ofItems, CodeLayout.settle_of_settled settled, ok_bind]
  rfl

theorem labelOffset_guarded :
    guardedLayout.labelOffset .empty 0 = .ok 0 ∧ guardedLayout.labelOffset .empty 1 = .ok 1 := by
  constructor
  all_goals
    rw [CodeLayout.labelOffset, guardedLayout, CodeOffsets.resolve_ofSized]
    rfl

theorem on_writeHandlers_guarded (builder : PoolBuilder) :
    Draft.on (CodeDraft.writeHandlers ⟨.empty, guardedLayout⟩ guardedCode.handlers.reverse)
      (Table.empty, builder) = (.ok (), ⟨1, [.ofU16s [0, 1, 0, 0]]⟩, builder) := by
  show Draft.on (CodeDraft.writeHandlers _ [⟨0, 1, 0, 0⟩]) _ = _
  unfold CodeDraft.writeHandlers
  simp only [on_bind, CodeContext.on_labelOffset labelOffset_guarded.1,
    CodeContext.on_labelOffset labelOffset_guarded.2]
  rfl

theorem on_writeLines_guarded (builder : PoolBuilder) :
    Draft.on (CodeDraft.writeLines ⟨.empty, guardedLayout⟩ guardedCode.lines.reverse) ({}, builder) =
      (.ok (), ⟨1, [.ofU16s [0, 7]]⟩, builder) := by
  show Draft.on (CodeDraft.writeLines _ [(0, 7)]) _ = _
  unfold CodeDraft.writeLines
  simp only [on_bind, CodeContext.on_labelOffset labelOffset_guarded.1]
  rfl

theorem on_writeVariables_guarded (builder : PoolBuilder) :
    Draft.on (CodeDraft.writeVariables ⟨.empty, guardedLayout⟩ guardedCode.localVariables.reverse)
      (({}, {}), builder) =
        (.ok (), (⟨1, [.ofU16s [0, 1, 1, 2, 0]]⟩, ⟨1, [.ofU16s [0, 1, 1, 3, 0]]⟩), builder) := by
  show Draft.on (CodeDraft.writeVariables _ [⟨1, 2, some 3, ⟨0, 1, 0⟩⟩]) _ = _
  unfold CodeDraft.writeVariables CodeDraft.rangeOffsets
  simp only [on_bind, CodeContext.on_labelOffset labelOffset_guarded.1,
    CodeContext.on_labelOffset labelOffset_guarded.2]
  rfl

/-- The bytes of the attributes, behind their number. -/
def guardedAttributes : List UInt8 :=
  [0, 4, 0, 0, 0, 6, 0, 1, 0, 0, 0, 7,
    0, 5, 0, 0, 0, 12, 0, 1, 0, 0, 0, 1, 0, 1, 0, 2, 0, 0,
    0, 6, 0, 0, 0, 12, 0, 1, 0, 0, 0, 1, 0, 1, 0, 3, 0, 0]

theorem on_writeAttributes_guarded :
    ∃ attributes, Draft.on (CodeDraft.writeAttributes ⟨.empty, guardedLayout⟩ guardedCode)
        ({}, .ofTexts (guardedTexts.take 3)) = (.ok (), attributes, .ofTexts guardedTexts) ∧
      attributes.table.count = 3 ∧ Pieces.toList attributes.table.entries = guardedAttributes := by
  have lines : (PoolBuilder.text AttributeKind.lineNumberTable.text).on (.ofTexts (guardedTexts.take 3)) =
      (.ok 4, .ofTexts (guardedTexts.take 4)) := on_text_guardedTexts 3
  have locals : (PoolBuilder.text AttributeKind.localVariableTable.text).on
      (.ofTexts (guardedTexts.take 4)) = (.ok 5, .ofTexts (guardedTexts.take 5)) := on_text_guardedTexts 4
  have types : (PoolBuilder.text AttributeKind.localVariableTypeTable.text).on
      (.ofTexts (guardedTexts.take 5)) = (.ok 6, .ofTexts guardedTexts) := on_text_guardedTexts 5
  unfold CodeDraft.writeAttributes
  rw [on_bind, CodeDraft.on_written (on_writeLines_guarded _)]
  dsimp only
  rw [on_bind, AttributeTable.on_addTable rfl lines (by decide) rfl]
  dsimp only
  rw [on_bind, CodeDraft.on_written (on_writeVariables_guarded _)]
  dsimp only
  rw [on_bind, AttributeTable.on_addTable rfl locals (by decide) rfl]
  dsimp only
  rw [on_bind, AttributeTable.on_addTable rfl types (by decide) rfl]
  exact ⟨_, rfl, rfl, rfl⟩

/-- The bytes of the body. -/
def guardedBytes : List UInt8 :=
  [0, 0, 0, 0, 0, 0, 0, 1, 177, 0, 1, 0, 0, 0, 1, 0, 0, 0, 0, 0, 3] ++ guardedAttributes

theorem on_write_guarded :
    ∃ output, Draft.on (guardedCode.write .empty) (({} : AttributeTable), .ofTexts (guardedTexts.take 3)) =
      (.ok output, {}, .ofTexts guardedTexts) ∧ output.toList = guardedBytes := by
  rcases on_writeAttributes_guarded with ⟨attributes, written, count, bytes⟩
  refine ⟨_, CodeDraft.on_write_parts ofItems_guardedCode (on_writeHandlers_guarded _) written _, ?_⟩
  rw [Table.toList_write, count, bytes]
  rfl

/-- The pool of the texts behind the head of a file, the empty table of bootstrap methods and the body. -/
def guarded : Input :=
  ⟨⟨#[0xCA, 0xFE, 0xBA, 0xBE, 0, 0, 0, 52,
    0, 7, 1, 0, 1, 120, 1, 0, 1, 73, 1, 0, 3, 84, 84, 59,
    1, 0, 15, 76, 105, 110, 101, 78, 117, 109, 98, 101, 114, 84, 97, 98, 108, 101,
    1, 0, 18, 76, 111, 99, 97, 108, 86, 97, 114, 105, 97, 98, 108, 101, 84, 97, 98, 108, 101,
    1, 0, 22, 76, 111, 99, 97, 108, 86, 97, 114, 105, 97, 98, 108, 101, 84, 121, 112, 101, 84, 97, 98, 108, 101,
    0, 0,
    0, 0, 0, 0, 0, 0, 0, 1, 177, 0, 1, 0, 0, 0, 1, 0, 0, 0, 0, 0, 3,
    0, 4, 0, 0, 0, 6, 0, 1, 0, 0, 0, 7,
    0, 5, 0, 0, 0, 12, 0, 1, 0, 0, 0, 1, 0, 1, 0, 2, 0, 0,
    0, 6, 0, 0, 0, 12, 0, 1, 0, 0, 0, 1, 0, 1, 0, 3, 0, 0]⟩⟩

theorem exists_guardedRun : ∃ run : BodyRun, run.events = guardedEvents ∧ run.told.code = guardedCode ∧
    run.told.name = .empty ∧ run.IsIn guarded 88 90 := by
  rcases on_write_guarded with ⟨output, written, bytes⟩
  have held : guarded.HasAt 8 (((PoolBuilder.ofTexts guardedTexts).write .empty).toList ++
      (((PoolBuilder.ofTexts guardedTexts).writeBootstraps .empty).toList ++ guardedBytes)) := ⟨[], rfl⟩
  rw [← bytes] at held
  exact exists_bodyRun rfl on_record_guarded written held.left held.right.left held.right.right

def guardedImage : ClassImage where
  input := guarded
  pool := ⟨guarded, #[0, 10, 14, 18, 24, 42, 63], 88, #[]⟩
  version := .standard
  headerOffset := 0
  attributesOffset := 0

theorem ofInput?_guarded : Pool.ofInput? guarded = .ok guardedImage.pool := by
  have found : Pool.findEntries guarded 7 1 10 #[0] = .ok (#[0, 10, 14, 18, 24, 42, 63], 88) := by
    iterate 6 rw [Pool.findEntries_narrow (by decide) rfl rfl rfl]
    rw [Pool.findEntries]
    rfl
  rw [Pool.ofInput?, show guarded.u16 8 = .ok 7 from rfl, ok_bind]
  show (Pool.findEntries guarded 7 1 10 #[0] >>= _) = _
  rw [found]
  rfl

theorem withBootstrapMethods_guarded :
    guardedImage.pool.withBootstrapMethods 88 = .ok guardedImage.pool :=
  rfl

def guardedEntry : RawAttribute :=
  ⟨0, some .code, 90, 69⟩

theorem reads_guarded :
    Reads guardedImage .latest ⟨98, 1⟩ 99 98 [(0, .simple .returnVoid)] :=
  .step (by decide) trivial (show _ = Except.ok (_, 99) from rfl) .done

theorem rawAttributes_guarded : rawAttributes guardedImage.pool 109 =
    .ok ([⟨4, some .lineNumberTable, 117, 6⟩, ⟨5, some .localVariableTable, 129, 12⟩,
      ⟨6, some .localVariableTypeTable, 147, 12⟩], 159) := by
  decide +kernel

theorem markHandlers_guarded (body : CodeBody) (isCode : body.code = ⟨98, 1⟩) :
    guardedImage.markHandlers 101 body 1 =
      .ok { body with labels := ((body.labels.insert 0).insert 1).insert 0 } := by
  unfold markHandlers
  rw [show guardedImage.input.u16 101 = .ok 0 from rfl, ok_bind]
  rcases body
  cases isCode
  rfl

theorem markAttributes_guarded (body : CodeBody) (isCode : body.code = ⟨98, 1⟩) :
    ([⟨4, some .lineNumberTable, 117, 6⟩, ⟨5, some .localVariableTable, 129, 12⟩,
      ⟨6, some .localVariableTypeTable, 147, 12⟩] : List RawAttribute).foldlM
        (guardedImage.markAttribute {}) body =
      .ok { body with
        labels := ((body.labels.insert 0).insert 0).insert 1
        lines := body.lines.alter 0 fun known => some ((known.getD #[]).push 7)
        localVariables? := some 129
        variableTypes? := some 147 } := by
  rcases body
  cases isCode
  simp only [List.foldlM_cons, List.foldlM_nil]
  rw [show guardedImage.markAttribute {} _ ⟨4, some .lineNumberTable, 117, 6⟩ = .ok _ from rfl, ok_bind]
  rw [show guardedImage.markAttribute {} _ ⟨5, some .localVariableTable, 129, 12⟩ = .ok _ from rfl, ok_bind]
  rfl

theorem codeBody_guarded : ∃ body, guardedImage.codeBody {} guardedEntry = .ok body ∧ body.code = ⟨98, 1⟩ ∧
    body.handlers = 1 ∧ body.localVariables? = some 129 ∧ body.variableTypes? = some 147 ∧
    body.annotations = #[] ∧ body.common = {} := by
  have marks := @Reads.markInstructions _ _ ⟨98, 1⟩ 98 1 _ reads_guarded (by decide) (Nat.le_refl _) ∅
  exact ⟨_, codeBody_eq_ok rfl rfl rfl rfl (by decide) (by decide) marks rfl (markHandlers_guarded _ rfl)
    rawAttributes_guarded (markAttributes_guarded _ rfl), rfl, rfl, rfl, rfl, rfl, rfl⟩

theorem exists_script_guarded :
    ∃ script, (guardedImage.tellCode {} guardedEntry).collect = (script, .ok ()) := by
  rcases codeBody_guarded with ⟨body, found, isCode, handlers, locals, types, plain⟩
  have reads : Reads guardedImage .latest body.code body.code.stop body.code.start
      [(0, .simple .returnVoid)] := by
    rw [isCode]
    exact reads_guarded
  have tellsHandlers : Emits (guardedImage.tellHandlers body.code body.handlersOffset body.handlers) ()
      ([.event (.methodItem (.tryCatch ⟨0, 1, 0, none⟩))] ++ []) := by
    rw [handlers, CodeBody.handlersOffset, isCode]
    unfold tellHandlers
    -- One step for each number that is read and each place and name it stands for.
    exact .bind_lift rfl (.bind_lift rfl (.bind_lift rfl (.bind_lift rfl (.bind_lift rfl (.bind_lift rfl
      (.bind_lift rfl (.bind_lift rfl ((emits_tell _).bind (emits_pure ())))))))))
  have tellsEntry (types : VariableTypes) :
      ∃ items, Emits (guardedImage.tellVariables ⟨98, 1⟩ types 131 1) () items := by
    unfold tellVariables
    exact ⟨_, .bind_lift rfl (.bind_lift rfl (.bind_lift rfl (.bind_lift rfl (.bind_lift rfl (.bind_lift rfl
      (.bind_lift rfl ((emits_tell _).bind (emits_pure ()))))))))⟩
  have tellsLocals : ∃ items, Emits (guardedImage.tellVariableTable body) () items := by
    unfold tellVariableTable
    rw [locals, types, isCode]
    rcases tellsEntry ((∅ : VariableTypes).insert (0, 1, 0) (.ofString "TT;")) with ⟨items, emits⟩
    exact ⟨_, .bind_lift rfl (.bind_lift rfl (.bind_lift rfl emits))⟩
  rcases tellsLocals with ⟨items, tellsLocals⟩
  rcases Reads.exists_emits_tellCode found reads plain tellsHandlers tellsLocals with ⟨told, emits⟩
  exact ⟨_, emits.collect⟩

theorem BodyRun.tables_written_guarded : ∃ run : BodyRun, run.events = guardedEvents ∧
    (∀ event ∈ run.events, event.TextsSurvive) ∧
    (∀ element, .methodItem (.instruction element) ∈ run.events → element.IsCounted) ∧
    (∀ entry, .attribute entry ∈ run.events → entry.inCode = true → entry.IsNoTable) ∧ run.StartsLines ∧
    run.IsIn guarded 88 90 ∧ ∃ script, (guardedImage.tellCode {} guardedEntry).collect = (script, .ok ()) ∧
      BodyTables.ofEvents (Item.allEvents script) = run.tables := by
  rcases exists_guardedRun with ⟨run, isRun, isCode, unnamed, isIn⟩
  rcases exists_script_guarded with ⟨script, collected⟩
  have survive : ∀ event ∈ run.events, event.TextsSurvive := by
    rw [isRun]
    have texts : Text.Survives (.ofString "x") ∧ Text.Survives (.ofString "I") ∧
        Text.Survives (.ofString "TT;") := by
      unfold Text.Survives
      decide +kernel
    simp [guardedEvents, Event.TextsSurvive, MethodItem.TextsSurvive, Instruction.TextsSurvive, texts]
  have counted : ∀ element, .methodItem (.instruction element) ∈ run.events → element.IsCounted := by
    rw [isRun]
    simp [guardedEvents, Instruction.IsCounted]
  have apart : ∀ entry, .attribute entry ∈ run.events → entry.inCode = true → entry.IsNoTable := by
    rw [isRun]
    simp [guardedEvents]
  have started : run.StartsLines := by
    rw [BodyRun.StartsLines, BodyRun.tables, BodyRun.parts, isRun]
    intro line member
    cases List.mem_singleton.mp member
    exact ⟨.simple .returnVoid, rfl, .cons_cons _ (.cons_cons _ (List.nil_sublist _))⟩
  refine ⟨run, isRun, survive, counted, apart, started, isIn, script, collected, ?_⟩
  rcases @BodyRun.tables_written run survive counted apart started {} rfl with ⟨layout, laidOut, -, tells⟩
  rw [isCode, unnamed, ofItems_guardedCode] at laidOut
  cases laidOut
  have zero : guardedLayout.placeOf 0 = 0 := CodeLayout.placeOf_eq (by
    rw [CodeOffsets.place?, guardedLayout, CodeOffsets.labels_ofSized]
    rfl)
  have one : guardedLayout.placeOf 1 = 1 := CodeLayout.placeOf_eq (by
    rw [CodeOffsets.place?, guardedLayout, CodeOffsets.labels_ofSized]
    rfl)
  have same : run.tables.relabel guardedLayout.placeOf = run.tables := by
    rw [BodyRun.tables, isRun]
    simp [guardedEvents, BodyTables.ofEvents, Event.tables, BodyTables.relabel, TryCatch.relabel,
      LocalVariable.relabel, LabelRange.relabel, zero, one]
  rw [same] at tells
  have distinct : run.tables.AreDistinct := by
    rw [BodyRun.tables, isRun]
    constructor
    · simp [guardedEvents, BodyTables.ofEvents, Event.tables]
    · simp [guardedEvents, BodyTables.ofEvents, Event.tables]
  rcases tells distinct isIn with ⟨parsed, pool, read, readMethods, told⟩
  rw [ofInput?_guarded] at read
  cases read
  rw [withBootstrapMethods_guarded] at readMethods
  cases readMethods
  rw [told guardedImage rfl rfl guardedEntry script rfl collected, BodyRun.tables, isRun]
  simp [guardedEvents, BodyTables.ofEvents, Event.tables, BodyTables.byPlace, linesByPlace]

end Guarded

section Crowded

set_option maxRecDepth 4000

open Draft ClassImage Emit

/-- A name of a high and a low surrogate side by side, which are one code point where they are read back. -/
def surrogates : Text :=
  ⟨[0xED, 0xA0, 0xBD, 0xED, 0xB8, 0x80]⟩

/-- A table switch with a target more than its bounds say, a line number behind it, a local variable whose
name does not survive, and an attribute with the name of a table. -/
def crowdedEvents : List Event :=
  [.methodItem (.localVariable ⟨surrogates, .ofString "I", none, ⟨0, 0, 0⟩⟩),
    .methodItem (.instruction (.label 0)), .methodItem (.instruction (.tableSwitch 0 0 0 [0, 1])),
    .methodItem (.instruction (.label 1)), .methodItem (.instruction (.simple .nop)),
    .methodItem (.instruction (.simple .returnVoid)), .methodItem (.instruction (.line 7 1)),
    .attribute ⟨AttributeKind.lineNumberTable.text, true, .raw [0, 1, 0, 0, 0, 9]⟩]

def crowdedCode : CodeDraft where
  items := [.fixed [Opcode.returnVoid.code], .fixed [Opcode.nop.code], .label 1, .tableSwitch 0 0 0 [0, 1],
    .label 0]
  itemCount := 5
  lastInstruction? := some 4
  lines := [(1, 7)]
  localVariables := [⟨1, 2, none, ⟨0, 0, 0⟩⟩]
  attributes := [⟨AttributeKind.lineNumberTable.text, true, .raw [0, 1, 0, 0, 0, 9]⟩]

def crowdedTexts : List Text :=
  [surrogates, .ofString "I", AttributeKind.lineNumberTable.text, AttributeKind.localVariableTable.text]

theorem on_text_crowdedTexts : ∀ place : Fin 4,
    (PoolBuilder.text crowdedTexts[place]).on (.ofTexts (crowdedTexts.take place)) =
      (.ok (place.val + 1).toUInt16, .ofTexts (crowdedTexts.take (place + 1))) :=
  @PoolBuilder.on_text_take crowdedTexts (by decide +kernel) (by decide) (by decide +kernel)

theorem on_record_crowded :
    Draft.on (crowdedEvents.forM ClassDraft.record) (bodyDraft none, .empty) =
      (.ok (), bodyDraft (some crowdedCode), .ofTexts (crowdedTexts.take 2)) := by
  have name : (PoolBuilder.text surrogates).on (.ofTexts []) = (.ok 1, .ofTexts (crowdedTexts.take 1)) :=
    on_text_crowdedTexts 0
  have descriptor : (PoolBuilder.text (.ofString "I")).on (.ofTexts (crowdedTexts.take 1)) =
      (.ok 2, .ofTexts (crowdedTexts.take 2)) := on_text_crowdedTexts 1
  have recorded : Draft.on (CodeDraft.localVariable ⟨surrogates, .ofString "I", none, ⟨0, 0, 0⟩⟩)
      ({}, .ofTexts []) =
        (.ok (), { localVariables := crowdedCode.localVariables }, .ofTexts (crowdedTexts.take 2)) := by
    unfold CodeDraft.localVariable CodeDraft.signatureIndex?
    simp only [on_bind, on_pooled, name, descriptor]
    rfl
  show Draft.on (ClassDraft.inMethod (MethodDraft.inCode (CodeDraft.localVariable _)) >>= fun _ =>
    crowdedEvents.tail.forM ClassDraft.record) _ = _
  rw [on_bind, on_inMethod_inCode recorded]
  rfl

def crowdedLayout : CodeLayout where
  code := Output.empty.bytes [170, 0, 0, 0, 0, 0, 0, 0, 0, 0, 0, 0, 0, 0, 0, 0, 0, 0, 0, 0, 0, 0, 0, 24, 0, 177]
  offsets := CodeOffsets.ofSized (crowdedCode.items.reverse.map fun item => (item, .wide))

theorem ofItems_crowdedCode : CodeLayout.ofItems .empty crowdedCode.items.reverse = .ok crowdedLayout := by
  have settled : CodeLayout.Settled .empty (crowdedCode.items.reverse.map fun item => (item, .wide)) := rfl
  rw [CodeLayout.ofItems, CodeLayout.settle_of_settled settled, ok_bind]
  simp only [CodeOffsets.toList_positions, CodeLayout.putItem, CodeOffsets.distance,
    CodeOffsets.resolve_ofSized]
  rfl

theorem labelOffset_crowded :
    crowdedLayout.labelOffset .empty 0 = .ok 0 ∧ crowdedLayout.labelOffset .empty 1 = .ok 24 := by
  constructor
  all_goals
    rw [CodeLayout.labelOffset, crowdedLayout, CodeOffsets.resolve_ofSized]
    rfl

theorem on_writeLines_crowded (builder : PoolBuilder) :
    Draft.on (CodeDraft.writeLines ⟨.empty, crowdedLayout⟩ crowdedCode.lines.reverse) ({}, builder) =
      (.ok (), ⟨1, [.ofU16s [24, 7]]⟩, builder) := by
  show Draft.on (CodeDraft.writeLines _ [(1, 7)]) _ = _
  unfold CodeDraft.writeLines
  simp only [on_bind, CodeContext.on_labelOffset labelOffset_crowded.2]
  rfl

theorem on_writeVariables_crowded (builder : PoolBuilder) :
    Draft.on (CodeDraft.writeVariables ⟨.empty, crowdedLayout⟩ crowdedCode.localVariables.reverse)
      (({}, {}), builder) = (.ok (), (⟨1, [.ofU16s [0, 0, 1, 2, 0]]⟩, {}), builder) := by
  show Draft.on (CodeDraft.writeVariables _ [⟨1, 2, none, ⟨0, 0, 0⟩⟩]) _ = _
  unfold CodeDraft.writeVariables CodeDraft.rangeOffsets
  simp only [on_bind, CodeContext.on_labelOffset labelOffset_crowded.1]
  rfl

/-- The bytes of the attributes, behind their number. -/
def crowdedAttributes : List UInt8 :=
  [0, 3, 0, 0, 0, 6, 0, 1, 0, 24, 0, 7,
    0, 4, 0, 0, 0, 12, 0, 1, 0, 0, 0, 0, 0, 1, 0, 2, 0, 0,
    0, 3, 0, 0, 0, 6, 0, 1, 0, 0, 0, 9]

theorem on_writeAttributes_crowded :
    ∃ attributes, Draft.on (CodeDraft.writeAttributes ⟨.empty, crowdedLayout⟩ crowdedCode)
        ({}, .ofTexts (crowdedTexts.take 2)) = (.ok (), attributes, .ofTexts crowdedTexts) ∧
      attributes.table.count = 3 ∧ Pieces.toList attributes.table.entries = crowdedAttributes := by
  have lines : (PoolBuilder.text AttributeKind.lineNumberTable.text).on (.ofTexts (crowdedTexts.take 2)) =
      (.ok 3, .ofTexts (crowdedTexts.take 3)) := on_text_crowdedTexts 2
  have locals : (PoolBuilder.text AttributeKind.localVariableTable.text).on
      (.ofTexts (crowdedTexts.take 3)) = (.ok 4, .ofTexts crowdedTexts) := on_text_crowdedTexts 3
  have again : (PoolBuilder.text AttributeKind.lineNumberTable.text).on (.ofTexts crowdedTexts) =
      (.ok 3, .ofTexts crowdedTexts) := by
    apply PoolBuilder.on_text_known
    have last : AttributeKind.localVariableTable.text ≠ AttributeKind.lineNumberTable.text := by
      decide +kernel
    exact (Std.HashMap.getElem?_insert).trans
      ((if_neg (by simpa using last)).trans Std.HashMap.getElem?_insert_self)
  unfold CodeDraft.writeAttributes
  rw [on_bind, CodeDraft.on_written (on_writeLines_crowded _)]
  dsimp only
  rw [on_bind, AttributeTable.on_addTable rfl lines (by decide) rfl]
  dsimp only
  rw [on_bind, CodeDraft.on_written (on_writeVariables_crowded _)]
  dsimp only
  rw [on_bind, AttributeTable.on_addTable rfl locals (by decide) rfl]
  change ∃ attributes, Draft.on (AttributeTable.addCustom
    ⟨AttributeKind.lineNumberTable.text, true, .raw [0, 1, 0, 0, 0, 9]⟩ >>= fun _ => pure ()) (⟨_⟩, _) = _ ∧ _
  rw [on_bind, AttributeTable.on_addCustom_raw again (by decide) rfl]
  exact ⟨_, rfl, rfl, rfl⟩

/-- The bytes of the body. -/
def crowdedBytes : List UInt8 :=
  [0, 0, 0, 0, 0, 0, 0, 26, 170, 0, 0, 0, 0, 0, 0, 0, 0, 0, 0, 0, 0, 0, 0, 0, 0, 0, 0, 0, 0, 0, 0, 24, 0, 177,
    0, 0, 0, 3] ++ crowdedAttributes

theorem on_write_crowded :
    ∃ output, Draft.on (crowdedCode.write .empty) (({} : AttributeTable), .ofTexts (crowdedTexts.take 2)) =
      (.ok output, {}, .ofTexts crowdedTexts) ∧ output.toList = crowdedBytes := by
  rcases on_writeAttributes_crowded with ⟨attributes, written, count, bytes⟩
  refine ⟨_, CodeDraft.on_write_parts ofItems_crowdedCode rfl written _, ?_⟩
  rw [Table.toList_write, count, bytes]
  rfl

def crowded : Input :=
  ⟨⟨#[0xCA, 0xFE, 0xBA, 0xBE, 0, 0, 0, 52,
    0, 5, 1, 0, 6, 0xED, 0xA0, 0xBD, 0xED, 0xB8, 0x80, 1, 0, 1, 73,
    1, 0, 15, 76, 105, 110, 101, 78, 117, 109, 98, 101, 114, 84, 97, 98, 108, 101,
    1, 0, 18, 76, 111, 99, 97, 108, 86, 97, 114, 105, 97, 98, 108, 101, 84, 97, 98, 108, 101,
    0, 0,
    0, 0, 0, 0, 0, 0, 0, 26, 170, 0, 0, 0, 0, 0, 0, 0, 0, 0, 0, 0, 0, 0, 0, 0, 0, 0, 0, 0, 0, 0, 0, 24, 0, 177,
    0, 0, 0, 3,
    0, 3, 0, 0, 0, 6, 0, 1, 0, 24, 0, 7,
    0, 4, 0, 0, 0, 12, 0, 1, 0, 0, 0, 0, 0, 1, 0, 2, 0, 0,
    0, 3, 0, 0, 0, 6, 0, 1, 0, 0, 0, 9]⟩⟩

theorem exists_crowdedRun : ∃ run : BodyRun, run.events = crowdedEvents ∧ run.told.code = crowdedCode ∧
    run.told.name = .empty ∧ run.IsIn crowded 62 64 := by
  rcases on_write_crowded with ⟨output, written, bytes⟩
  have held : crowded.HasAt 8 (((PoolBuilder.ofTexts crowdedTexts).write .empty).toList ++
      (((PoolBuilder.ofTexts crowdedTexts).writeBootstraps .empty).toList ++ crowdedBytes)) := ⟨[], rfl⟩
  rw [← bytes] at held
  exact exists_bodyRun rfl on_record_crowded written held.left held.right.left held.right.right

def crowdedImage : ClassImage where
  input := crowded
  pool := ⟨crowded, #[0, 10, 19, 23, 41], 62, #[]⟩
  version := .standard
  headerOffset := 0
  attributesOffset := 0

theorem ofInput?_crowded : Pool.ofInput? crowded = .ok crowdedImage.pool := by
  have found : Pool.findEntries crowded 5 1 10 #[0] = .ok (#[0, 10, 19, 23, 41], 62) := by
    iterate 4 rw [Pool.findEntries_narrow (by decide) rfl rfl rfl]
    rw [Pool.findEntries]
    rfl
  rw [Pool.ofInput?, show crowded.u16 8 = .ok 5 from rfl, ok_bind]
  show (Pool.findEntries crowded 5 1 10 #[0] >>= _) = _
  rw [found]
  rfl

theorem withBootstrapMethods_crowded :
    crowdedImage.pool.withBootstrapMethods 62 = .ok crowdedImage.pool :=
  rfl

def crowdedEntry : RawAttribute :=
  ⟨0, some .code, 64, 80⟩

/-- The instructions that are read from the code: no instruction starts at the place of the line number. -/
def crowdedSteps : List (Label × Instruction) :=
  [(0, .tableSwitch 0 0 0 [0]), (20, .simple .nop), (21, .simple .nop), (22, .simple .nop),
    (23, .variable .dload 0), (25, .simple .returnVoid)]

theorem reads_crowded : Reads crowdedImage .latest ⟨72, 26⟩ 98 72 crowdedSteps := by
  have last : Reads crowdedImage .latest ⟨72, 26⟩ 98 97 [(25, .simple .returnVoid)] :=
    .step (by decide) trivial (show _ = Except.ok (_, 98) from rfl) .done
  have load : Reads crowdedImage .latest ⟨72, 26⟩ 98 95 (crowdedSteps.drop 4) :=
    .step (by decide) rfl (show _ = Except.ok (_, 97) from rfl) last
  have third : Reads crowdedImage .latest ⟨72, 26⟩ 98 94 (crowdedSteps.drop 3) :=
    .step (by decide) trivial (show _ = Except.ok (_, 95) from rfl) load
  have second : Reads crowdedImage .latest ⟨72, 26⟩ 98 93 (crowdedSteps.drop 2) :=
    .step (by decide) trivial (show _ = Except.ok (_, 94) from rfl) third
  have first : Reads crowdedImage .latest ⟨72, 26⟩ 98 92 (crowdedSteps.drop 1) :=
    .step (by decide) trivial (show _ = Except.ok (_, 93) from rfl) second
  exact .step (by decide) trivial (show _ = Except.ok (_, 92) from rfl) first

theorem rawAttributes_crowded : rawAttributes crowdedImage.pool 100 =
    .ok ([⟨3, some .lineNumberTable, 108, 6⟩, ⟨4, some .localVariableTable, 120, 12⟩,
      ⟨3, some .lineNumberTable, 138, 6⟩], 144) := by
  decide +kernel

theorem markAttributes_crowded (body : CodeBody) (isCode : body.code = ⟨72, 26⟩) :
    ([⟨3, some .lineNumberTable, 108, 6⟩, ⟨4, some .localVariableTable, 120, 12⟩,
      ⟨3, some .lineNumberTable, 138, 6⟩] : List RawAttribute).foldlM (crowdedImage.markAttribute {}) body =
      .ok { body with
        labels := (((body.labels.insert 24).insert 0).insert 0).insert 0
        lines := [(24, 7), (0, 9)].foldl CodeBody.addLine body.lines
        localVariables? := some 120 } := by
  rcases body
  cases isCode
  simp only [List.foldlM_cons, List.foldlM_nil]
  rw [show crowdedImage.markAttribute {} _ ⟨3, some .lineNumberTable, 108, 6⟩ = .ok _ from rfl, ok_bind]
  rw [show crowdedImage.markAttribute {} _ ⟨4, some .localVariableTable, 120, 12⟩ = .ok _ from rfl, ok_bind]
  rfl

theorem codeBody_crowded : ∃ body, crowdedImage.codeBody {} crowdedEntry = .ok body ∧ body.code = ⟨72, 26⟩ ∧
    body.handlers = 0 ∧ body.localVariables? = some 120 ∧ body.variableTypes? = none ∧
    body.annotations = #[] ∧ body.common = {} ∧ body.lines = [(24, 7), (0, 9)].foldl CodeBody.addLine ∅ ∧
    ∀ line ∈ ([(24, 7), (0, 9)] : List (Label × UInt16)), line.1 ∈ body.labels := by
  have marks := @Reads.markInstructions _ _ ⟨72, 26⟩ 72 26 _ reads_crowded (by decide) (Nat.le_refl _) ∅
  exact ⟨_, codeBody_eq_ok rfl rfl rfl rfl (by decide) (by decide) marks rfl rfl rawAttributes_crowded
    (markAttributes_crowded _ rfl), rfl, rfl, rfl, rfl, rfl, rfl, rfl, by simp⟩

/-- The local variable as it is told. -/
def joined : LocalVariable :=
  ⟨⟨[0xF0, 0x9F, 0x98, 0x80]⟩, .ofString "I", none, ⟨0, 0, 0⟩⟩

theorem exists_script_crowded : ∃ script, (crowdedImage.tellCode {} crowdedEntry).collect = (script, .ok ()) ∧
    BodyTables.ofEvents (Item.allEvents script) = { lines := [(0, 9)], locals := [joined] } := by
  rcases codeBody_crowded with ⟨body, found, isCode, handlers, locals, types, annotations, common, lines,
    labeled⟩
  have reads : Reads crowdedImage .latest body.code body.code.stop body.code.start crowdedSteps := by
    rw [isCode]
    exact reads_crowded
  have tellsHandlers : Emits (crowdedImage.tellHandlers body.code body.handlersOffset body.handlers) () [] := by
    rw [handlers]
    exact emits_pure ()
  have tellsLocals : Emits (crowdedImage.tellVariableTable body) ()
      ([.event (.methodItem (.localVariable joined))] ++ []) := by
    have name : crowdedImage.textAt (120 + 2 + 4) = .ok joined.name := by rfl
    have descriptor : crowdedImage.textAt (120 + 2 + 6) = .ok joined.descriptor := by rfl
    have tellsEntry : Emits (crowdedImage.tellVariables ⟨72, 26⟩ ∅ (120 + 2) 1) ()
        ([.event (.methodItem (.localVariable joined))] ++ []) := by
      unfold tellVariables
      refine .bind_lift (show _ = Except.ok 0 from rfl) (.bind_lift (show _ = Except.ok 0 from rfl)
        (.bind_lift name (.bind_lift descriptor (.bind_lift (show _ = Except.ok 0 from rfl)
          (.bind_lift (show _ = Except.ok 0 from rfl) (.bind_lift (show _ = Except.ok 0 from rfl) ?_))))))
      rw [Std.HashMap.getElem?_empty]
      exact (emits_tell _).bind (emits_pure ())
    unfold tellVariableTable
    rw [locals, types, isCode]
    exact .bind_lift rfl (.bind_lift rfl tellsEntry)
  rcases Reads.exists_emits_tellCode found reads ⟨annotations, common⟩ tellsHandlers tellsLocals
    with ⟨told, emits⟩
  have collected (place : Label) : (body.lines.getD place #[]).toList =
      (linesAt place [(24, 7), (0, 9)]).map Prod.snd := by
    rw [lines, CodeBody.getD_foldl_addLine, Std.HashMap.getD_empty, List.nil_append]
  have handlersTold : GivesTables { handlers := [] } _ := tellsHandlers.givesTables
  have localsTold : GivesTables { locals := [joined] } _ := tellsLocals.givesTables
  rcases reads.givesTables_parts collected labeled found handlersTold localsTold
    (Emit.collect_eq_ok.mp emits.collect) with ⟨items, all, tables⟩
  have same := congrArg Array.toList all
  rw [Array.empty_append, List.toList_toArray, List.toList_toArray] at same
  refine ⟨_, emits.collect, ?_⟩
  rw [same]
  exact tables

/-- What a body was told is not told again where a switch has more targets than its bounds say, a text does
not survive, or an attribute has the name of a table: here a line number is lost, another one comes up, and
the name of the local variable has changed. -/
theorem BodyRun.exists_tables_changed : ∃ (run : BodyRun) (layout : CodeLayout) (script : Script),
    run.events = crowdedEvents ∧ run.StartsLines ∧ run.IsIn crowded 62 64 ∧
    CodeLayout.ofItems run.told.name run.told.code.items.reverse = .ok layout ∧
    (run.tables.relabel layout.placeOf).AreDistinct ∧
    Pool.ofInput? crowdedImage.input = .ok crowdedImage.pool ∧
    crowdedImage.pool.withBootstrapMethods 62 = .ok crowdedImage.pool ∧
    (crowdedImage.tellCode {} crowdedEntry).collect = (script, .ok ()) ∧
    (run.tables.relabel layout.placeOf).byPlace =
      { lines := [(24, 7)], locals := [⟨surrogates, .ofString "I", none, ⟨0, 0, 0⟩⟩] } ∧
    BodyTables.ofEvents (Item.allEvents script) = { lines := [(0, 9)], locals := [joined] } ∧
    joined.name ≠ surrogates := by
  rcases exists_crowdedRun with ⟨run, isRun, isCode, unnamed, isIn⟩
  rcases exists_script_crowded with ⟨script, collected, told⟩
  have started : run.StartsLines := by
    rw [BodyRun.StartsLines, BodyRun.tables, BodyRun.parts, isRun]
    intro line member
    cases List.mem_singleton.mp member
    exact ⟨.simple .nop, rfl, .cons _ (.cons _ (.cons_cons _ (.cons_cons _ (List.nil_sublist _))))⟩
  have zero : crowdedLayout.placeOf 0 = 0 := CodeLayout.placeOf_eq (by
    rw [CodeOffsets.place?, crowdedLayout, CodeOffsets.labels_ofSized]
    rfl)
  have one : crowdedLayout.placeOf 1 = 24 := CodeLayout.placeOf_eq (by
    rw [CodeOffsets.place?, crowdedLayout, CodeOffsets.labels_ofSized]
    rfl)
  have placed : run.tables.relabel crowdedLayout.placeOf =
      { lines := [(24, 7)], locals := [⟨surrogates, .ofString "I", none, ⟨0, 0, 0⟩⟩] } := by
    rw [BodyRun.tables, isRun]
    simp [crowdedEvents, BodyTables.ofEvents, Event.tables, BodyTables.relabel, LocalVariable.relabel,
      LabelRange.relabel, zero, one]
  refine ⟨run, crowdedLayout, script, isRun, started, isIn, ?_, ?_, ofInput?_crowded,
    withBootstrapMethods_crowded, collected, ?_, told, by decide⟩
  · rw [isCode, unnamed]
    exact ofItems_crowdedCode
  · rw [placed]
    constructor
    · simp
    · simp
  · rw [placed]
    simp [BodyTables.byPlace, linesByPlace]

end Crowded

end ClassFile
