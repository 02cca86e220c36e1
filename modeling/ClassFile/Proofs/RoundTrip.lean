import ClassFile.Draft.Class
import ClassFile.Proofs.Code.Heard
import ClassFile.Proofs.Draft.Methods
import ClassFile.Proofs.Pool.Runs

/-!
# Reading methods that were written

A body that was told as instructions and labels is heard again when the class file that it was
written to is read (`MethodRun.readsBack`).
-/

namespace ClassFile

/-- Whether additions that can be read back lead from one builder to another. -/
def PoolBuilder.LeadsTo (builder last : PoolBuilder) : Prop :=
  ∃ items results, builder.addAll items = (results, last) ∧
    (∀ item ∈ items, item.Storable ∧ item.levels ≤ Pool.maxDynamicLevels) ∧
    ∀ result ∈ results, ∀ size, result ≠ .error (.textTooLong size)

theorem PoolBuilder.LeadsTo.refl (builder : PoolBuilder) : builder.LeadsTo builder :=
  ⟨[], [], rfl, by simp, by simp⟩

theorem PoolBuilder.LeadsTo.added {builder last : PoolBuilder} {content : PoolContent}
    (leads : builder.LeadsTo last) (holds : builder.Holds content) :
    ∃ later, Added builder content last later := by
  rcases leads with ⟨items, results, ran, storable, notTooLong⟩
  rcases addAll_added holds (fun item member => (storable item member).1)
    (fun item member => (storable item member).2) ran notTooLong with ⟨later, added, -⟩
  exact ⟨later, added⟩

/-- A run that writes a method with a body of instructions and labels; other parts of the class are
added to the pool before and after. -/
structure MethodRun where
  seed? : Option Pool
  first : PoolBuilder
  starts : PoolBuilder.Starts seed? first
  builder : PoolBuilder
  before : first.LeadsTo builder
  draft : MethodDraft
  fresh : draft.code? = none
  noCustom : draft.annotations.attributes = []
  items : List MethodItem
  ofBody : ∀ item ∈ items, MethodDraft.IsOfBody item
  told : MethodDraft
  between : PoolBuilder
  recorded : Draft.on (items.forM MethodDraft.item) (draft, builder) = (.ok (), told, between)
  whole : ClassDraft
  major : UInt16
  output : Output
  wholeAfter : ClassDraft
  next : PoolBuilder
  written : Draft.on (told.write major) (whole, between) = (.ok output, wholeAfter, next)
  last : PoolBuilder
  after : next.LeadsTo last

namespace MethodRun

open ClassImage

/-- The instructions and labels that were told. -/
def events (run : MethodRun) : List Instruction :=
  MethodDraft.elementsOf run.items

/-- Whether an input holds the pool of the class, the table of its bootstrap methods at `bootstraps`
and the method at `offset`. -/
structure IsIn (run : MethodRun) (input : Input) (bootstraps offset : Nat) : Prop where
  pool : input.HasAt 8 (run.last.write .empty).toList
  bootstraps : input.HasAt bootstraps (run.last.writeBootstraps .empty).toList
  method : input.HasAt offset run.output.toList

/-- Whether the body is heard again, where `image` is a class file with the method at `offset`. -/
def HeardIn (run : MethodRun) (options : ReadOptions) (layout : CodeLayout) (image : ClassImage)
    (offset : Nat) : Prop :=
  ∃ (entry : RawAttribute) (stop : Nat) (heard : List Instruction)
      (parts : List (List (Label × Instruction))),
    listAttributes image.pool (offset + 8) #[] 1 = .ok ([entry], stop) ∧
      entry.kind? = some .code ∧
      (image.tellCode options entry).collect =
        (plainScript run.told.code.maxStack run.told.code.maxLocals heard, .ok ()) ∧
      layout.Heard run.events heard parts

/-- What is known of the code attribute in the bytes of a method. -/
theorem listAttributes_code {pool : Pool} {method : Text} {code : CodeDraft} {entry : Output}
    (isCode : MethodDraft.IsCode method code entry pool) {offset : Nat}
    (held : pool.input.HasAt offset entry.toList) :
    ∃ (layout : CodeLayout) (name : UInt16), CodeLayout.ofItems method code.items.reverse = .ok layout ∧
      (code.plainOutput layout).size < 4294967296 ∧
      pool.input.HasAt (offset + 6) (code.plainOutput layout).toList ∧
      listAttributes pool offset #[] 1 =
        .ok ([⟨name, some .code, offset + 6, (code.plainOutput layout).size⟩],
          offset + 6 + (code.plainOutput layout).size) := by
  rcases isCode with ⟨layout, name, laidOut, named, small, rfl⟩
  rcases Pool.storedText_of_text named with ⟨stored, readName, isKind⟩
  simp only [AttributeTable.entryBytes, Output.ofU16, Output.toList_append, Output.toList_u32,
    Output.toList_u16, Output.toList_empty, List.nil_append, Input.hasAt_append,
    length_bigEndian16, length_bigEndian32, List.length_append] at held
  rcases held with ⟨⟨nameHeld, sizeHeld⟩, body⟩
  have size : (code.plainOutput layout).size.toUInt32.toNat = (code.plainOutput layout).size := by
    simp
    omega
  have inside : ¬pool.input.size < offset + 6 + (code.plainOutput layout).size := by
    have nonempty : (code.plainOutput layout).toList ≠ [] := by
      simp [CodeDraft.toList_plainOutput, plainBody, bigEndian16]
    exact Nat.not_lt.mpr (body.stop_le nonempty)
  refine ⟨layout, name, laidOut, small, body, ?_⟩
  rw [listAttributes]
  simp only [nameHeld.u16, sizeHeld.u32, ok_bind, size, inside, if_false, readName, isKind]
  rfl

section Storable

variable (run : MethodRun) {api : Api} (storable : ∀ event ∈ run.events, event.Storable)
  (understands : ∀ event ∈ run.events, Instruction.Understands api event)
include storable understands

/-- The pool at the end of a run knows what the parts of the body stand for, and the method has a
code attribute. -/
theorem exists_content (nonempty : run.events ≠ []) : ∃ content, run.last.Holds content ∧
    ∀ pool : Pool, pool.Has content → run.told.code.Records pool api run.events ∧
      ∃ (entry : Output) (front rest : List UInt8),
        MethodDraft.IsCode run.told.name run.told.code entry pool ∧ front.length = 8 ∧
          run.output.toList = front ++ entry.toList ++ rest := by
  rcases run.starts.holds with ⟨seedContent, holdsFirst, -⟩
  rcases run.before.added holdsFirst with ⟨content, added⟩
  have fresh (pool : Pool) : MethodDraft.Records pool api [] run.draft := by
    refine ⟨?_, fun notEmpty => absurd rfl notEmpty, run.noCustom⟩
    rw [MethodDraft.code, run.fresh]
    exact ⟨.nil, ⟨rfl, rfl, rfl, rfl, rfl, rfl⟩⟩
  rcases MethodDraft.runs_items run.ofBody storable understands [] run.draft run.builder content
    added.holds (fun pool _ => fresh pool) _ _ _ run.recorded with ⟨recordedContent, addedItems, records⟩
  rcases addedItems.holds.exists_pool with ⟨anyPool, same⟩
  have recorded := records anyPool same.has
  rcases Option.isSome_iff_exists.mp (recorded.started nonempty) with ⟨code, hasCode⟩
  have isCode : run.told.code = code := by
    rw [MethodDraft.code, hasCode, Option.getD_some]
  subst isCode
  rcases MethodDraft.runs_write hasCode recorded.code.plain recorded.custom run.major run.whole
    run.between recordedContent addedItems.holds (fun _ _ => trivial) _ _ _ run.written with
    ⟨writtenContent, addedWritten, written⟩
  rcases run.after.added addedWritten.holds with ⟨later, addedLater⟩
  refine ⟨later, addedLater.holds, fun pool has => ⟨?_, ?_⟩⟩
  · exact (records pool (has.mono
      (addedWritten.contentGrows.trans addedLater.contentGrows))).code
  · exact written pool (has.mono addedLater.contentGrows)

end Storable

/-- A body of instructions and labels is read as it was told. -/
theorem readsBack (run : MethodRun) {options : ReadOptions}
    (storable : ∀ event ∈ run.events, event.Storable)
    (understands : ∀ event ∈ run.events, Instruction.Understands options.api event) {final : Nat}
    (finishes : Instruction.Finishes run.events final) :
    ∃ layout, CodeLayout.ofItems run.told.name run.told.code.items.reverse = .ok layout ∧
      ∀ {input : Input} {bootstraps offset : Nat}, run.IsIn input bootstraps offset →
        ∃ parsed pool, Pool.ofInput? input = .ok parsed ∧
          parsed.withBootstrapMethods bootstraps = .ok pool ∧
          ∀ image : ClassImage, image.input = input → image.pool = pool →
            run.HeardIn options layout image offset := by
  have nonempty : run.events ≠ [] := by
    intro none
    rcases finishes.last with ⟨last, here, -⟩
    simp [none] at here
  rcases run.exists_content storable understands nonempty with ⟨content, holds, known⟩
  rcases holds.exists_pool with ⟨anyPool, same⟩
  rcases (known anyPool same.has).2 with ⟨-, -, -, ⟨layout, -, laidOut, -⟩, -⟩
  refine ⟨layout, laidOut, fun {input bootstraps offset} isIn => ?_⟩
  rcases holds.parses isIn.pool isIn.bootstraps with ⟨parsed, pool, read, readMethods, -, same⟩
  refine ⟨parsed, pool, read, readMethods, ?_⟩
  rintro image rfl rfl
  have sameInput : image.pool.input = image.input :=
    (Pool.input_of_withBootstrapMethods readMethods).trans (Pool.input_of_ofInput? read)
  rcases known image.pool same.has with ⟨records, entry, front, rest, isCode, eight, bytes⟩
  have held := isIn.method
  rw [bytes] at held
  have entryHeld := held.left.right
  rw [eight, ← sameInput] at entryHeld
  rcases listAttributes_code isCode entryHeld with ⟨other, name, laidOutToo, small, body, listed⟩
  rw [laidOut, Except.ok.injEq] at laidOutToo
  subst laidOutToo
  have starts := CodeLayout.position_zero (Instruction.jumps_of_stand records.items) laidOut
  have faithful := CodeLayout.faithful_ofItems (Instruction.jumps_of_stand records.items) laidOut
  rw [CodeDraft.toList_plainOutput, sameInput] at body
  have codeHeld := body.left.right
  rw [Output.size_eq_length, CodeDraft.toList_plainOutput] at small listed
  rcases @faithful.exists_heard _ _ _ _ _ ⟨offset + 8 + 6 + 8, layout.code.size⟩ starts
    records.items _ finishes codeHeld rfl with ⟨parts, reads, heard⟩
  refine ⟨_, _, _, parts, listed, rfl, ?_, heard⟩
  refine tellCode_plain sameInput body rfl ?_ ?_ reads
  · simp only [plainBody, List.length_append] at small
    omega
  · have positive := faithful.position_lt records.items finishes (Nat.zero_le final)
    rw [Output.size_eq_length] at positive
    exact List.ne_nil_of_length_pos (Nat.zero_lt_of_lt positive)

/-- A conditional jump over a switch that leads back to the start. -/
def switchEvents : List Instruction :=
  [.label 0, .jump .ifeq 1, .tableSwitch 0 0 1 [0], .label 1, .simple .returnVoid]

/-- A method without anything but its header. -/
def bareMethod : MethodDraft :=
  { access := 0, name := .empty, nameIndex := 1, descriptor := 2, signature? := none,
    exceptions := [] }

/-- The same method with the body that `switchEvents` tell. -/
def switchMethod : MethodDraft :=
  { bareMethod with
    code? := some
      { items := CodeLayout.switchBody.reverse, itemCount := 5, lastInstruction? := some 4 } }

theorem switchEvents_finishes : Instruction.Finishes switchEvents 4 where
  last := ⟨.simple .returnVoid, rfl, rfl, rfl⟩
  after := by
    intro index event later found
    have inside := (List.getElem?_eq_some_iff.mp found).1
    simp only [switchEvents, List.length_cons, List.length_nil] at inside
    omega
  visited := by
    intro event member real label mentioned
    simp only [switchEvents, List.mem_cons, List.not_mem_nil, or_false] at member
    rcases member with rfl | rfl | rfl | rfl | rfl
    · cases real
    · rw [List.mem_singleton.mp mentioned]
      exact ⟨3, by decide, rfl⟩
    · have either : label = 1 ∨ label = 0 := by simpa [Instruction.labels] using mentioned
      rcases either with rfl | rfl
      · exact ⟨3, by decide, rfl⟩
      · exact ⟨0, by decide, rfl⟩
    · cases real
    · simp [Instruction.labels] at mentioned

/-- An attribute is added to an empty table. -/
theorem on_add {builder next : PoolBuilder} {index : UInt16} {kind : AttributeKind}
    (named : (PoolBuilder.text kind.text).on builder = (.ok index, next)) {body : Output}
    (small : body.size < 4294967296) :
    Draft.on (AttributeTable.add kind body) ({}, builder) =
      (.ok (), ⟨⟨1, [AttributeTable.entryBytes index body]⟩⟩, next) := by
  unfold AttributeTable.add
  rw [Draft.on_bind, Draft.on_pooled, named]
  simp only [AttributeTable.addNamed, Nat.not_le.mpr small, if_false]
  rfl

theorem on_write_switchMethod {builder next : PoolBuilder} {index : UInt16}
    (named : (PoolBuilder.text AttributeKind.code.text).on builder = (.ok index, next))
    (whole : ClassDraft) :
    ∃ output, Draft.on (switchMethod.write 0) (whole, builder) = (.ok output, whole, next) := by
  rcases CodeLayout.ofItems_switchBody with ⟨layout, laidOut⟩
  have code : Draft.on (switchMethod.code.write .empty) (({} : AttributeTable), builder) =
      (.ok (switchMethod.code.plainOutput layout), {}, builder) := by
    rw [CodeDraft.on_write ⟨rfl, rfl, rfl, rfl, rfl, rfl⟩]
    simp only [switchMethod, MethodDraft.code, Option.getD_some, List.reverse_reverse, laidOut]
  have small : (switchMethod.code.plainOutput layout).size < 4294967296 := by
    have faithful := CodeLayout.faithful_ofItems
      CodeLayout.faithful_ofItems_switchBody.1 laidOut
    have bound := faithful.size_le
    rw [← faithful.size_eq, CodeLayout.maxCodeLength, Output.size_eq_length] at bound
    rw [Output.size_eq_length, CodeDraft.toList_plainOutput]
    simp only [plainBody, List.length_append, length_bigEndian16, length_bigEndian32]
    omega
  have noParameters (kind : AttributeKind) :
      MethodDraft.writeParameterAnnotations kind {} = pure () := by
    simp [MethodDraft.writeParameterAnnotations, ParameterAnnotations.isEmpty]
  have attributes : ∃ later, Draft.on (MethodDraft.writeAttributes switchMethod 0) ({}, builder) =
      (.ok (), later, next) := by
    unfold MethodDraft.writeAttributes
    change ∃ later, Draft.on (CodeDraft.write switchMethod.code .empty >>= fun output =>
      AttributeTable.add .code output >>= fun _ => _) _ = _
    rw [Draft.on_bind, code]
    simp only []
    rw [Draft.on_bind, on_add named small]
    simp only [switchMethod, bareMethod, noParameters]
    exact ⟨_, rfl⟩
  rcases attributes with ⟨later, attributes⟩
  unfold MethodDraft.write CodeDraft.written
  rw [Draft.on_bind, Draft.on_within, Draft.on_bind, attributes]
  exact ⟨_, rfl⟩

theorem exists_switchRun : ∃ run : MethodRun, run.events = switchEvents := by
  have named : (PoolBuilder.text AttributeKind.code.text).on .empty =
      (.ok 1, PoolBuilder.empty.push (.utf8 AttributeKind.code.text)) := by
    have short : (PoolKey.utf8 AttributeKind.code.text).overlong? = none := by decide
    have fits : ¬65535 < PoolBuilder.empty.count.toNat +
        (PoolKey.utf8 AttributeKind.code.text).width := by decide
    have absent : PoolBuilder.empty.indices[PoolKey.utf8 AttributeKind.code.text]? = none :=
      Std.HashMap.getElem?_empty
    rw [PoolBuilder.text, PoolBuilder.on_add, absent]
    simp only [PoolBuilder.on_append, fits, if_false, short]
    rfl
  have ends (builder : PoolBuilder) : PoolBuilder.LeadsTo builder builder :=
    ⟨[], [], rfl, by simp, by simp⟩
  rcases on_write_switchMethod named {} with ⟨output, written⟩
  exact ⟨{
    starts := .empty
    before := ends .empty
    draft := bareMethod
    fresh := rfl
    noCustom := rfl
    items := switchEvents.map MethodItem.instruction
    ofBody := by simp [MethodDraft.IsOfBody]
    told := switchMethod
    recorded := rfl
    written
    after := ends _
    .. }, rfl⟩

theorem readsBack_switch : ∃ run : MethodRun, run.events = switchEvents ∧
    ∃ layout image offset, run.HeardIn {} layout image offset := by
  rcases exists_switchRun with ⟨run, isSwitch⟩
  have storable : ∀ event ∈ run.events, event.Storable := by
    rw [isSwitch]
    simp [switchEvents, Instruction.Storable]
  have understands : ∀ event ∈ run.events, Instruction.Understands .latest event := by
    rw [isSwitch]
    simp [switchEvents, Instruction.Understands, Instruction.usesDynamicConstant]
  rcases @run.readsBack {} storable understands 4 (isSwitch ▸ switchEvents_finishes) with
    ⟨layout, -, reads⟩
  let entries := (run.last.write .empty).toList
  let bootstraps := (run.last.writeBootstraps .empty).toList
  let file : Input :=
    ⟨⟨(List.replicate 8 0 ++ (entries ++ (bootstraps ++ run.output.toList))).toArray⟩⟩
  have held : file.HasAt 8 (entries ++ (bootstraps ++ run.output.toList)) := by
    simp [Input.HasAt, Input.toList, file]
  rcases reads ⟨held.left, held.right.left, held.right.right⟩ with ⟨-, pool, -, -, heard⟩
  exact ⟨run, isSwitch, layout, ⟨file, pool, .standard, 0, 0⟩, _, heard _ rfl rfl⟩

end MethodRun

end ClassFile
