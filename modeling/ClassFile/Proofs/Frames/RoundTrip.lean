import ClassFile.Proofs.Code.Narrowing
import ClassFile.Proofs.Frames.Writing
import ClassFile.Proofs.RoundTrip

/-!
# Reading stack map frames that were written

Frames that are recorded in front of the parts of a body are written with distances between the places
where these parts were laid out.  Where the table is read in a file with the pool of the class, the first
frame at each place is there again, at that place (`FrameRun.framesAt_written`).
-/

namespace ClassFile

open CodeOffsets

namespace CodeLayout

variable {method : Text} {items : List CodeItem} {layout : CodeLayout}

theorem isBounded_of_ofItems (laidOut : ofItems method items = .ok layout) : layout.IsBounded := by
  rcases exists_cut laidOut with ⟨-, entries, pieces, -, -, bound, cut, -⟩
  refine ⟨fun {label place} known => ?_, ?_⟩
  · rw [cut.size_eq, startOf_length]
    rw [CodeOffsets.place?, cut.offsets_eq] at known
    exact labels_le_stop known
  · rwa [cut.size_eq, startOf_length]

theorem position_mono (laidOut : ofItems method items = .ok layout) {first second : Nat}
    (ordered : first ≤ second) : layout.position first ≤ layout.position second := by
  rcases exists_cut laidOut with ⟨-, entries, pieces, -, -, -, cut, -⟩
  exact cut.position_mono ordered

end CodeLayout

/-! ### Labels of written frames -/

theorem FrameValue.Spells.places {pool : Pool} {places : Label → Option Nat} {value : FrameValue}
    {bytes : List UInt8} (spelled : value.Spells pool places bytes) :
    ∀ label ∈ value.labels, ∃ place, places label = some place := by
  cases spelled with
  | object => simp [FrameValue.labels]
  | uninitialized known =>
      rintro label member
      rw [List.mem_singleton.mp member]
      exact ⟨_, known⟩
  | plain plain =>
      cases value with
      | uninitialized => simp [FrameValue.code] at plain
      | _ => simp [FrameValue.labels]

theorem SpellsAll.exists_of_mem {α : Type} {spells : α → List UInt8 → Prop} {values : List α}
    {bytes : List UInt8} (all : SpellsAll spells values bytes) {value : α} (member : value ∈ values) :
    ∃ piece, spells value piece := by
  rcases all with ⟨chunks, each, rfl⟩
  induction each with
  | nil => cases member
  | cons first _ ih =>
      rcases List.mem_cons.mp member with rfl | behind
      · exact ⟨_, first⟩
      · exact ih behind

theorem Frame.Spells.places {pool : Pool} {places : Label → Option Nat} {distance : UInt16}
    {frame : Frame} {bytes : List UInt8} (spelled : frame.Spells pool places distance bytes) :
    ∀ value ∈ frame.values, ∀ label ∈ value.labels, ∃ place, places label = some place := by
  have all {values : List FrameValue} {bytes : List UInt8}
      (spelled : SpellsAll (FrameValue.Spells pool places) values bytes) :
      ∀ value ∈ values, ∀ label ∈ value.labels, ∃ place, places label = some place :=
    fun value member => (spelled.exists_of_mem member).elim fun _ first => first.places
  cases spelled with
  | same | sameFar | chop => simp [Frame.values]
  | same1 _ spelledValue | same1Far spelledValue => simpa [Frame.values] using spelledValue.places
  | append _ _ spelledLocals => exact all spelledLocals
  | full _ _ spelledLocals spelledStack =>
      exact List.forall_mem_append.mpr ⟨all spelledLocals, all spelledStack⟩

/-! ### Runs -/

/-- A run that writes the frames of laid out code, which were recorded from the front to the end of the
code; other parts of the class are added to the pool before and after. -/
structure FrameRun where
  seed? : Option Pool
  first : PoolBuilder
  starts : PoolBuilder.Starts seed? first
  builder : PoolBuilder
  before : first.LeadsTo builder
  context : CodeContext
  items : List CodeItem
  laidOut : CodeLayout.ofItems context.method items = .ok context.layout
  /-- Frames with the number of the part that they stand in front of. -/
  frames : List (Nat × Frame)
  ordered : (frames.map Prod.fst).Pairwise (· ≤ ·)
  inside : ∀ entry ∈ frames, context.layout.position entry.1 < context.layout.code.size
  table : Table
  next : PoolBuilder
  written : Draft.on (context.writeFrames none frames) (Table.empty, builder) = (.ok (), table, next)
  last : PoolBuilder
  after : next.LeadsTo last

namespace FrameRun

open ClassFile.Frame

/-- Whether an input holds the pool of the class, the table of its bootstrap methods at `bootstraps`
and the frames at `offset`. -/
structure IsIn (run : FrameRun) (input : Input) (bootstraps offset : Nat) : Prop where
  pool : input.HasAt 8 (run.last.write .empty).toList
  bootstraps : input.HasAt bootstraps (run.last.writeBootstraps .empty).toList
  table : input.HasAt offset run.table.toOutput.toList

/-- The first frame at each place. -/
def kept (run : FrameRun) : List (Nat × Frame) :=
  firstAtEach (run.context.placed run.frames)

/-- A frame with the places of its labels. -/
def atPlaces (run : FrameRun) (entry : Nat × Frame) : Label × Frame :=
  (entry.1, entry.2.mapValues (FrameValue.relabel run.context.layout.placeOf))

variable (run : FrameRun)

theorem pairwise_placed :
    ((run.context.placed run.frames).map Prod.fst).Pairwise (· ≤ ·) := by
  rw [CodeContext.placed, List.map_map]
  have recorded := run.ordered
  rw [List.pairwise_map] at recorded ⊢
  exact recorded.imp fun {one other} => CodeLayout.position_mono run.laidOut

theorem ascend_kept : Ascend none run.kept := by
  rw [kept, ← keptBehind_none run.pairwise_placed]
  exact ascend_keptBehind none _

theorem lt_size_of_mem_kept {entry : Nat × Frame} (member : entry ∈ run.kept) :
    entry.1 < run.context.layout.code.size := by
  rcases List.mem_map.mp (mem_of_mem_firstAtEach member) with ⟨recorded, isFrame, rfl⟩
  exact run.inside recorded isFrame

/-- The pool at the end of a run knows what the written table stands for. -/
theorem exists_content (survive : ∀ entry ∈ run.frames, entry.2.Survives)
    (counted : ∀ entry ∈ run.frames, entry.2.IsCounted) :
    ∃ content, run.last.Holds content ∧ ∀ pool : Pool, pool.Has content →
      run.table.Spells (SpellsWithGap pool run.context.layout.offsets.place?) (withGaps none run.kept) := by
  rcases run.starts.holds with ⟨seedContent, holdsFirst, -⟩
  rcases run.before.added holdsFirst with ⟨content, added⟩
  rcases CodeContext.runs_writeFrames survive counted none [] _ _ _ added.holds
    (fun pool _ => Table.spells_empty) _ _ _ run.written with ⟨written, addedWritten, spelled⟩
  rcases run.after.added addedWritten.holds with ⟨later, addedLater⟩
  refine ⟨later, addedLater.holds, fun pool has => ?_⟩
  have kept := spelled pool (has.mono addedLater.contentGrows)
  rwa [List.nil_append, keptBehind_none run.pairwise_placed] at kept

/-- The frames that are written are read again.  Of those that are recorded at one place it is the first,
and no other.  They are read in the order in which they were recorded, each at the place of the part that it
stood in front of, with the values that it had; a label is told as its place, which it has.  The bytes
that are read are exactly those that were written. -/
theorem framesAt_written (survive : ∀ entry ∈ run.frames, entry.2.Survives)
    (counted : ∀ entry ∈ run.frames, entry.2.IsCounted) {input : Input} {bootstraps offset : Nat}
    (isIn : run.IsIn input bootstraps offset) :
    ∃ parsed pool, Pool.ofInput? input = .ok parsed ∧
      parsed.withBootstrapMethods bootstraps = .ok pool ∧
      (∀ entry ∈ run.kept, ∀ value ∈ entry.2.values, ∀ label ∈ value.labels,
        ∃ place, run.context.layout.offsets.place? label = some place) ∧
      ∀ (image : ClassImage) (body : CodeBody), image.input = input → image.pool = pool →
        body.code.length = run.context.layout.code.size →
          ∃ count later, image.input.u16 offset = .ok count ∧
            image.readFrames (offset + 2) none [] body count.toNat =
              .ok (run.kept.map run.atPlaces, later) ∧
            image.FramesAt none body (offset + 2) (run.kept.map run.atPlaces) later
              (offset + run.table.toOutput.size) := by
  rcases run.exists_content survive counted with ⟨content, holds, known⟩
  rcases holds.parses isIn.pool isIn.bootstraps with ⟨parsed, pool, read, readMethods, -, same⟩
  have spelled := known pool same.has
  refine ⟨parsed, pool, read, readMethods, ?_, ?_⟩
  · intro entry member
    have stored : entry.2 ∈ (withGaps none run.kept).map Prod.snd := by
      rw [map_snd_withGaps]
      exact List.mem_map_of_mem member
    rcases List.mem_map.mp stored with ⟨apart, isStored, same⟩
    rcases spelled.entries.exists_of_mem isStored with ⟨bytes, spelledEntry⟩
    rw [← same]
    exact spelledEntry.places
  · rintro image body rfl rfl fits
    have held := isIn.table
    rw [Table.toOutput, Table.toList_write, Output.toList_empty, List.nil_append] at held
    rcases (CodeLayout.isBounded_of_ofItems run.laidOut).framesAt_of_spells fits run.ascend_kept
      (fun entry => run.lt_size_of_mem_kept) spelled.entries held.right with ⟨later, stands⟩
    have stop : offset + 2 + (Pieces.toList run.table.entries).length =
        offset + run.table.toOutput.size := by
      rw [Output.size_eq_length, Table.toOutput, Table.toList_write, Output.toList_empty,
        List.nil_append, List.length_append, length_bigEndian16, Nat.add_assoc]
    have count : (run.kept.map run.atPlaces).length = run.table.count.toNat := by
      rw [spelled.count, length_withGaps, List.length_map]
    rw [length_bigEndian16, stop] at stands
    exact ⟨run.table.count, later, held.left.u16,
      ClassImage.readFrames_eq_ok.mpr ⟨_, _, count, by simp, stands⟩, stands⟩

/-- A body with a label in front of its second instruction. -/
def shortBody : List CodeItem :=
  [.fixed [Opcode.aconstNull.code], .label 0, .fixed [Opcode.pop.code], .fixed [Opcode.returnVoid.code]]

/-- The parts of that body as they are laid out. -/
def shortLayout : CodeLayout where
  code := Output.empty.bytes [Opcode.aconstNull.code, Opcode.pop.code, Opcode.returnVoid.code]
  offsets := ofSized (shortBody.map fun item => (item, .wide))

/-- Two frames in front of the second instruction, and one in front of the last. -/
def shortFrames : List (Nat × Frame) :=
  [(1, .same1 (.uninitialized 0)), (2, .same), (3, .append [.integer])]

theorem ofItems_shortBody : CodeLayout.ofItems .empty shortBody = .ok shortLayout := by
  have settled : CodeLayout.Settled .empty (shortBody.map fun item => (item, .wide)) := rfl
  rw [CodeLayout.ofItems, CodeLayout.settle_of_settled settled, ok_bind]
  rfl

theorem position_shortLayout : shortLayout.position 1 = 1 ∧ shortLayout.position 2 = 1 ∧
    shortLayout.position 3 = 2 :=
  ⟨rfl, rfl, rfl⟩

theorem on_writeFrames_shortFrames (builder : PoolBuilder) :
    ∃ table, Draft.on (CodeContext.writeFrames ⟨.empty, shortLayout⟩ none shortFrames)
      (Table.empty, builder) = (.ok (), table, builder) := by
  have place (state : Table × PoolBuilder) :
      Draft.on (CodeContext.labelOffset ⟨.empty, shortLayout⟩ 0) state = (.ok 1, state) := by
    have known : shortLayout.labelOffset .empty 0 = .ok 1 := by
      rw [CodeLayout.labelOffset, shortLayout, resolve_ofSized]
      rfl
    rw [Draft.on, CodeContext.labelOffset]
    simp only [known]
    rfl
  rcases position_shortLayout with ⟨one, two, three⟩
  simp only [shortFrames, CodeContext.writeFrames_cons, one, two, three]
  rw [if_pos (by simp), if_neg (by simp), if_pos (by simp)]
  simp only [CodeContext.frame, CodeContext.writeValue, Draft.on_bind, place]
  exact ⟨_, rfl⟩

theorem exists_shortRun : ∃ run : FrameRun, run.frames = shortFrames := by
  have inside : ∀ entry ∈ shortFrames, shortLayout.position entry.1 < shortLayout.code.size := by
    rcases position_shortLayout with ⟨one, two, three⟩
    have size : shortLayout.code.size = 3 := by simp [Output.size_eq_length, shortLayout]
    simp [shortFrames, one, two, three, size]
  rcases on_writeFrames_shortFrames .empty with ⟨table, written⟩
  exact ⟨{
    starts := .empty
    before := .refl .empty
    context := ⟨.empty, shortLayout⟩
    items := shortBody
    laidOut := ofItems_shortBody
    frames := shortFrames
    ordered := by simp [shortFrames]
    inside
    written
    after := .refl _
    .. }, rfl⟩

theorem framesAt_written_shortFrames : ∃ run : FrameRun, run.frames = shortFrames ∧
    (∀ entry ∈ run.frames, entry.2.Survives) ∧ (∀ entry ∈ run.frames, entry.2.IsCounted) ∧
    ∃ (input : Input) (bootstraps offset : Nat) (image : ClassImage) (body later : CodeBody) (count : Nat),
      run.IsIn input bootstraps offset ∧
        image.readFrames (offset + 2) none [] body count = .ok (run.kept.map run.atPlaces, later) := by
  rcases exists_shortRun with ⟨run, isShort⟩
  have survive : ∀ entry ∈ run.frames, entry.2.Survives := by
    rw [isShort]
    simp [shortFrames, Frame.Survives, Frame.values, FrameValue.Survives]
  have counted : ∀ entry ∈ run.frames, entry.2.IsCounted := by
    rw [isShort]
    simp [shortFrames, Frame.IsCounted]
  let entries := (run.last.write .empty).toList
  let bootstraps := (run.last.writeBootstraps .empty).toList
  let file : Input :=
    ⟨⟨(List.replicate 8 0 ++ (entries ++ (bootstraps ++ run.table.toOutput.toList))).toArray⟩⟩
  have held : file.HasAt 8 (entries ++ (bootstraps ++ run.table.toOutput.toList)) := by
    simp [Input.HasAt, Input.toList, file]
  have isIn : run.IsIn file _ _ := ⟨held.left, held.right.left, held.right.right⟩
  rcases run.framesAt_written survive counted isIn with ⟨-, pool, -, -, -, reads⟩
  let code : CodeArray := ⟨0, run.context.layout.code.size⟩
  rcases reads ⟨file, pool, .standard, 0, 0⟩ ⟨0, 0, code, ∅, 0, ∅, none, none, [], #[], {}⟩ rfl rfl rfl
    with ⟨count, later, -, read, -⟩
  exact ⟨run, isShort, survive, counted, file, _, _, _, _, later, _, isIn, read⟩

end FrameRun

end ClassFile
