import ClassFile.Proofs.Code.Heard
import ClassFile.Proofs.Frames.RoundTrip

/-!
# Frames at the targets of branches

Where a branch leads there has to be a frame.  If one is recorded wherever a jump or a switch of the body
leads, the table has one wherever an instruction of the code array leads, but for one sort: the long form of
a condition is an opposite condition that leads behind it, and there is a frame only if one was recorded
there for another reason (`FrameRun.exists_kept_of_target`).
-/

namespace ClassFile

/-- What is told of an element leads where the element leads, or it is the long form of a condition and leads
behind it. -/
theorem Instruction.ToldAs.target_cases {place : Label → Label} {start stop : Label}
    {instruction : Instruction} {part : List (Label × Instruction)}
    (told : instruction.ToldAs place start stop part) {entry : Label × Instruction}
    (member : entry ∈ part) {target : Label} (leads : target ∈ entry.2.labels) :
    (instruction.isReal = true ∧ ∃ label ∈ instruction.labels, place label = target) ∨
      (part.length = 2 ∧ entry.1 = start ∧ target = stop) := by
  cases told with
  | label => cases member
  | same real =>
      rw [List.mem_singleton.mp member, labels_relabel real] at leads
      exact .inl ⟨real, List.mem_map.mp leads⟩
  | @inverted opcode opposite label inverts wide =>
      simp only [List.mem_cons, List.not_mem_nil, or_false] at member
      rcases member with rfl | rfl
      · exact .inr ⟨rfl, rfl, List.mem_singleton.mp leads⟩
      · exact .inl ⟨rfl, label, List.mem_singleton_self _, (List.mem_singleton.mp leads).symm⟩

namespace FrameRun

open ClassImage

variable (run : FrameRun)

/-- There is a frame in the table at exactly those places at which one was recorded. -/
theorem exists_kept_iff {place : Nat} :
    (∃ frame, (place, frame) ∈ run.kept) ↔
      ∃ recorded ∈ run.frames, run.context.layout.position recorded.1 = place := by
  constructor
  · rintro ⟨frame, member⟩
    rcases List.mem_map.mp (Frame.mem_of_mem_firstAtEach member) with ⟨recorded, isFrame, same⟩
    exact ⟨recorded, isFrame, congrArg Prod.fst same⟩
  · rintro ⟨recorded, isFrame, rfl⟩
    have isPlaced : (run.context.layout.position recorded.1, recorded.2) ∈
        run.context.placed run.frames :=
      List.mem_map_of_mem isFrame
    exact Frame.exists_mem_firstAtEach isPlaced

/-- If a frame is recorded wherever a jump or a switch leads, every instruction that is read of the laid out
code leads to places with a frame in the table, unless it is the opposite condition in the long form of a
condition.  That leads behind the long form, where there is a frame in the table only if one was recorded
there. -/
theorem exists_kept_of_target {events : List Instruction} {image : ClassImage} {api : Api}
    {code : CodeArray} (stand : List.Forall₂ (Instruction.Stands image.pool api) events run.items)
    (covered : ∀ event ∈ events, event.isReal = true → ∀ label ∈ event.labels,
      ∃ recorded ∈ run.frames, run.context.layout.offsets.place? label =
        some (run.context.layout.position recorded.1))
    (followed : ∀ (index : Nat) (event : Instruction), events[index]? = some event →
      event.isConditional = true →
        run.context.layout.position (index + 1) < run.context.layout.code.size)
    (held : image.input.HasAt code.start run.context.layout.code.toList)
    (size : code.length = run.context.layout.code.size) :
    ∃ parts, run.context.layout.ToldIn events parts ∧
      Reads image api code code.stop code.start parts.flatten ∧
      ∀ (index : Nat) (part : List (Label × Instruction)), parts[index]? = some part →
        ∀ entry ∈ part, ∀ target ∈ entry.2.labels,
          ((∃ frame, (target, frame) ∈ run.kept) ∨
            (part.length = 2 ∧ entry.1 = run.context.layout.position index ∧
              target = run.context.layout.position (index + 1))) ∧
          ((∃ frame, (target, frame) ∈ run.kept) ↔
            ∃ recorded ∈ run.frames, run.context.layout.position recorded.1 = target) := by
  have jumps := Instruction.jumps_of_stand stand
  have faithful := CodeLayout.faithful_ofItems jumps run.laidOut
  have starts := CodeLayout.position_zero jumps run.laidOut
  have placed (event : Instruction) (member : event ∈ events) (real : event.isReal = true)
      (label : Label) (mentioned : label ∈ event.labels) : ∃ recorded ∈ run.frames,
        run.context.layout.position recorded.1 = run.context.layout.placeOf label := by
    rcases covered event member real label mentioned with ⟨recorded, isFrame, known⟩
    exact ⟨recorded, isFrame, (CodeLayout.placeOf_eq known).symm⟩
  have inside : ∀ event ∈ events, event.isReal = true → ∀ label ∈ event.labels,
      run.context.layout.placeOf label < code.length := by
    intro event member real label mentioned
    rcases placed event member real label mentioned with ⟨recorded, isFrame, same⟩
    rw [← same, size]
    exact run.inside recorded isFrame
  rcases faithful.exists_parts stand held size inside (size ▸ followed) with ⟨parts, told, each⟩
  have count : parts.length = run.items.length := told.length_eq.trans stand.length_eq
  refine ⟨parts, told, faithful.reads_flatten starts count size each, ?_⟩
  intro index part isPart entry member target leads
  refine ⟨?_, run.exists_kept_iff⟩
  have before := (List.getElem?_eq_some_iff.mp isPart).1
  rw [told.length_eq] at before
  have found := List.getElem?_eq_getElem before
  rcases (told.told index _ part found isPart).target_cases member leads with
    ⟨real, label, mentioned, rfl⟩ | skips
  · exact .inl (run.exists_kept_iff.mpr
      (placed _ (List.mem_of_getElem? found) real label mentioned))
  · exact .inr skips

/-! ### A condition without a frame behind it -/

/-- A loop whose steps all succeed does. -/
theorem exists_foldlM {ε α β : Type} {step : β → α → Except ε β} {values : List α}
    (succeeds : ∀ value ∈ values, ∀ state, ∃ next, step state value = .ok next) (state : β) :
    ∃ final, values.foldlM step state = .ok final := by
  induction values generalizing state with
  | nil => exact ⟨state, rfl⟩
  | cons value rest ih =>
      rw [List.forall_mem_cons] at succeeds
      rcases succeeds.1 state with ⟨next, first⟩
      rw [List.foldlM_cons, first]
      exact ih succeeds.2 next

/-- A condition that leads over a switch, which is followed by the label that both lead to. -/
def farBody (targets : List Label) : List CodeItem :=
  [.jump .ifeq 0, .tableSwitch 0 8191 0 targets, .label 0, .fixed [Opcode.returnVoid.code]]

/-- The elements that the body is recorded for. -/
def farEvents (targets : List Label) : List Instruction :=
  [.jump .ifeq 0, .tableSwitch 0 8191 0 targets, .label 0, .simple .returnVoid]

/-- The parts of that body in the long form. -/
def farParts (targets : List Label) : List SizedItem :=
  (farBody targets).map fun item => (item, .wide)

section Far

open CodeLayout CodeOffsets

variable {targets : List Label} (many : targets.length = 8192)
include many

theorem startOf_farParts : startOf (farParts targets) 1 = 8 ∧ startOf (farParts targets) 2 = 32792 ∧
    startOf (farParts targets) 3 = 32792 ∧ (ofSized (farParts targets)).stop = 32793 := by
  simp [startOf, ofSized, farParts, farBody, add, CodeItem.size, many, JumpWidth.size,
    Layout.switchPadding]

/-- The switch is too long for a short condition. -/
theorem settled_farParts : Settled .empty (farParts targets) := by
  have rounded : CodeLayout.round .empty (farParts targets) =
      .ok ((CodeItem.jump .ifeq 0, JumpWidth.next .wide .ifeq
        (startOf (farParts targets) 2 - startOf (farParts targets) 0)) ::
          (farParts targets).tail) := by
    simp only [CodeLayout.round, toList_positions, resize, distance, resolve_ofSized]
    rfl
  rw [Settled, rounded, (startOf_farParts many).2.1]
  rfl

variable (all : ∀ target ∈ targets, target = 0)

include all in
theorem ofItems_farBody : ∃ layout, ofItems .empty (farBody targets) = .ok layout := by
  have measured (position : Nat) :
      ∃ distance, (ofSized (farParts targets)).distance .empty position 0 = .ok distance := by
    rw [distance, resolve_ofSized]
    exact ⟨_, rfl⟩
  have emits : ∀ part ∈ (farParts targets).zip (ofSized (farParts targets)).positions.toList,
      ∀ output, ∃ next,
        putItem (ofSized (farParts targets)) .empty output part.1 part.2 = .ok next := by
    rintro ⟨entry, position⟩ member output
    have inBody := (List.of_mem_zip member).1
    rcases measured position with ⟨distance, same⟩
    simp only [farParts, farBody, List.map_cons, List.map_nil, List.mem_cons, List.not_mem_nil,
      or_false] at inBody
    rcases inBody with rfl | rfl | rfl | rfl
    · simp only [putItem, same]
      exact ⟨_, rfl⟩
    · simp only [putItem, same, ok_bind]
      refine exists_foldlM (fun target isTarget output => ?_) _
      rw [all target isTarget, same]
      exact ⟨_, rfl⟩
    · exact ⟨_, rfl⟩
    · exact ⟨_, rfl⟩
  have settled : settle .empty ((farBody targets).map fun item => (item, .wide))
      (maxRounds (farBody targets)) = .ok (farParts targets) :=
    settle_of_settled (settled_farParts many) _
  rcases exists_foldlM emits .empty with ⟨code, written⟩
  have small : ¬maxCodeLength < (ofSized (farParts targets)).stop := by
    rw [(startOf_farParts many).2.2.2]
    decide
  rw [ofItems, settled, ok_bind]
  simp only [small, if_false]
  exact ⟨_, bind_eq_ok.mpr ⟨code, written, rfl⟩⟩

theorem position_farBody {layout : CodeLayout} (laidOut : ofItems .empty (farBody targets) = .ok layout) :
    layout.position 0 = 0 ∧ layout.position 1 = 8 ∧ layout.position 2 = 32792 ∧
      layout.position 3 = 32792 ∧ layout.code.size = 32793 ∧
        layout.offsets.place? 0 = some 32792 := by
  rcases exists_cut laidOut with ⟨rounds, entries, pieces, changing, settled, -, cut, -⟩
  obtain rfl := changing.eq_of_settled settled .none (settled_farParts many)
  rcases startOf_farParts many with ⟨one, two, three, stop⟩
  change layout.Cut (farParts targets) pieces at cut
  have count : (farParts targets).length = 4 := rfl
  refine ⟨?_, ?_, ?_, ?_, ?_, ?_⟩
  · rw [cut.position_eq (by omega), startOf_zero]
  · rw [cut.position_eq (by omega), one]
  · rw [cut.position_eq (by omega), two]
  · rw [cut.position_eq (by omega), three]
  · rw [cut.size_eq, startOf_length, stop]
  · rw [place?, cut.offsets_eq, labels_ofSized, ← two]
    rfl

include all in
/-- A run that writes the only frame of that body, which stands where all its jumps lead. -/
theorem exists_farRun : ∃ run : FrameRun,
    run.context.method = .empty ∧ run.items = farBody targets ∧ run.frames = [(3, .same)] := by
  rcases ofItems_farBody many all with ⟨layout, laidOut⟩
  rcases position_farBody many laidOut with ⟨-, -, -, three, size, -⟩
  have written : ∃ table, Draft.on (CodeContext.writeFrames ⟨.empty, layout⟩ none [(3, .same)])
      (Table.empty, PoolBuilder.empty) = (.ok (), table, PoolBuilder.empty) := by
    rw [CodeContext.writeFrames_cons, if_pos (by simp)]
    exact ⟨_, rfl⟩
  rcases written with ⟨table, written⟩
  exact ⟨{
    starts := .empty
    before := .refl .empty
    context := ⟨.empty, layout⟩
    items := farBody targets
    laidOut
    frames := [(3, .same)]
    ordered := by simp
    inside := by simp [three, size]
    written
    after := .refl _
    .. }, rfl, rfl, rfl⟩

end Far

theorem exists_kept_of_target_farBody : ∃ (run : FrameRun) (events : List Instruction)
    (image : ClassImage) (code : CodeArray) (parts : List (List (Label × Instruction))),
    List.Forall₂ (Instruction.Stands image.pool .latest) events run.items ∧
      (∀ event ∈ events, event.isReal = true → ∀ label ∈ event.labels,
        ∃ recorded ∈ run.frames, run.context.layout.offsets.place? label =
          some (run.context.layout.position recorded.1)) ∧
      Reads image .latest code code.stop code.start parts.flatten ∧
      ∃ entry ∈ parts.flatten, ∃ target ∈ entry.2.labels, ¬∃ frame, (target, frame) ∈ run.kept := by
  have many : (List.replicate 8192 (0 : Label)).length = 8192 := List.length_replicate
  have all : ∀ target ∈ List.replicate 8192 (0 : Label), target = 0 :=
    fun _ => List.eq_of_mem_replicate
  generalize List.replicate 8192 (0 : Label) = targets at many all
  rcases exists_farRun many all with ⟨run, method, items, frames⟩
  have laidOut := run.laidOut
  rw [method, items] at laidOut
  rcases position_farBody many laidOut with ⟨zero, one, two, three, size, known⟩
  let image : ClassImage := ⟨⟨run.context.layout.code.data⟩, default, .standard, 0, 0⟩
  have stand : List.Forall₂ (Instruction.Stands image.pool .latest) (farEvents targets) run.items := by
    rw [items]
    refine .cons (.jump 0 (by decide)) (.cons (.tableSwitch 0 (by decide) ?_)
      (.cons (.label 0) (.cons (.fixed (Instruction.decodes_simple (by decide))) .nil)))
    rw [many]
    decide
  have covered : ∀ event ∈ farEvents targets, event.isReal = true → ∀ label ∈ event.labels,
      ∃ recorded ∈ run.frames, run.context.layout.offsets.place? label =
        some (run.context.layout.position recorded.1) := by
    have only : ∀ event ∈ farEvents targets, ∀ label ∈ event.labels, label = 0 := by
      simpa [farEvents, Instruction.labels] using all
    intro event member _ label mentioned
    rw [only event member label mentioned, frames]
    exact ⟨_, List.mem_singleton_self _, by rw [known, three]⟩
  have followed : ∀ (index : Nat) (event : Instruction), (farEvents targets)[index]? = some event →
      event.isConditional = true →
        run.context.layout.position (index + 1) < run.context.layout.code.size := by
    intro index event found conditional
    have inside := (List.getElem?_eq_some_iff.mp found).1
    have count : (farEvents targets).length = 4 := rfl
    have first : index = 0 := by
      have last (unconditional : event.isConditional = false) : False := by
        rw [unconditional] at conditional
        cases conditional
      rcases index with _ | _ | _ | _ | index
      · rfl
      · cases found
        exact (last rfl).elim
      · cases found
        exact (last rfl).elim
      · cases found
        exact (last rfl).elim
      · omega
    rw [first, one, size]
    decide
  have held : image.input.HasAt 0 run.context.layout.code.toList := by
    simp [Input.HasAt, Input.toList, image, Output.toList]
  rcases @run.exists_kept_of_target (farEvents targets) image .latest
    ⟨0, run.context.layout.code.size⟩ stand covered followed held rfl with ⟨parts, told, reads, -⟩
  have unframed : ¬∃ frame, (8, frame) ∈ run.kept := by
    rw [run.exists_kept_iff, frames]
    simp [three]
  have here : (farEvents targets)[0]? = some (.jump .ifeq 0) := rfl
  rcases told.exists_part here with ⟨part, isPart, toldAs⟩
  rw [Nat.zero_add, zero, one] at toldAs
  have isLong : (0, .jump .ifne 8) ∈ part := by
    cases toldAs with
    | same _ narrow => cases narrow rfl
    | inverted inverts =>
        cases inverts
        exact List.mem_cons_self
  exact ⟨run, _, image, _, parts, stand, covered, reads, _,
    List.mem_flatten.mpr ⟨part, List.mem_of_getElem? isPart, isLong⟩, 8, List.mem_singleton_self _,
    unframed⟩

end FrameRun

end ClassFile
