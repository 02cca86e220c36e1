import ClassFile.Proofs.Code.Decoding
import ClassFile.Proofs.Image.Boundaries

/-!
# Stepping over laid out code

The first pass over a code array steps from one part of the body that was laid out to the next, if it accepts
them.  So every part starts at a boundary, whatever the indices in it stand for
(`CodeLayout.Faithful.isBoundary_position`), and so does a label in front of an instruction
(`CodeLayout.Faithful.exists_position`).
-/

namespace ClassFile

open ClassImage

/-- Whether the first pass goes on right behind the bytes of an instruction at a place in a code array, if
it accepts them. -/
structure StepsOver (start : Nat) (bytes : List UInt8) : Prop where
  length_pos : 0 < bytes.length
  next : ∀ (image : ClassImage) (code : CodeArray) (marked : LabelSet × Nat),
    image.input.HasAt (code.start + start) bytes →
      image.markInstruction code (code.start + start) ∅ = .ok marked →
        marked.2 = code.start + start + bytes.length

namespace StepsOver

variable {start : Nat} {byte : UInt8} {rest : List UInt8}

/-- The layout of the operands fixes the length of the instruction. -/
theorem of_size {layout : Layout} (known : Layout.ofByte? byte = some layout)
    (sized : layout.size? = some (rest.length + 1)) : StepsOver start (byte :: rest) := by
  refine ⟨by simp, fun image code marked held accepted => ?_⟩
  have first : image.input.HasAt (code.start + start) [byte] := @Input.HasAt.left _ _ [byte] rest held
  rw [markInstruction, CodeArray.position_eq_ok.mpr ⟨start_le_of_markInstruction accepted, rfl⟩,
    ok_bind, first.u8, ok_bind, known] at accepted
  rw [List.length_cons]
  cases layout
  case tableSwitch | lookupSwitch | wide => cases sized
  case jump | jumpWide =>
    simp only [bind_eq_ok, pure_eq_ok] at accepted
    rcases accepted with ⟨_, -, _, -, rfl⟩
    exact congrArg (code.start + start + ·) (Option.some.inj sized)
  all_goals
    cases accepted
    exact congrArg (code.start + start + ·) (Option.some.inj sized)

/-- The prefix makes the operands of the instruction behind it wide. -/
theorem of_wide (known : Layout.ofByte? byte = some .variable ∧ rest.length = 2 ∨
    Layout.ofByte? byte = some .increment ∧ rest.length = 4) :
    StepsOver start (Layout.widePrefix :: byte :: rest) := by
  refine ⟨by simp, fun image code marked held accepted => ?_⟩
  rcases Input.hasAt_cons.mp held with ⟨first, behind⟩
  have second : image.input.HasAt (code.start + start + 1) [byte] := @Input.HasAt.left _ _ [byte] rest behind
  rw [markInstruction, CodeArray.position_eq_ok.mpr ⟨start_le_of_markInstruction accepted, rfl⟩,
    ok_bind, first.u8, ok_bind, show Layout.ofByte? Layout.widePrefix = some .wide by decide] at accepted
  simp only [second.u8, ok_bind] at accepted
  rw [List.length_cons, List.length_cons]
  rcases known with ⟨known, two⟩ | ⟨known, four⟩
  · rw [known] at accepted
    cases accepted
    rw [two]
  · rw [known] at accepted
    cases accepted
    rw [four]

theorem of_jump {opcode : Opcode} (isJump : opcode.layout = .jump) (operand : UInt16) :
    StepsOver start (opcode.code :: bigEndian16 operand) :=
  of_size opcode.ofByte?_code (by rw [isJump, length_bigEndian16]; rfl)

theorem of_jumpWide {byte : UInt8} (isWide : Layout.ofByte? byte = some .jumpWide) (operand : UInt32) :
    StepsOver start (byte :: bigEndian32 operand) :=
  of_size isWide (by rw [length_bigEndian32]; rfl)

theorem of_tableSwitch {low high distance : Int32} {padding : Nat} {distances : List Int32}
    (short : padding < 4) (aligned : 4 ∣ start + 1 + padding)
    (counted : high.toInt - low.toInt + 1 = distances.length) :
    StepsOver start (Opcode.tableswitch.code :: List.replicate padding 0 ++
      (bigEndian32 distance.toUInt32 ++ bigEndian32 low.toUInt32 ++ bigEndian32 high.toUInt32 ++
        distanceBytes distances)) := by
  rw [Layout.eq_switchPadding short aligned]
  refine ⟨by simp, fun image code marked held accepted => ?_⟩
  rcases Input.hasAt_append.mp held with ⟨front, operands⟩
  have byte : image.input.HasAt (code.start + start) [Opcode.tableswitch.code] :=
    @Input.HasAt.left _ _ [_] _ front
  rw [List.length_cons, List.length_replicate, Nat.add_comm _ 1, ← Nat.add_assoc] at operands
  simp only [Input.hasAt_append, List.length_append, length_bigEndian32] at operands
  rcases operands with ⟨⟨⟨defaultHeld, lowHeld⟩, highHeld⟩, -⟩
  rw [markInstruction, CodeArray.position_eq_ok.mpr ⟨start_le_of_markInstruction accepted, rfl⟩,
    ok_bind, byte.u8, ok_bind, show Layout.ofByte? Opcode.tableswitch.code = some .tableSwitch by decide,
    Nat.add_sub_cancel_left] at accepted
  simp only [bind_eq_ok, pure_eq_ok] at accepted
  rcases accepted with ⟨head, isHead, _, -, _, -, rfl⟩
  simp only [tableHead, defaultHeld.i32, lowHeld.i32, highHeld.i32, ok_bind] at isHead
  split at isHead
  · cases isHead
  · cases isHead
    simp [TableHead.count, counted]
    omega

theorem of_lookupSwitch {distance count : Int32} {padding : Nat} {written : List (Int32 × Int32)}
    (short : padding < 4) (aligned : 4 ∣ start + 1 + padding) (counted : count.toInt = written.length) :
    StepsOver start (Opcode.lookupswitch.code :: List.replicate padding 0 ++
      (bigEndian32 distance.toUInt32 ++ bigEndian32 count.toUInt32 ++ caseBytes written)) := by
  rw [Layout.eq_switchPadding short aligned]
  refine ⟨by simp, fun image code marked held accepted => ?_⟩
  rcases Input.hasAt_append.mp held with ⟨front, operands⟩
  have byte : image.input.HasAt (code.start + start) [Opcode.lookupswitch.code] :=
    @Input.HasAt.left _ _ [_] _ front
  rw [List.length_cons, List.length_replicate, Nat.add_comm _ 1, ← Nat.add_assoc] at operands
  simp only [Input.hasAt_append, List.length_append, length_bigEndian32] at operands
  rcases operands with ⟨⟨defaultHeld, countHeld⟩, -⟩
  rw [markInstruction, CodeArray.position_eq_ok.mpr ⟨start_le_of_markInstruction accepted, rfl⟩,
    ok_bind, byte.u8, ok_bind, show Layout.ofByte? Opcode.lookupswitch.code = some .lookupSwitch by decide,
    Nat.add_sub_cancel_left] at accepted
  simp only [bind_eq_ok, pure_eq_ok] at accepted
  rcases accepted with ⟨head, isHead, _, -, _, -, rfl⟩
  simp only [lookupHead, defaultHeld.i32, countHeld.i32, ok_bind] at isHead
  split at isHead
  · cases isHead
  · cases isHead
    simp [counted]
    omega

end StepsOver

/-! ### Parts -/

/-- Whether a part of a body is what an element is recorded as, whatever the indices in it stand for. -/
inductive Instruction.IsKeptAs : Instruction → CodeItem → Prop where
  | label (label : Label) : IsKeptAs (.label label) (.label label)
  | fixed {instruction : Instruction} {bytes : List UInt8} (real : instruction.isReal = true)
      (steps : ∀ start, StepsOver start bytes) : IsKeptAs instruction (.fixed bytes)
  | jump {opcode : Opcode} (target : Label) (isJump : opcode.layout = .jump) :
      IsKeptAs (.jump opcode target) (.jump opcode target)
  | tableSwitch {low high : Int32} (default : Label) {targets : List Label}
      (counted : high.toInt - low.toInt + 1 = targets.length) :
      IsKeptAs (.tableSwitch low high default targets) (.tableSwitch low high default targets)
  | lookupSwitch (default : Label) (cases : List (Int32 × Label)) :
      IsKeptAs (.lookupSwitch default cases) (.lookupSwitch default cases)

theorem Instruction.IsKeptAs.length_pos {instruction : Instruction} {item : CodeItem}
    (kept : instruction.IsKeptAs item) (real : instruction.isReal = true)
    {places : Label → Option Nat} {start : Nat} {bytes : List UInt8}
    (encoded : item.Encoded places start bytes) : 0 < bytes.length := by
  cases kept with
  | label => cases real
  | fixed _ steps =>
      cases encoded
      exact (steps start).length_pos
  | jump | tableSwitch | lookupSwitch => cases encoded <;> simp

namespace ClassImage

variable {image : ClassImage} {api : Api} {code : CodeArray} {entries : List (Label × Instruction)}

/-- Code that the second pass reads is accepted by the first. -/
theorem Reads.exists_marked {pc : Nat} (reads : Reads image api code code.stop code.start entries)
    (boundary : IsBoundary image code pc) (inside : pc < code.stop) :
    ∃ marked, image.markInstruction code pc ∅ = .ok marked := by
  rcases reads.exists_split boundary with ⟨behind, front, back, -, others⟩
  cases others with
  | done => exact absurd inside (Nat.lt_irrefl _)
  | step _ wellFormed read => exact ⟨_, markInstruction_of_readInstruction read wellFormed behind ∅⟩

theorem IsBoundary.over {start : Nat} {bytes : List UInt8}
    (boundary : IsBoundary image code (code.start + start))
    (reads : Reads image api code code.stop code.start entries) (steps : StepsOver start bytes)
    (held : image.input.HasAt (code.start + start) bytes) (fits : start + bytes.length ≤ code.length) :
    IsBoundary image code (code.start + (start + bytes.length)) := by
  have inside : code.start + start < code.stop :=
    Nat.add_lt_add_left (Nat.lt_of_lt_of_le (Nat.lt_add_of_pos_right steps.length_pos) fits) _
  rw [← Nat.add_assoc]
  rcases reads.exists_marked boundary inside with ⟨marked, accepted⟩
  exact steps.next _ _ _ held accepted ▸ .next boundary inside accepted

/-- The first pass comes from the start of a part to the start of the next. -/
theorem IsBoundary.part {instruction : Instruction} {item : CodeItem} {start : Nat} {bytes : List UInt8}
    (boundary : IsBoundary image code (code.start + start))
    (reads : Reads image api code code.stop code.start entries) (kept : instruction.IsKeptAs item)
    {places : Label → Option Nat} (encoded : item.Encoded places start bytes)
    (held : image.input.HasAt (code.start + start) bytes) (fits : start + bytes.length ≤ code.length) :
    IsBoundary image code (code.start + (start + bytes.length)) := by
  have passed (steps : StepsOver start bytes) :
      IsBoundary image code (code.start + (start + bytes.length)) :=
    boundary.over reads steps held fits
  cases kept with
  | label =>
      cases encoded
      exact boundary
  | fixed _ steps =>
      cases encoded
      exact passed (steps start)
  | jump target isJump =>
      cases encoded with
      | narrow => exact passed (.of_jump isJump _)
      | gotoWide | jsrWide => exact passed (.of_jumpWide (by decide) _)
      | inverted inverts =>
          rw [List.length_append] at fits ⊢
          have jump := boundary.over reads (.of_jump (Opcode.layout_of_invertedCondition isJump inverts) _)
            held.left (by omega)
          rw [← Nat.add_assoc] at fits ⊢
          refine jump.over reads (.of_jumpWide (by decide) _) ?_ fits
          rw [← Nat.add_assoc]
          exact held.right
  | tableSwitch _ counted =>
      cases encoded with
      | tableSwitch short aligned _ reaches =>
          refine passed (.of_tableSwitch short aligned ?_)
          rw [counted, reaches.length_eq]
  | lookupSwitch =>
      cases encoded with
      | lookupSwitch short aligned counted _ reaches =>
          refine passed (.of_lookupSwitch short aligned ?_)
          rw [counted, reaches.length_eq]

end ClassImage

namespace CodeLayout

variable {layout : CodeLayout} {elements : List Instruction} {items : List CodeItem}

theorem jumps_of_kept (kept : List.Forall₂ Instruction.IsKeptAs elements items) (opcode : Opcode)
    (target : Label) (isPart : .jump opcode target ∈ items) : opcode.layout = .jump := by
  induction kept with
  | nil => cases isPart
  | cons here _ ih =>
      rcases List.mem_cons.mp isPart with rfl | later
      · cases here
        assumption
      · exact ih later

section Reads

variable (faithful : layout.Faithful items) (kept : List.Forall₂ Instruction.IsKeptAs elements items)
include faithful kept

/-- Every part of the body starts at a boundary. -/
theorem Faithful.isBoundary_position {image : ClassImage} {api : Api} {code : CodeArray}
    {entries : List (Label × Instruction)} (starts : layout.position 0 = 0)
    (held : image.input.HasAt code.start layout.code.toList) (size : code.length = layout.code.size)
    (reads : Reads image api code code.stop code.start entries) {index : Nat}
    (inside : index ≤ items.length) :
    IsBoundary image code (code.start + layout.position index) := by
  induction index with
  | zero =>
      rw [starts]
      exact .start
  | succ index ih =>
      have next := faithful.position_succ index inside
      have ends := faithful.position_mono inside (Nat.le_refl _)
      rw [← faithful.size_eq, ← size] at ends
      have part := List.forall₂_iff_get.mp kept
      rw [next] at ends ⊢
      exact (ih (Nat.le_of_lt inside)).part reads (part.2 index (part.1 ▸ inside) inside)
        (faithful.encoded index inside) (held.part _ _) ends

/-- A label that is visited in front of an instruction is the place of a part in front of the end. -/
theorem Faithful.exists_position {label : Label} {instruction : Instruction}
    (behind : [.label label, instruction].Sublist elements) (real : instruction.isReal = true) :
    ∃ visit ≤ items.length, layout.placeOf label = layout.position visit ∧
      layout.position visit < layout.code.size := by
  rcases List.cons_sublist_iff.mp behind with ⟨front, back, rfl, visited, later⟩
  rcases List.getElem?_of_mem visited with ⟨index, isVisit⟩
  rcases List.getElem?_of_mem (List.singleton_sublist.mp later) with ⟨more, isReal⟩
  have before := (List.getElem?_eq_some_iff.mp isVisit).1
  have isVisit : (front ++ back)[index]? = some (.label label) := by
    rw [List.getElem?_append_left before, isVisit]
  have isReal : (front ++ back)[front.length + more]? = some instruction := by
    rw [List.getElem?_append_right (Nat.le_add_right _ _), Nat.add_sub_cancel_left, isReal]
  have isKept (place : Nat) (element : Instruction) (found : (front ++ back)[place]? = some element) :
      ∃ item, items[place]? = some item ∧ element.IsKeptAs item := by
    rcases getElem?_of_forall₂ kept place with ⟨none, -⟩ | ⟨other, item, same, here, isKept⟩
    · cases none.symm.trans found
    · cases same.symm.trans found
      exact ⟨item, here, isKept⟩
  have visitHere : items[index]? = some (.label label) := by
    rcases isKept _ _ isVisit with ⟨item, here, keptLabel⟩
    cases keptLabel with
    | label => exact here
    | fixed labelReal => cases labelReal
  rcases isKept _ _ isReal with ⟨item, itemHere, keptReal⟩
  rcases List.getElem?_eq_some_iff.mp itemHere with ⟨inside, rfl⟩
  cases first : items.findIdx? (CodeOffsets.isLabel label) with
  | none =>
      have never := List.findIdx?_eq_none_iff.mp first _ (List.mem_of_getElem? visitHere)
      simp [CodeOffsets.isLabel] at never
  | some visit =>
      have early : visit ≤ index := by
        rcases List.findIdx?_eq_some_iff_getElem.mp first with ⟨_, -, earliest⟩
        refine Nat.le_of_not_lt fun late => earliest index late ?_
        rw [(List.getElem?_eq_some_iff.mp visitHere).2]
        simp [CodeOffsets.isLabel]
      refine ⟨visit, by omega, placeOf_eq (by rw [faithful.place_eq, first, Option.map_some]), ?_⟩
      have bytes := keptReal.length_pos real (faithful.encoded _ inside)
      calc layout.position visit ≤ layout.position (front.length + more) :=
            faithful.position_mono (by omega) (Nat.le_of_lt inside)
        _ < layout.position (front.length + more + 1) := by
            rw [faithful.position_succ _ inside]
            exact Nat.lt_add_of_pos_right bytes
        _ ≤ layout.position items.length := faithful.position_mono inside (Nat.le_refl _)
        _ = layout.code.size := faithful.size_eq.symm

end Reads

end CodeLayout

end ClassFile
