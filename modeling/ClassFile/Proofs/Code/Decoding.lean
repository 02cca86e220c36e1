import ClassFile.Proofs.Code.Faithful
import ClassFile.Proofs.Image.Passes

/-!
# Reading laid out code

A part of a body that was recorded for an instruction is read back as that instruction, with the
places of its labels in their stead; only a long conditional jump is read as two
(`Instruction.ToldAs`).
-/

namespace ClassFile

namespace Instruction

/-- Whether the element is a jump that has an opposite condition. -/
def isConditional : Instruction → Bool
  | .jump opcode _ => opcode.invertedCondition.isSome
  | _ => false

theorem relabel_eq_self {instruction : Instruction} (real : instruction.isReal = true)
    (noLabels : instruction.labels = []) (rename : Label → Label) :
    instruction.relabel rename = instruction := by
  cases instruction
  case jump | label | tableSwitch | lookupSwitch => simp [labels] at noLabels
  case frame => simp [isReal, opcode?] at real
  case line => simp [isReal, opcode?] at real
  all_goals rfl

/-- What is told of an element whose bytes stand between two places, if each label has the given
place: every instruction with its own place. -/
inductive ToldAs (place : Label → Label) (start stop : Label) :
    Instruction → List (Label × Instruction) → Prop where
  | label (label : Label) : ToldAs place start stop (.label label) []
  | same {instruction : Instruction} (real : instruction.isReal = true)
      (narrow : instruction.isConditional = true → stop = start + 3) :
      ToldAs place start stop instruction [(start, instruction.relabel place)]
  /-- The long form of a condition. -/
  | inverted {opcode opposite : Opcode} {target : Label}
      (inverts : opcode.invertedCondition = some opposite) (wide : stop = start + 8) :
      ToldAs place start stop (.jump opcode target)
        [(start, .jump opposite stop), (start + 3, .jump .goto (place target))]

/-- Whether the bytes of an instruction without labels are read back against a pool. -/
structure Decodes (pool : Pool) (api : Api) (instruction : Instruction) (bytes : List UInt8) :
    Prop where
  real : instruction.isReal = true
  noLabels : instruction.labels = []
  nonempty : bytes ≠ []
  wellFormed : ClassImage.IsWellFormed instruction
  reads : ∀ (image : ClassImage) (code : CodeArray) (pc : Nat), image.pool = pool →
    image.input.HasAt pc bytes →
      image.readInstruction api code pc = .ok (instruction, pc + bytes.length)

/-- Whether a part of a body stands for an element that it was recorded for. -/
inductive Stands (pool : Pool) (api : Api) : Instruction → CodeItem → Prop where
  | label (label : Label) : Stands pool api (.label label) (.label label)
  | fixed {instruction : Instruction} {bytes : List UInt8}
      (decodes : Decodes pool api instruction bytes) :
      Stands pool api instruction (.fixed bytes)
  | jump {opcode : Opcode} (target : Label) (isJump : opcode.layout = .jump) :
      Stands pool api (.jump opcode target) (.jump opcode target)
  | tableSwitch {low high : Int32} (default : Label) {targets : List Label}
      (ordered : low ≤ high) (counted : high.toInt - low.toInt + 1 = targets.length) :
      Stands pool api (.tableSwitch low high default targets)
        (.tableSwitch low high default targets)
  | lookupSwitch (default : Label) (cases : List (Int32 × Label)) :
      Stands pool api (.lookupSwitch default cases) (.lookupSwitch default cases)

end Instruction

theorem Layout.eq_switchPadding {start padding : Nat} (short : padding < 4)
    (aligned : 4 ∣ start + 1 + padding) : padding = switchPadding start := by
  unfold switchPadding
  omega

namespace ClassImage

variable {image : ClassImage} {api : Api} {code : CodeArray} {start : Nat}

theorem branch_eq_ok {position : Nat} {delta : Int} {place : Nat} (source : Nat)
    (reaches : (place : Int) = position + delta) (inside : place < code.length) :
    code.branch position delta source = .ok place := by
  rw [CodeArray.branch, ← reaches, if_neg (by omega), Int.toNat_natCast]

theorem readInstruction_jump {opcode : Opcode} {distance : Int16} {place : Nat}
    (held : image.input.HasAt (code.start + start) (opcode.code :: bigEndian16 distance.toUInt16))
    (isJump : opcode.layout = .jump) (reaches : (place : Int) = start + distance.toInt)
    (inside : place < code.length) :
    image.readInstruction api code (code.start + start) =
      .ok (.jump opcode place, code.start + start + 3) := by
  rcases Input.hasAt_cons.mp held with ⟨byte, behind⟩
  rw [readInstruction]
  simp only [byte.u8, ok_bind, Opcode.ofByte?_code, isJump, Input.HasAt.i16 behind,
    Nat.add_sub_cancel_left, branch_eq_ok (code.start + start) reaches inside,
    opcodeAt_eq_ok.mpr rfl]
  rfl

theorem readInstruction_jumpWide {byte : UInt8} {distance : Int32} {place : Nat}
    (held : image.input.HasAt (code.start + start) (byte :: bigEndian32 distance.toUInt32))
    (isWide : Layout.ofByte? byte = some .jumpWide)
    (reaches : (place : Int) = start + distance.toInt) (inside : place < code.length) :
    image.readInstruction api code (code.start + start) =
      .ok (.jump (if byte = Layout.gotoWide then .goto else .jsr) place,
        code.start + start + 5) := by
  rcases Input.hasAt_cons.mp held with ⟨first, behind⟩
  rw [readInstruction]
  simp only [first.u8, ok_bind, isWide, Input.HasAt.i32 behind,
    Nat.add_sub_cancel_left, branch_eq_ok (code.start + start) reaches inside]
  rfl

section Switches

variable {places : Label → Option Nat} {place : Label → Label}
  (known : ∀ label target, places label = some target → place label = target)
include known

theorem readTargets_of_hasAt {targets : List Label} {distances : List Int32}
    (reaches : List.Forall₂ (fun target distance => Reaches places start target distance.toInt)
      targets distances)
    (inside : ∀ target ∈ targets, place target < code.length) {offset : Nat}
    (held : image.input.HasAt offset (distanceBytes distances)) (found : List Label) :
    image.readTargets code (code.start + start) offset found targets.length =
      .ok (found.reverse ++ targets.map place) := by
  induction reaches generalizing offset found with
  | nil => simp [readTargets]
  | @cons target distance targets distances reach _ ih =>
      rcases Input.hasAt_append.mp held with ⟨first, rest⟩
      rcases reach with ⟨target', found', equal⟩
      have reached := @branch_eq_ok code start _ _ (code.start + start) equal
        (known _ _ found' ▸ inside target List.mem_cons_self)
      rw [List.length_cons, readTargets]
      simp only [first.i32, ok_bind, Nat.add_sub_cancel_left, reached]
      rw [length_bigEndian32] at rest
      rw [ih (fun target member => inside target (List.mem_cons_of_mem _ member)) rest]
      simp [known _ _ found']

theorem readCases_of_hasAt {cases : List (Int32 × Label)} {written : List (Int32 × Int32)}
    (reaches : List.Forall₂
      (fun entry pair => entry.1 = pair.1 ∧ Reaches places start entry.2 pair.2.toInt)
      cases written)
    (inside : ∀ entry ∈ cases, place entry.2 < code.length) {offset : Nat}
    (held : image.input.HasAt offset (caseBytes written)) (found : List (Int32 × Label)) :
    image.readCases code (code.start + start) offset found cases.length =
      .ok (found.reverse ++ cases.map fun entry => (entry.1, place entry.2)) := by
  induction reaches generalizing offset found with
  | nil => simp [readCases]
  | @cons entry pair cases written reach _ ih =>
      rcases Input.hasAt_append.mp held with ⟨first, rest⟩
      rcases Input.hasAt_append.mp first with ⟨key, distance⟩
      rcases reach with ⟨sameKey, target, found', equal⟩
      have reached := @branch_eq_ok code start _ _ (code.start + start) equal
        (known _ _ found' ▸ inside entry List.mem_cons_self)
      rw [length_bigEndian32] at distance
      simp only [List.length_append, length_bigEndian32] at rest
      rw [List.length_cons, readCases]
      simp only [key.i32, distance.i32, ok_bind, Nat.add_sub_cancel_left, reached]
      rw [ih (fun entry member => inside entry (List.mem_cons_of_mem _ member)) rest]
      simp [known _ _ found', sameKey]

theorem readInstruction_tableSwitch {low high distance : Int32} {default : Label}
    {targets : List Label} {padding : Nat} {distances : List Int32}
    (held : image.input.HasAt (code.start + start)
      (Opcode.tableswitch.code :: List.replicate padding 0 ++
        (bigEndian32 distance.toUInt32 ++ bigEndian32 low.toUInt32 ++
          bigEndian32 high.toUInt32 ++ distanceBytes distances)))
    (short : padding < 4) (aligned : 4 ∣ start + 1 + padding)
    (reachesDefault : Reaches places start default distance.toInt)
    (reaches : List.Forall₂ (fun target distance => Reaches places start target distance.toInt)
      targets distances)
    (ordered : low ≤ high) (counted : high.toInt - low.toInt + 1 = targets.length)
    (defaultInside : place default < code.length)
    (inside : ∀ target ∈ targets, place target < code.length)
    (fits : start + (1 + padding + 12 + 4 * targets.length) ≤ code.length) :
    image.readInstruction api code (code.start + start) =
      .ok (.tableSwitch low high (place default) (targets.map place),
        code.start + start + (1 + padding + 12 + 4 * targets.length)) := by
  rw [Layout.eq_switchPadding short aligned] at held fits ⊢
  rcases Input.hasAt_append.mp held with ⟨head, operands⟩
  have byte : image.input.u8 (code.start + start) = .ok Opcode.tableswitch.code :=
    Input.HasAt.u8 (@Input.HasAt.left _ _ [_] _ head)
  rw [List.length_cons, List.length_replicate, Nat.add_comm _ 1, ← Nat.add_assoc] at operands
  simp only [Input.hasAt_append, List.length_append, length_bigEndian32] at operands
  rcases operands with ⟨⟨⟨defaultHeld, lowHeld⟩, highHeld⟩, tableHeld⟩
  rcases reachesDefault with ⟨target, found, equal⟩
  have reached := @branch_eq_ok code start _ _ (code.start + start) equal
    (known _ _ found ▸ defaultInside)
  have count : (high.toInt - low.toInt + 1).toNat = targets.length := by
    omega
  have valid : ¬(high < low ∨ code.start + code.length <
      code.start + start + 1 + Layout.switchPadding start + 12 + targets.length * 4) := by
    rw [not_or, Int32.not_lt]
    exact ⟨ordered, by omega⟩
  have readHead : image.tableHead (code.start + start) start code.stop =
      .ok ⟨distance, low, high, code.start + start + 1 + Layout.switchPadding start + 12⟩ := by
    rw [tableHead]
    simp only [defaultHeld.i32, lowHeld.i32, highHeld.i32, ok_bind, TableHead.count, count,
      CodeArray.stop, valid, if_false]
    rfl
  rw [readInstruction]
  simp only [byte, ok_bind, Opcode.ofByte?_code, show Opcode.tableswitch.layout = .tableSwitch by
    decide, Nat.add_sub_cancel_left, readHead, reached, TableHead.count, count]
  rw [readTargets_of_hasAt known reaches inside tableHeld]
  simp [known _ _ found]
  omega

theorem readInstruction_lookupSwitch {distance count : Int32} {default : Label}
    {cases : List (Int32 × Label)} {padding : Nat} {written : List (Int32 × Int32)}
    (held : image.input.HasAt (code.start + start)
      (Opcode.lookupswitch.code :: List.replicate padding 0 ++
        (bigEndian32 distance.toUInt32 ++ bigEndian32 count.toUInt32 ++ caseBytes written)))
    (short : padding < 4) (aligned : 4 ∣ start + 1 + padding)
    (counted : count.toInt = cases.length)
    (reachesDefault : Reaches places start default distance.toInt)
    (reaches : List.Forall₂
      (fun entry pair => entry.1 = pair.1 ∧ Reaches places start entry.2 pair.2.toInt)
      cases written)
    (defaultInside : place default < code.length)
    (inside : ∀ entry ∈ cases, place entry.2 < code.length)
    (fits : start + (1 + padding + 8 + 8 * cases.length) ≤ code.length) :
    image.readInstruction api code (code.start + start) =
      .ok (.lookupSwitch (place default) (cases.map fun entry => (entry.1, place entry.2)),
        code.start + start + (1 + padding + 8 + 8 * cases.length)) := by
  rw [Layout.eq_switchPadding short aligned] at held fits ⊢
  rcases Input.hasAt_append.mp held with ⟨head, operands⟩
  have byte : image.input.u8 (code.start + start) = .ok Opcode.lookupswitch.code :=
    Input.HasAt.u8 (@Input.HasAt.left _ _ [_] _ head)
  rw [List.length_cons, List.length_replicate, Nat.add_comm _ 1, ← Nat.add_assoc] at operands
  simp only [Input.hasAt_append, List.length_append, length_bigEndian32] at operands
  rcases operands with ⟨⟨defaultHeld, countHeld⟩, casesHeld⟩
  rcases reachesDefault with ⟨target, found, equal⟩
  have reached := @branch_eq_ok code start _ _ (code.start + start) equal
    (known _ _ found ▸ defaultInside)
  have countNat : count.toInt.toNat = cases.length := by
    omega
  have valid : ¬(count < 0 ∨ code.start + code.length <
      code.start + start + 1 + Layout.switchPadding start + 8 + cases.length * 8) := by
    rw [not_or, Int32.not_lt, Int32.le_iff_toInt_le, counted]
    exact ⟨Int.natCast_nonneg _, by omega⟩
  have readHead : image.lookupHead (code.start + start) start code.stop =
      .ok ⟨distance, cases.length, code.start + start + 1 + Layout.switchPadding start + 8⟩ := by
    rw [lookupHead]
    simp only [defaultHeld.i32, countHeld.i32, ok_bind, countNat, CodeArray.stop, valid, if_false]
    rfl
  rw [readInstruction]
  simp only [byte, ok_bind, Opcode.ofByte?_code, show Opcode.lookupswitch.layout = .lookupSwitch by
    decide, Nat.add_sub_cancel_left, readHead, reached]
  rw [readCases_of_hasAt known reaches inside casesHeld]
  simp [known _ _ found]
  omega

end Switches

theorem reads_single {length : Nat} {instruction : Instruction}
    (read : image.readInstruction api code (code.start + start) =
      .ok (instruction, code.start + start + length))
    (inside : start < code.length) (wellFormed : IsWellFormed instruction) :
    Reads image api code (code.start + (start + length)) (code.start + start)
      [(start, instruction)] := by
  have step := @Reads.step image api code (code.start + (start + length)) (code.start + start) _
    instruction [] (Nat.add_lt_add_left inside _) wellFormed read
  rw [Nat.add_sub_cancel_left] at step
  exact step (Nat.add_assoc .. ▸ .done)

/-- A part of a body is read as what it was recorded for. -/
theorem reads_of_encoded {places : Label → Option Nat} {place : Label → Label}
    (known : ∀ label target, places label = some target → place label = target)
    {instruction : Instruction} {item : CodeItem} {bytes : List UInt8}
    (stands : instruction.Stands image.pool api item)
    (encoded : item.Encoded places start bytes)
    (held : image.input.HasAt (code.start + start) bytes)
    (fits : start + bytes.length ≤ code.length)
    (inside : instruction.isReal = true → ∀ label ∈ instruction.labels, place label < code.length)
    (skips : instruction.isConditional = true → start + bytes.length < code.length) :
    ∃ entries, instruction.ToldAs place start (start + bytes.length) entries ∧
      Reads image api code (code.start + (start + bytes.length)) (code.start + start) entries := by
  cases stands with
  | label label =>
      cases encoded
      exact ⟨[], .label label, .done⟩
  | fixed decodes =>
      cases encoded
      have read := decodes.reads image code _ rfl held
      have longer := lt_of_readInstruction read
      refine ⟨[(start, instruction)], ?_, ?_⟩
      · have same := @Instruction.ToldAs.same place start (start + bytes.length) instruction
          decodes.real
        rw [Instruction.relabel_eq_self decodes.real decodes.noLabels] at same
        refine same fun conditional => ?_
        cases instruction <;> simp [Instruction.isConditional] at conditional
        simpa [Instruction.labels] using decodes.noLabels
      · exact reads_single read (by omega) decodes.wellFormed
  | @jump opcode target isJump =>
      have targetInside := inside rfl target (by simp [Instruction.labels])
      cases encoded with
      | narrow reaches =>
          rcases reaches with ⟨goal, found, equal⟩
          rw [known _ _ found] at targetInside
          refine ⟨[(start, .jump opcode goal)], ?_, ?_⟩
          · rw [← known _ _ found]
            exact .same rfl fun _ => rfl
          · refine reads_single (readInstruction_jump held isJump equal targetInside) ?_ trivial
            exact Nat.lt_of_lt_of_le (by simp) fits
      | gotoWide reaches =>
          rcases reaches with ⟨goal, found, equal⟩
          rw [known _ _ found] at targetInside
          refine ⟨[(start, .jump .goto goal)], ?_, ?_⟩
          · rw [← known _ _ found]
            exact .same rfl (by simp [Instruction.isConditional, Opcode.invertedCondition])
          · refine reads_single
              (readInstruction_jumpWide held (by decide) equal targetInside) ?_ trivial
            exact Nat.lt_of_lt_of_le (by simp) fits
      | jsrWide reaches =>
          rcases reaches with ⟨goal, found, equal⟩
          rw [known _ _ found] at targetInside
          refine ⟨[(start, .jump .jsr goal)], ?_, ?_⟩
          · rw [← known _ _ found]
            exact .same rfl (by simp [Instruction.isConditional, Opcode.invertedCondition])
          · refine reads_single
              (readInstruction_jumpWide held (by decide) equal targetInside) ?_ trivial
            exact Nat.lt_of_lt_of_le (by simp) fits
      | @inverted _ opposite _ distance inverts reaches =>
          rcases reaches with ⟨goal, found, equal⟩
          rw [known _ _ found] at targetInside
          rcases Input.hasAt_append.mp held with ⟨conditionHeld, jumpHeld⟩
          have oppositeJump := Opcode.layout_of_invertedCondition isJump inverts
          have behind : start + 8 < code.length :=
            skips (by simp [Instruction.isConditional, inverts])
          refine ⟨[(start, .jump opposite (start + 8)), (start + 3, .jump .goto goal)], ?_, ?_⟩
          · rw [← known _ _ found]
            exact .inverted inverts rfl
          · refine @Reads.append _ _ _ [(start, .jump opposite (start + 8))] _ _
              (code.start + (start + 3)) _
              (reads_single (readInstruction_jump conditionHeld oppositeJump rfl behind) (by omega)
                trivial) ?_
            exact reads_single
              (readInstruction_jumpWide jumpHeld (by decide) equal targetInside) (by omega) trivial
  | @tableSwitch low high default targets ordered counted =>
      have labelsInside := List.forall_mem_cons.mp (inside rfl)
      cases encoded with
      | @tableSwitch _ _ distance _ _ padding distances short aligned reachesDefault reaches =>
          have length := reaches.length_eq
          have size : (Opcode.tableswitch.code :: List.replicate padding 0 ++
              (bigEndian32 distance.toUInt32 ++ bigEndian32 low.toUInt32 ++
                bigEndian32 high.toUInt32 ++ distanceBytes distances)).length = 1 + padding + 12 + 4 * targets.length := by
            simp [← length]
            omega
          rw [size] at fits ⊢
          have read := @readInstruction_tableSwitch image api code start places place known _ _ _ _
            _ _ _ held short aligned reachesDefault reaches ordered counted labelsInside.1
            labelsInside.2 fits
          exact ⟨_, .same rfl (by simp [Instruction.isConditional]),
            reads_single read (by omega) trivial⟩
  | @lookupSwitch default cases =>
      have labelsInside := List.forall_mem_cons.mp (inside rfl)
      cases encoded with
      | @lookupSwitch distance count _ _ padding written short aligned counted reachesDefault reaches =>
          have length := reaches.length_eq
          have size : (Opcode.lookupswitch.code :: List.replicate padding 0 ++
              (bigEndian32 distance.toUInt32 ++ bigEndian32 count.toUInt32 ++
                caseBytes written)).length =
                1 + padding + 8 + 8 * cases.length := by
            simp [← length]
            omega
          rw [size] at fits ⊢
          have read := @readInstruction_lookupSwitch image api code start places place known _ _ _
            _ _ _ held short aligned counted reachesDefault reaches labelsInside.1
            (List.forall_mem_map.mp labelsInside.2) fits
          exact ⟨_, .same rfl (by simp [Instruction.isConditional]),
            reads_single read (by omega) trivial⟩

end ClassImage

namespace CodeLayout

open ClassImage

variable {layout : CodeLayout} {items : List CodeItem} {events : List Instruction}
  {image : ClassImage} {api : Api} {code : CodeArray}

/-- The place of a label that is known. -/
def placeOf (layout : CodeLayout) (label : Label) : Label :=
  (layout.offsets.place? label).getD 0

theorem placeOf_eq {label : Label} {place : Nat} (known : layout.offsets.place? label = some place) :
    layout.placeOf label = place := by
  rw [placeOf, known, Option.getD_some]

/-- An instruction has bytes. -/
theorem length_pos_of_encoded {pool : Pool} {instruction : Instruction} {item : CodeItem}
    (stands : instruction.Stands pool api item) (real : instruction.isReal = true)
    {places : Label → Option Nat} {start : Nat} {bytes : List UInt8}
    (encoded : item.Encoded places start bytes) : 0 < bytes.length := by
  cases stands with
  | label label => cases real
  | fixed decodes =>
      cases encoded
      exact List.length_pos_iff.mpr decodes.nonempty
  | jump | tableSwitch | lookupSwitch => cases encoded <;> simp

theorem Faithful.position_mono (faithful : layout.Faithful items) {first second : Nat}
    (ordered : first ≤ second) (inside : second ≤ items.length) :
    layout.position first ≤ layout.position second := by
  induction ordered with
  | refl => exact Nat.le_refl _
  | @step second ordered ih =>
      calc layout.position first ≤ layout.position second := ih (by omega)
        _ ≤ layout.position (second + 1) := by
          rw [faithful.position_succ second inside]
          exact Nat.le_add_right _ _

/-- Whether the parts of a body are told as lists of instructions, each with its place. -/
structure ToldIn (layout : CodeLayout) (events : List Instruction)
    (parts : List (List (Label × Instruction))) : Prop where
  length_eq : parts.length = events.length
  told : ∀ (index : Nat) (event : Instruction) (part : List (Label × Instruction)),
    events[index]? = some event → parts[index]? = some part →
      event.ToldAs layout.placeOf (layout.position index) (layout.position (index + 1)) part

/-- The parts of a body are read one after the other. -/
theorem Faithful.exists_parts (faithful : layout.Faithful items)
    (stand : List.Forall₂ (Instruction.Stands image.pool api) events items)
    (held : image.input.HasAt code.start layout.code.toList)
    (size : code.length = layout.code.size)
    (inside : ∀ event ∈ events, event.isReal = true → ∀ label ∈ event.labels,
      layout.placeOf label < code.length)
    (skips : ∀ (index : Nat) (event : Instruction), events[index]? = some event →
      event.isConditional = true → layout.position (index + 1) < code.length) :
    ∃ parts, layout.ToldIn events parts ∧
      ∀ (index : Nat) (part : List (Label × Instruction)), parts[index]? = some part →
        Reads image api code (code.start + layout.position (index + 1))
          (code.start + layout.position index) part := by
  have each (index : Nat) : ∃ part, ∀ event, events[index]? = some event →
      event.ToldAs layout.placeOf (layout.position index) (layout.position (index + 1)) part ∧
        Reads image api code (code.start + layout.position (index + 1))
          (code.start + layout.position index) part := by
    rcases getElem?_of_forall₂ stand index with ⟨none, -⟩ | ⟨event, item, here, found, stands⟩
    · exact ⟨[], by simp [none]⟩
    · rcases List.getElem?_eq_some_iff.mp found with ⟨before, rfl⟩
      have next := faithful.position_succ index before
      have ends := faithful.position_mono before (Nat.le_refl _)
      rw [← faithful.size_eq, ← size] at ends
      have bytesHeld : image.input.HasAt (code.start + layout.position index)
          (layout.bytesOf index) := held.part _ _
      have member := List.mem_of_getElem? here
      rcases reads_of_encoded (fun _ _ known => placeOf_eq known) stands
        (faithful.encoded index before) bytesHeld (next ▸ ends)
        (inside event member) (fun conditional => next ▸ skips index event here conditional) with
        ⟨part, told, reads⟩
      rw [← next] at told reads
      refine ⟨part, fun other same => ?_⟩
      rw [here, Option.some.injEq] at same
      exact same ▸ ⟨told, reads⟩
  choose part spec using each
  refine ⟨(List.range events.length).map part, ⟨by simp, ?_⟩, ?_⟩
  · intro index event other here there
    rw [List.getElem?_map, Option.map_eq_some_iff] at there
    rcases there with ⟨place, found, rfl⟩
    rw [List.getElem?_range (List.getElem?_eq_some_iff.mp here).1, Option.some.injEq] at found
    exact found ▸ (spec index event here).1
  · intro index other there
    rw [List.getElem?_map, Option.map_eq_some_iff] at there
    rcases there with ⟨place, found, rfl⟩
    have before := (List.getElem?_eq_some_iff.mp found).1
    rw [List.length_range] at before
    rw [List.getElem?_range before, Option.some.injEq] at found
    exact found ▸ (spec index _ (List.getElem?_eq_getElem before)).2

/-- Parts that are read one after the other are read as one list. -/
theorem reads_range {parts : List (List (Label × Instruction))}
    (each : ∀ (index : Nat) (part : List (Label × Instruction)), parts[index]? = some part →
      Reads image api code (code.start + layout.position (index + 1))
        (code.start + layout.position index) part)
    (first count : Nat) (inside : first + count ≤ parts.length) :
    Reads image api code (code.start + layout.position (first + count))
      (code.start + layout.position first) ((parts.drop first).take count).flatten := by
  induction count with
  | zero => simpa using Reads.done
  | succ count ih =>
      have before : first + count < parts.length := by omega
      have last := each (first + count) _ (List.getElem?_eq_getElem before)
      have more : (parts.drop first).take (count + 1) =
          (parts.drop first).take count ++ [parts[first + count]] := by
        rw [List.take_add_one, List.getElem?_drop, List.getElem?_eq_getElem before]
        rfl
      rw [more, List.flatten_append, List.flatten_singleton]
      exact (ih (by omega)).append last

/-- The parts are all that is read of the code. -/
theorem Faithful.reads_flatten (faithful : layout.Faithful items) (starts : layout.position 0 = 0)
    {parts : List (List (Label × Instruction))} (count : parts.length = items.length)
    (size : code.length = layout.code.size)
    (each : ∀ (index : Nat) (part : List (Label × Instruction)), parts[index]? = some part →
      Reads image api code (code.start + layout.position (index + 1))
        (code.start + layout.position index) part) :
    Reads image api code code.stop code.start parts.flatten := by
  have whole := reads_range each 0 parts.length (by omega)
  have ends : layout.position parts.length = code.length := by
    rw [count, ← faithful.size_eq, size]
  rwa [Nat.zero_add, starts, ends, Nat.add_zero, List.drop_zero, List.take_length] at whole

end CodeLayout

end ClassFile
