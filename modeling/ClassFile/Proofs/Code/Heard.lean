import ClassFile.Proofs.Code.Decoding

/-!
# What is told of laid out code

Laid out code is told as the instructions that it was recorded for.  Their labels now are the places
of the labels that they had, and each is visited in front of the same instruction as the first visit
of the label that it stands for (`CodeLayout.Heard`).
-/

namespace ClassFile

namespace Instruction

/-- Whether the element is a visit of the label. -/
def isLabel (label : Label) : Instruction → Bool
  | .label place => place = label
  | _ => false

theorem isLabel_iff {label : Label} {instruction : Instruction} :
    instruction.isLabel label = true ↔ instruction = .label label := by
  cases instruction <;> simp [isLabel]

@[simp]
theorem isReal_relabel (rename : Label → Label) (instruction : Instruction) :
    (instruction.relabel rename).isReal = instruction.isReal := by
  cases instruction <;> rfl

theorem labels_relabel {instruction : Instruction} (real : instruction.isReal = true)
    (rename : Label → Label) :
    (instruction.relabel rename).labels = instruction.labels.map rename := by
  cases instruction
  case frame => cases real
  case lookupSwitch => simp [relabel, labels, Function.comp_def]
  all_goals rfl

/-- Whether the last instruction stands at `final` and control need not leave it for the next one,
and every label that an instruction mentions is visited in front of it. -/
structure Finishes (events : List Instruction) (final : Nat) : Prop where
  last : ∃ event, events[final]? = some event ∧ event.isReal = true ∧ event.isConditional = false
  after : ∀ (index : Nat) (event : Instruction), final < index → events[index]? = some event →
    event.isReal = false
  visited : ∀ event ∈ events, event.isReal = true → ∀ label ∈ event.labels,
    ∃ visit < final, events[visit]? = some (.label label)

section Told

variable {place : Label → Label} {start stop : Label} {instruction : Instruction}
  {part : List (Label × Instruction)}

theorem ToldAs.real (told : instruction.ToldAs place start stop part) :
    ∀ entry ∈ part, entry.2.isReal = true := by
  cases told with
  | label => simp
  | same real => simpa using real
  | inverted =>
      intro entry member
      simp only [List.mem_cons, List.not_mem_nil, or_false] at member
      rcases member with rfl | rfl <;> rfl

theorem ToldAs.ne_nil (told : instruction.ToldAs place start stop part)
    (real : instruction.isReal = true) : part ≠ [] := by
  cases told with
  | label => cases real
  | same | inverted => simp

/-- The labels of an instruction are told by their places. -/
theorem ToldAs.place_mem (told : instruction.ToldAs place start stop part)
    (real : instruction.isReal = true) {label : Label} (mentioned : label ∈ instruction.labels) :
    place label ∈ ClassImage.labelsOf part := by
  cases told with
  | label => cases real
  | same =>
      rw [ClassImage.labelsOf, List.flatMap_singleton, labels_relabel real]
      exact List.mem_map_of_mem mentioned
  | inverted =>
      rw [labels, List.mem_singleton] at mentioned
      subst mentioned
      simp [ClassImage.labelsOf, labels]

theorem ToldAs.isConditional (told : instruction.ToldAs place start stop part)
    (several : 1 < part.length) : instruction.isConditional = true := by
  cases told with
  | label | same => simp at several
  | inverted inverts => rw [Instruction.isConditional, inverts, Option.isSome_some]

/-- The long form of a condition leads behind itself. -/
theorem ToldAs.stop_mem (told : instruction.ToldAs place start stop part)
    (several : 1 < part.length) : stop ∈ ClassImage.labelsOf part := by
  cases told with
  | label | same => simp at several
  | inverted => simp [ClassImage.labelsOf, labels]

end Told

/-- A label is visited where it was recorded. -/
theorem findIdx?_isLabel {pool : Pool} {api : Api} {events : List Instruction}
    {items : List CodeItem} (stand : List.Forall₂ (Instruction.Stands pool api) events items)
    (label : Label) :
    items.findIdx? (CodeOffsets.isLabel label) = events.findIdx? (isLabel label) := by
  induction stand with
  | nil => rfl
  | @cons event item events items stands _ ih =>
      have same : CodeOffsets.isLabel label item = isLabel label event := by
        cases stands with
        | label => simp [CodeOffsets.isLabel, isLabel]
        | fixed decodes =>
            have real := decodes.real
            cases event
            case label => cases real
            all_goals simp [CodeOffsets.isLabel, isLabel]
        | jump | tableSwitch | lookupSwitch => simp [CodeOffsets.isLabel, isLabel]
      rw [List.findIdx?_cons, List.findIdx?_cons, same, ih]

theorem jumps_of_stand {pool : Pool} {api : Api} {events : List Instruction}
    {items : List CodeItem} (stand : List.Forall₂ (Instruction.Stands pool api) events items)
    (opcode : Opcode) (target : Label) (isPart : .jump opcode target ∈ items) :
    opcode.layout = .jump := by
  induction stand with
  | nil => cases isPart
  | cons stands _ ih =>
      rw [List.mem_cons] at isPart
      rcases isPart with rfl | later
      · cases stands
        assumption
      · exact ih later

end Instruction

namespace ClassImage

variable {image : ClassImage} {api : Api} {code : CodeArray} {pc stop : Nat}

theorem Reads.place_lt {entries : List (Label × Instruction)}
    (reads : Reads image api code stop pc entries) (behind : code.start ≤ pc) :
    ∀ entry ∈ entries, code.start + entry.1 < stop := by
  induction reads with
  | done => simp
  | @step pc next instruction rest inside wellFormed read others ih =>
      have longer := lt_of_readInstruction read
      have within := others.length_le
      rw [List.forall_mem_cons]
      exact ⟨by omega, ih (by omega)⟩

theorem Reads.place_eq {entry : Label × Instruction} {entries : List (Label × Instruction)}
    (reads : Reads image api code stop pc (entry :: entries)) : entry.1 = pc - code.start := by
  cases reads
  rfl

/-- A place that is marked is visited in front of the instruction that is read from there. -/
theorem instructionAt?_of_reads {labels : LabelSet} {front back : List (Label × Instruction)}
    {place : Label} (marked : labels.contains place = true)
    (before : Reads image api code (code.start + place) code.start front)
    (behind : Reads image api code stop (code.start + place) back) (more : back ≠ [])
    (real : ∀ entry ∈ front, entry.2.isReal = true) :
    instructionAt? place (announce labels (front ++ back)) = some front.length := by
  rcases List.exists_cons_of_ne_nil more with ⟨here, rest, rfl⟩
  have placed : here.1 = place := by
    rw [behind.place_eq, Nat.add_sub_cancel_left]
  have earlier := before.place_lt (Nat.le_refl _)
  subst placed
  refine instructionAt?_announce marked real fun entry member same => ?_
  have := earlier entry member
  rw [same] at this
  exact Nat.lt_irrefl _ this

/-- The labels of one of several parts are marked with those of the others. -/
theorem contains_labelsOf {parts : List (List (Label × Instruction))}
    {part : List (Label × Instruction)} (isPart : part ∈ parts) {label : Label}
    (mentioned : label ∈ labelsOf part) :
    (Std.HashSet.insertMany ∅ (labelsOf parts.flatten) : LabelSet).contains label = true := by
  rw [labelsOf, List.mem_flatMap] at mentioned
  rcases mentioned with ⟨entry, member, mentioned⟩
  rw [Std.HashSet.contains_insertMany_list, List.contains_iff_mem.mpr, Bool.or_true]
  exact List.mem_flatMap.mpr ⟨entry, List.mem_flatten.mpr ⟨part, isPart, member⟩, mentioned⟩

end ClassImage

namespace CodeLayout

open ClassImage

variable {layout : CodeLayout} {items : List CodeItem} {events : List Instruction}
  {image : ClassImage} {api : Api} {code : CodeArray}

/-- Whether what is heard of a body is what was told. -/
structure Heard (layout : CodeLayout) (events heard : List Instruction)
    (parts : List (List (Label × Instruction))) : Prop where
  told : layout.ToldIn events parts
  /-- All instructions are heard in order. -/
  instructions : heard.filter Instruction.isReal = parts.flatten.map Prod.snd
  /-- A label that an instruction mentions stands where it was visited first. -/
  labels : ∀ event ∈ events, event.isReal = true → ∀ label ∈ event.labels,
    ∃ visit, events.findIdx? (Instruction.isLabel label) = some visit ∧
      instructionAt? (layout.placeOf label) heard = some (parts.take visit).flatten.length
  /-- The long form of a condition leads to the instruction behind it. -/
  skips : ∀ (index : Nat) (part : List (Label × Instruction)), parts[index]? = some part →
    1 < part.length → instructionAt? (layout.position (index + 1)) heard =
      some (parts.take (index + 1)).flatten.length

section Telling

variable {parts : List (List (Label × Instruction))} {final : Nat}

theorem ToldIn.real (told : layout.ToldIn events parts) :
    ∀ entry ∈ parts.flatten, entry.2.isReal = true := by
  intro entry member
  rcases List.mem_flatten.mp member with ⟨part, isPart, inPart⟩
  rcases List.getElem?_of_mem isPart with ⟨index, found⟩
  have inside := (List.getElem?_eq_some_iff.mp found).1
  rw [told.length_eq] at inside
  exact (told.told index _ part (List.getElem?_eq_getElem inside) found).real entry inPart

theorem ToldIn.exists_part (told : layout.ToldIn events parts) {index : Nat} {event : Instruction}
    (found : events[index]? = some event) :
    ∃ part, parts[index]? = some part ∧ event.ToldAs layout.placeOf (layout.position index)
      (layout.position (index + 1)) part := by
  have inside := (List.getElem?_eq_some_iff.mp found).1
  rw [← told.length_eq] at inside
  have here := List.getElem?_eq_getElem inside
  exact ⟨_, here, told.told index event _ found here⟩

/-- A place in front of the last instruction is visited in front of what is told from there on. -/
theorem ToldIn.instructionAt? (told : layout.ToldIn events parts)
    (finishes : Instruction.Finishes events final) (starts : layout.position 0 = 0)
    (each : ∀ (index : Nat) (part : List (Label × Instruction)), parts[index]? = some part →
      Reads image api code (code.start + layout.position (index + 1))
        (code.start + layout.position index) part)
    {place : Nat} (before : place ≤ final) {labels : LabelSet}
    (marked : labels.contains (layout.position place) = true) :
    ClassImage.instructionAt? (layout.position place) (announce labels parts.flatten) =
      some (parts.take place).flatten.length := by
  rcases finishes.last with ⟨last, here, real, -⟩
  rcases told.exists_part here with ⟨part, isPart, toldLast⟩
  have inside := (List.getElem?_eq_some_iff.mp isPart).1
  have front := reads_range each 0 place (by omega)
  rw [Nat.zero_add, starts, Nat.add_zero, List.drop_zero] at front
  have back := reads_range each place (parts.length - place) (by omega)
  rw [List.take_of_length_le (by simp)] at back
  have more : (parts.drop place).flatten ≠ [] := by
    intro none
    rw [List.flatten_eq_nil_iff] at none
    refine toldLast.ne_nil real (none part ?_)
    refine List.mem_of_getElem? (i := final - place) ?_
    rw [List.getElem?_drop, Nat.add_sub_cancel' before, isPart]
  have whole : parts.flatten = (parts.take place).flatten ++ (parts.drop place).flatten := by
    rw [← List.flatten_append, List.take_append_drop]
  rw [whole]
  refine instructionAt?_of_reads marked front back more fun entry member => ?_
  exact told.real entry (whole ▸ List.mem_append_left _ member)

end Telling

/-- The last instruction has bytes, so a place in front of it lies inside the code. -/
theorem Faithful.position_lt (faithful : layout.Faithful items) {pool : Pool}
    (stand : List.Forall₂ (Instruction.Stands pool api) events items) {place final : Nat}
    (finishes : Instruction.Finishes events final) (before : place ≤ final) :
    layout.position place < layout.code.size := by
  rcases finishes.last with ⟨last, here, real, -⟩
  rcases getElem?_of_forall₂ stand final with ⟨none, -⟩ | ⟨event, item, same, found, stands⟩
  · simp [none] at here
  · rw [here, Option.some.injEq] at same
    subst same
    rcases List.getElem?_eq_some_iff.mp found with ⟨inside, rfl⟩
    have bytes := length_pos_of_encoded stands real (faithful.encoded final inside)
    calc layout.position place ≤ layout.position final :=
          faithful.position_mono before (Nat.le_of_lt inside)
      _ < layout.position (final + 1) := by
          rw [faithful.position_succ final inside]
          exact Nat.lt_add_of_pos_right bytes
      _ ≤ layout.position items.length := faithful.position_mono inside (Nat.le_refl _)
      _ = layout.code.size := faithful.size_eq.symm

/-- A label that an instruction mentions has the place of its first visit. -/
theorem Faithful.exists_visit (faithful : layout.Faithful items) {pool : Pool}
    (stand : List.Forall₂ (Instruction.Stands pool api) events items) {final : Nat}
    (finishes : Instruction.Finishes events final) {event : Instruction} (member : event ∈ events)
    (real : event.isReal = true) {label : Label} (mentioned : label ∈ event.labels) :
    ∃ visit ≤ final, events.findIdx? (Instruction.isLabel label) = some visit ∧
      layout.placeOf label = layout.position visit := by
  rcases finishes.visited event member real label mentioned with ⟨other, before, found⟩
  cases first : events.findIdx? (Instruction.isLabel label) with
  | none =>
      have notVisited := List.findIdx?_eq_none_iff.mp first _ (List.mem_of_getElem? found)
      simp [Instruction.isLabel] at notVisited
  | some visit =>
      refine ⟨visit, ?_, rfl, ?_⟩
      · rcases List.findIdx?_eq_some_iff_getElem.mp first with ⟨inside, -, earliest⟩
        refine Nat.le_of_not_lt fun later => earliest other (by omega) ?_
        rw [Instruction.isLabel_iff]
        exact (List.getElem?_eq_some_iff.mp found).2
      · refine placeOf_eq ?_
        rw [faithful.place_eq, Instruction.findIdx?_isLabel stand, first, Option.map_some]

/-- Code that was laid out for a body is read as the body. -/
theorem Faithful.exists_heard (faithful : layout.Faithful items) (starts : layout.position 0 = 0)
    (stand : List.Forall₂ (Instruction.Stands image.pool api) events items) {final : Nat}
    (finishes : Instruction.Finishes events final)
    (held : image.input.HasAt code.start layout.code.toList)
    (size : code.length = layout.code.size) :
    ∃ parts, Reads image api code code.stop code.start parts.flatten ∧
      layout.Heard events
        (announce (.insertMany ∅ (labelsOf parts.flatten)) parts.flatten) parts := by
  have inside : ∀ event ∈ events, event.isReal = true → ∀ label ∈ event.labels,
      layout.placeOf label < code.length := by
    intro event member real label mentioned
    rcases faithful.exists_visit stand finishes member real mentioned with
      ⟨visit, before, -, place⟩
    rw [place, size]
    exact faithful.position_lt stand finishes before
  -- A condition is not the last instruction, so what follows it is in front of the last or is it.
  have conditional (index : Nat) (event : Instruction) (found : events[index]? = some event)
      (isConditional : event.isConditional = true) : index + 1 ≤ final := by
    rcases finishes.last with ⟨last, here, -, unconditional⟩
    have notLast : index ≠ final := by
      rintro rfl
      rw [here, Option.some.injEq] at found
      rw [← found, unconditional] at isConditional
      cases isConditional
    refine Nat.lt_of_le_of_ne (Nat.le_of_not_lt fun later => ?_) notLast
    have notReal := finishes.after index event later found
    cases event <;> simp [Instruction.isConditional] at isConditional
    cases notReal
  have skips (index : Nat) (event : Instruction) (found : events[index]? = some event)
      (isConditional : event.isConditional = true) : layout.position (index + 1) < code.length := by
    rw [size]
    exact faithful.position_lt stand finishes (conditional index event found isConditional)
  rcases faithful.exists_parts stand held size inside skips with ⟨parts, told, each⟩
  have count : parts.length = items.length := told.length_eq.trans stand.length_eq
  refine ⟨parts, faithful.reads_flatten starts count size each, told, filter_announce _ told.real, ?_,
    ?_⟩
  · intro event member real label mentioned
    rcases faithful.exists_visit stand finishes member real mentioned with
      ⟨visit, before, first, place⟩
    refine ⟨visit, first, ?_⟩
    rw [place]
    refine told.instructionAt? finishes starts each before ?_
    rcases List.getElem?_of_mem member with ⟨index, found⟩
    rcases told.exists_part found with ⟨part, isPart, toldAs⟩
    refine contains_labelsOf (List.mem_of_getElem? isPart) ?_
    exact place ▸ toldAs.place_mem real mentioned
  · intro index part isPart several
    have before := (List.getElem?_eq_some_iff.mp isPart).1
    rw [told.length_eq] at before
    rcases told.exists_part (List.getElem?_eq_getElem before) with ⟨other, same, toldAs⟩
    rw [isPart, Option.some.injEq] at same
    subst same
    refine told.instructionAt? finishes starts each ?_
      (contains_labelsOf (List.mem_of_getElem? isPart) (toldAs.stop_mem several))
    exact conditional index _ (List.getElem?_eq_getElem before) (toldAs.isConditional several)

end CodeLayout

end ClassFile
