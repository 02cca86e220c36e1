import ClassFile.Proofs.Image.Visits

/-!
# Where labels are visited

A body visits the labels that are marked, in the order of the instructions, and mentions no others
(`ClassImage.told_of_tellCode`).  The places of the instructions, with the end of the code, are its
boundaries (`ClassImage.Reads.isBoundary_iff`), and no two of them are the same.
-/

namespace ClassFile

/-- The labels that a story visits, in order. -/
def visits (script : Script) : List Label :=
  script.filterMap Item.visit?

/-- Whether what was told visits the given labels and mentions none but those that are known. -/
def Told (known : Label → Prop) (visited : List Label) (before after : Array Item) : Prop :=
  ∃ told : Array Item, after = before ++ told ∧ visits told.toList = visited ∧
    ∀ item ∈ told, ∀ label, item.Mentions label → known label

section Told

variable {known : Label → Prop} {before between after : Array Item}

theorem Told.trans {first second : List Label} (left : Told known first before between)
    (right : Told known second between after) : Told known (first ++ second) before after := by
  rcases left with ⟨told, rfl, visited, mentions⟩
  rcases right with ⟨more, rfl, visitedMore, mentionsMore⟩
  refine ⟨told ++ more, Array.append_assoc, ?_, fun item member => ?_⟩
  · rw [Array.toList_append, visits, List.filterMap_append, ← visits, ← visits, visited,
      visitedMore]
  · exact (Array.mem_append.mp member).elim (mentions item) (mentionsMore item)

theorem told_of_only {α : Type} {emit : Emit α} {value : α}
    (quiet : Emit.Only (Item.IsQuiet known) emit) (told : Emit.Tells emit before value after) :
    Told known [] before after := by
  rcases quiet.tells told with ⟨items, ends, -, holds⟩
  refine ⟨items, ends, ?_, fun item member => (holds item member).mentions⟩
  rw [visits, List.filterMap_eq_nil_iff]
  exact fun item member => (holds item (Array.mem_toList_iff.mp member)).visitsNone

theorem told_label {label : Label} (isKnown : known label) :
    Told known [label] before (before.push (ClassImage.instructionItem (.label label))) := by
  refine ⟨#[ClassImage.instructionItem (.label label)], Array.push_eq_append, rfl, ?_⟩
  intro item member other mentions
  rw [List.mem_toArray, List.mem_singleton] at member
  subst member
  rcases mentions with ⟨mentioned⟩
  rw [List.mem_singleton.mp mentioned]
  exact isKnown

end Told

namespace ClassImage

open Emit Item

variable {image : ClassImage} {api : Api} {body : CodeBody} {before after : Array Item}

/-- An instruction that is read is no visit of a label. -/
theorem visit?_of_readInstruction {code : CodeArray} {pc next : Nat} {instruction : Instruction}
    (read : image.readInstruction api code pc = .ok (instruction, next)) :
    (instructionItem instruction).visit? = none := by
  cases isReadAs_of_readInstruction read with
  | plain _ _ _ noLabels _ =>
      exact (@isQuiet_of_noLabels (fun _ => True) (.methodItem (.instruction instruction))
        noLabels).visitsNone
  | jump | jumpWide | tableSwitch | lookupSwitch | wideIncrement | wideVariable => rfl

theorem isQuiet_frame {known : Label → Prop} (frame : Frame)
    (labels : ∀ label ∈ frame.values.flatMap FrameValue.labels, known label) :
    (instructionItem (.frame frame)).IsQuiet known :=
  isQuiet_event rfl labels

theorem only_tellFrames {P : Item → Prop} {labels : LabelSet}
    (each : ∀ frame : Frame, (∀ label ∈ frame.values.flatMap FrameValue.labels, label ∈ labels) →
      P (instructionItem (.frame frame)))
    {position : Label} {frames : List (Label × Frame)} (marked : FramesMarked labels frames) :
    Only P (tellFrames position frames) := by
  induction frames with
  | nil => exact Only.pure _
  | cons entry frames ih =>
      rcases List.forall_mem_cons.mp marked with ⟨first, others⟩
      unfold tellFrames
      split
      · refine (Only.tell (each _ fun label mentioned => ?_)).bind fun _ => ih others
        rcases List.mem_flatMap.mp mentioned with ⟨value, member, mentioned⟩
        exact (first value member).2 label mentioned
      · exact Only.pure _

theorem framesMarked_of_tellFrames {labels : LabelSet} {position : Label}
    {frames rest : List (Label × Frame)} (marked : FramesMarked labels frames)
    (told : Tells (tellFrames position frames) before rest after) : FramesMarked labels rest := by
  induction frames generalizing before with
  | nil => exact (tells_pure.mp told).1 ▸ marked
  | cons entry frames ih =>
      unfold tellFrames at told
      split at told
      · rcases tells_bind.mp told with ⟨_, _, -, told⟩
        exact ih (List.forall_mem_cons.mp marked).2 told
      · exact (tells_pure.mp told).1 ▸ marked

/-- A place is announced if it is marked. -/
theorem told_of_tellLabel {position : Label}
    (told : Tells (tellLabel body position) before () after) :
    Told (· ∈ body.labels) ([position].filter body.labels.contains) before after := by
  unfold tellLabel at told
  split at told
  · rename_i marked
    rw [List.filter_singleton, marked]
    have isMarked := Std.HashSet.contains_iff_mem.mp marked
    rcases tells_bind.mp told with ⟨_, between, toldLabel, toldLines⟩
    rw [← tells_instruction.mp toldLabel] at toldLines
    refine (told_label isMarked).trans (told_of_only ?_ toldLines)
    refine Only.forM fun line _ => Only.tell (isQuiet_event rfl fun label mentioned => ?_)
    rw [List.mem_singleton.mp mentioned]
    exact isMarked
  · rename_i unmarked
    rw [List.filter_singleton, Bool.eq_false_iff.mpr unmarked, ← (tells_pure.mp told).2]
    exact ⟨#[], by simp, rfl, by simp⟩

/-- The second pass over the instructions announces every marked place where one starts. -/
theorem told_of_tellInstructions {annotations : Std.HashMap Label (Array CodeAnnotation)}
    {pc fuel : Nat} {frames : List (Label × Frame)} {labels found : LabelSet}
    (marks : image.markInstructions body.code pc labels fuel = .ok (found, body.code.stop))
    (grows : ∀ label ∈ found, label ∈ body.labels) (framesMarked : FramesMarked body.labels frames)
    (told : Tells (image.tellInstructions api body annotations pc frames fuel) before () after) :
    ∃ entries, Reads image api body.code body.code.stop pc entries ∧
      found = labels.insertMany (labelsOf entries) ∧
      Told (· ∈ body.labels) ((entries.map Prod.fst).filter body.labels.contains) before after := by
  have ends {pc : Nat} {labels : LabelSet} {before : Array Item}
      (stopped : .ok (labels, pc) = (.ok (found, body.code.stop) : Except ClassError _))
      (toldNothing : before = after) :
      ∃ entries, Reads image api body.code body.code.stop pc entries ∧
        found = labels.insertMany (labelsOf entries) ∧ Told (· ∈ body.labels)
          ((entries.map Prod.fst).filter body.labels.contains) before after := by
    rw [Except.ok.injEq, Prod.mk.injEq] at stopped
    rcases stopped with ⟨rfl, rfl⟩
    exact ⟨[], .done, by simp [labelsOf], #[], by simp [toldNothing], rfl, by simp⟩
  induction fuel generalizing pc labels frames before with
  | zero =>
      unfold ClassImage.markInstructions at marks
      unfold ClassImage.tellInstructions at told
      by_cases inside : pc < body.code.stop
      · rw [if_pos inside] at marks
        cases marks
      · rw [if_neg inside] at marks told
        exact ends marks (tells_pure.mp told).2
  | succ fuel ih =>
      unfold ClassImage.markInstructions at marks
      unfold ClassImage.tellInstructions at told
      by_cases inside : pc < body.code.stop
      · rw [if_pos inside] at marks told
        rcases bind_eq_ok.mp marks with ⟨⟨one, other⟩, accepted, marksRest⟩
        rcases tells_bind.mp told with ⟨position, start, toldPosition, told⟩
        rcases tells_lift.mp toldPosition with ⟨found, rfl⟩
        obtain rfl := (CodeArray.position_eq_ok.mp found).2
        rcases tells_bind.mp told with ⟨_, first, toldLabel, told⟩
        rcases tells_bind.mp told with ⟨rest, second, toldFrames, told⟩
        rcases tells_bind.mp told with ⟨⟨instruction, next⟩, third, toldRead, told⟩
        rcases tells_lift.mp toldRead with ⟨read, rfl⟩
        rcases tells_bind.mp told with ⟨_, fourth, toldInstruction, told⟩
        rcases tells_bind.mp told with ⟨_, fifth, toldAnnotations, toldRest⟩
        have same := markInstruction_eq read accepted
        rw [Prod.mk.injEq] at same
        rcases same with ⟨rfl, rfl⟩
        have restMarked := framesMarked_of_tellFrames framesMarked toldFrames
        rcases ih marksRest restMarked toldRest with ⟨entries, reads, rfl, toldEntries⟩
        have wellFormed := isWellFormed_of_markInstruction read accepted
        refine ⟨_, .step inside wellFormed read reads, ?_, ?_⟩
        · simp [labelsOf, Std.HashSet.insertMany_append]
        · have mentioned : ∀ label ∈ instruction.labels, label ∈ body.labels := by
            intro label member
            refine grows label ?_
            simp [Std.HashSet.mem_insertMany_list, member]
          have inFront := told_of_tellLabel toldLabel
          have quietFrames : Told (· ∈ body.labels) [] first second :=
            told_of_only (only_tellFrames isQuiet_frame framesMarked) toldFrames
          have quietInstruction : Told (· ∈ body.labels) [] second fourth :=
            told_of_only (Only.tell (isQuiet_event (visit?_of_readInstruction read) mentioned))
              toldInstruction
          have quietAnnotations : Told (· ∈ body.labels) [] fourth fifth :=
            told_of_only (Only.forM fun note _ =>
              only_tellCodeNote (allows_values (allows_isQuiet {}) rfl (by simp [Opening.labels]) rfl _))
              toldAnnotations
          have whole := inFront.trans
            (quietFrames.trans (quietInstruction.trans (quietAnnotations.trans toldEntries)))
          rw [List.map_cons, ← List.singleton_append, List.filter_append]
          simpa using whole
      · rw [if_neg inside] at marks told
        exact ends marks (tells_pure.mp told).2

/-- The body of a method is told between its start and its end. -/
theorem told_of_tellCode {options : ReadOptions} {entry : RawAttribute}
    (told : Tells (image.tellCode options entry) before () after) :
    ∃ body entries last, image.codeBody options entry = .ok body ∧
      Reads image options.api body.code body.code.stop body.code.start entries ∧
      Told (· ∈ body.labels)
        ((entries.map Prod.fst ++ [body.code.length]).filter body.labels.contains)
        (before.push (.event (.methodItem .code))) last ∧
      after = last.push (.event (.methodItem (.maxs body.maxStack body.maxLocals))) := by
  rcases tells_bind.mp told with ⟨body, first, toldBody, told⟩
  rcases tells_lift.mp toldBody with ⟨found, rfl⟩
  rcases tells_bind.mp told with ⟨_, second, toldStart, told⟩
  cases tells_tell.mp toldStart
  rcases tells_bind.mp told with ⟨_, third, toldHandlers, told⟩
  rcases tells_bind.mp told with ⟨_, fourth, toldHandlerAnnotations, told⟩
  rcases tells_bind.mp told with ⟨_, fifth, toldInstructions, told⟩
  rcases codeBody_marks found with ⟨isMarked, handlersMarked, labels, marks, grows⟩
  rcases told_of_tellInstructions marks grows isMarked.frames toldInstructions with
    ⟨entries, reads, -, instructions⟩
  have plain : Allows options (· ∈ body.labels) (IsQuiet (· ∈ body.labels)) := allows_isQuiet options
  have full : Allows {} (· ∈ body.labels) (IsQuiet (· ∈ body.labels)) := allows_isQuiet {}
  have handlers : Told (· ∈ body.labels) [] _ third :=
    told_of_only (only_tellHandlers plain handlersMarked) toldHandlers
  have handlerAnnotations : Told (· ∈ body.labels) [] third fourth :=
    told_of_only (only_tellHandlerAnnotations fun _ _ =>
      allows_values full rfl (by simp [Opening.labels]) rfl _) toldHandlerAnnotations
  have rest {sixth : Array Item} (told : Tells (do
      image.tellVariableTable body
      image.tellVariableAnnotations body entry.offset
      image.tellOthers options true body.common
      tellItem (.maxs body.maxStack body.maxLocals)) sixth () after) :
      ∃ last, Told (· ∈ body.labels) [] sixth last ∧
        after = last.push (.event (.methodItem (.maxs body.maxStack body.maxLocals))) := by
    rcases tells_bind.mp told with ⟨_, seventh, toldVariables, told⟩
    rcases tells_bind.mp told with ⟨_, eighth, toldAnnotations, told⟩
    rcases tells_bind.mp told with ⟨_, last, toldOthers, toldEnd⟩
    refine ⟨last, ?_, (tells_tell.mp toldEnd).symm⟩
    have table : Told (· ∈ body.labels) [] sixth seventh :=
      told_of_only (only_tellVariableTable (fun _ => allows_localVariable full rfl) isMarked)
        toldVariables
    have annotations : Told (· ∈ body.labels) [] seventh eighth :=
      told_of_only (only_tellVariableAnnotations (fun _ _ places inside =>
        allows_localAnnotation full rfl _ places inside _) isMarked _) toldAnnotations
    exact table.trans (annotations.trans
      (told_of_only (only_tellOthers plain true body.common) toldOthers))
  have front := handlers.trans (handlerAnnotations.trans instructions)
  rw [List.nil_append, List.nil_append] at front
  dsimp only at told
  split at told
  · rename_i marked
    rcases tells_bind.mp told with ⟨_, sixth, toldLabel, told⟩
    rcases rest told with ⟨last, quiet, ends⟩
    refine ⟨body, entries, last, found, reads, ?_, ends⟩
    rw [← tells_instruction.mp toldLabel] at quiet
    have whole := front.trans ((told_label (Std.HashSet.contains_iff_mem.mp marked)).trans quiet)
    rwa [List.filter_append, List.filter_singleton, marked]
  · rename_i unmarked
    rcases rest told with ⟨last, quiet, ends⟩
    refine ⟨body, entries, last, found, reads, ?_, ends⟩
    rw [List.filter_append, List.filter_singleton, Bool.eq_false_iff.mpr unmarked]
    exact front.trans quiet

/-! ### Boundaries -/

/-- Whether an instruction starts at an offset in the file, as the first pass steps over the code, or
the code ends there. -/
inductive IsBoundary (image : ClassImage) (code : CodeArray) : Nat → Prop where
  | start : IsBoundary image code code.start
  | next {pc : Nat} {marked : LabelSet × Nat} (boundary : IsBoundary image code pc)
      (inside : pc < code.stop) (accepted : image.markInstruction code pc ∅ = .ok marked) :
      IsBoundary image code marked.2

variable {code : CodeArray} {entries : List (Label × Instruction)} {pc : Nat}

theorem Reads.isBoundary (reads : Reads image api code code.stop pc entries)
    (boundary : IsBoundary image code pc) (behind : code.start ≤ pc) :
    IsBoundary image code code.stop ∧
      ∀ entry ∈ entries, IsBoundary image code (code.start + entry.1) := by
  induction reads with
  | done => exact ⟨boundary, by simp⟩
  | step inside wellFormed read _ ih =>
      have accepted := markInstruction_of_readInstruction read wellFormed behind ∅
      have longer := lt_of_readInstruction read
      rcases ih (.next boundary inside accepted) (by omega) with ⟨stop, others⟩
      refine ⟨stop, List.forall_mem_cons.mpr ⟨?_, others⟩⟩
      rwa [Nat.add_sub_cancel' behind]

/-- The second pass comes by every boundary. -/
theorem Reads.exists_split (reads : Reads image api code code.stop code.start entries)
    (boundary : IsBoundary image code pc) :
    code.start ≤ pc ∧ ∃ front back, entries = front ++ back ∧
      Reads image api code code.stop pc back := by
  induction boundary with
  | start => exact ⟨Nat.le_refl _, [], entries, rfl, reads⟩
  | next _ inside accepted ih =>
      rcases ih with ⟨behind, front, back, rfl, others⟩
      cases others with
      | done => exact absurd inside (Nat.lt_irrefl _)
      | step _ wellFormed read rest =>
          rw [markInstruction_of_readInstruction read wellFormed behind, Except.ok.injEq] at accepted
          subst accepted
          have longer := lt_of_readInstruction read
          exact ⟨Nat.le_trans behind (Nat.le_of_lt longer), _, _, List.append_cons .., rest⟩

/-- The boundaries are the places where the second pass reads instructions, and the end. -/
theorem Reads.isBoundary_iff (reads : Reads image api code code.stop code.start entries)
    {label : Label} : IsBoundary image code (code.start + label) ↔
      label ∈ entries.map Prod.fst ++ [code.length] := by
  rw [List.mem_append, List.mem_map, List.mem_singleton]
  constructor
  · intro boundary
    rcases reads.exists_split boundary with ⟨behind, front, back, rfl, others⟩
    generalize reached : code.start + label = pc at others
    cases others with
    | done =>
        rw [CodeArray.stop, Nat.add_left_cancel_iff] at reached
        exact .inr reached
    | step =>
        refine .inl ⟨_, List.mem_append_right _ List.mem_cons_self, ?_⟩
        rw [← reached, Nat.add_sub_cancel_left]
  · rintro (⟨entry, member, rfl⟩ | rfl)
    · exact (reads.isBoundary .start (Nat.le_refl _)).2 entry member
    · exact (reads.isBoundary .start (Nat.le_refl _)).1

theorem Reads.le_place (reads : Reads image api code code.stop pc entries)
    (behind : code.start ≤ pc) : ∀ entry ∈ entries, pc ≤ code.start + entry.1 := by
  induction reads with
  | done => simp
  | step inside wellFormed read _ ih =>
      have longer := lt_of_readInstruction read
      have others := ih (by omega)
      rw [List.forall_mem_cons]
      refine ⟨by omega, fun entry member => ?_⟩
      have := others entry member
      omega

/-- No two instructions start at one place, and none starts at the end. -/
theorem Reads.nodup (reads : Reads image api code code.stop pc entries)
    (behind : code.start ≤ pc) : (entries.map Prod.fst ++ [code.length]).Nodup := by
  induction reads with
  | done => simp
  | @step pc next _ _ inside wellFormed read others ih =>
      have longer := lt_of_readInstruction read
      rw [List.map_cons, List.cons_append, List.nodup_cons]
      refine ⟨fun member => ?_, ih (by omega)⟩
      rw [List.mem_append, List.mem_map, List.mem_singleton] at member
      rw [CodeArray.stop] at inside
      have here : code.start + (pc - code.start) = pc := Nat.add_sub_cancel' behind
      rcases member with ⟨entry, later, same⟩ | same
      · have laterPlace := others.le_place (by omega) entry later
        rw [same, here] at laterPlace
        exact Nat.lt_irrefl _ (Nat.lt_of_lt_of_le longer laterPlace)
      · rw [← same, here] at inside
        exact Nat.lt_irrefl _ inside

end ClassImage

end ClassFile
