import ClassFile.Proofs.Bytes
import ClassFile.Proofs.Image.Instructions
import ClassFile.Proofs.Script

/-!
# The two passes over a body

`ClassImage.Reads` says which instructions stand one after the other in a code array, each with its
place.  If they fill the code array, the first pass marks exactly the labels of these instructions,
and the second pass tells them in order, each behind the label of its place if the place is marked.
-/

namespace ClassFile

namespace ClassImage

variable {image : ClassImage} {api : Api} {code : CodeArray}

/-- Whether instructions stand one after the other from `pc` on and end at `stop`, each with its
place in the code array. -/
inductive Reads (image : ClassImage) (api : Api) (code : CodeArray) (stop : Nat) :
    Nat → List (Label × Instruction) → Prop where
  | done : Reads image api code stop stop []
  | step {pc next : Nat} {instruction : Instruction} {rest : List (Label × Instruction)}
      (inside : pc < code.stop) (wellFormed : IsWellFormed instruction)
      (read : image.readInstruction api code pc = .ok (instruction, next))
      (others : Reads image api code stop next rest) :
      Reads image api code stop pc ((pc - code.start, instruction) :: rest)

theorem Reads.append {first second : List (Label × Instruction)} {pc middle stop : Nat}
    (left : Reads image api code middle pc first)
    (right : Reads image api code stop middle second) :
    Reads image api code stop pc (first ++ second) := by
  induction left with
  | done => exact right
  | step inside wellFormed read _ ih => exact .step inside wellFormed read ih

theorem Reads.length_le {pc stop : Nat} {entries : List (Label × Instruction)}
    (reads : Reads image api code stop pc entries) : pc + entries.length ≤ stop := by
  induction reads with
  | done => exact Nat.le_refl _
  | step inside wellFormed read _ ih =>
      have longer := lt_of_readInstruction read
      rw [List.length_cons]
      omega

/-- There is one way to read instructions. -/
theorem Reads.unique {pc stop : Nat} {entries others : List (Label × Instruction)}
    (reads : Reads image api code stop pc entries) (again : Reads image api code stop pc others) :
    entries = others := by
  induction reads generalizing others with
  | done =>
      cases again with
      | done => rfl
      | step _ _ read others =>
          have longer := lt_of_readInstruction read
          have before := others.length_le
          omega
  | step _ _ read behind ih =>
      cases again with
      | done =>
          have longer := lt_of_readInstruction read
          have before := behind.length_le
          omega
      | step _ _ readAgain others =>
          cases read.symm.trans readAgain
          rw [ih others]

/-- The labels of instructions. -/
def labelsOf (entries : List (Label × Instruction)) : List Label :=
  entries.flatMap fun entry => entry.2.labels

/-- The first pass over instructions that fill the code array marks their labels. -/
theorem Reads.markInstructions {pc fuel : Nat} {entries : List (Label × Instruction)}
    (reads : Reads image api code code.stop pc entries) (enough : entries.length ≤ fuel)
    (begun : code.start ≤ pc) (labels : LabelSet) :
    image.markInstructions code pc labels fuel =
      .ok (labels.insertMany (labelsOf entries), code.stop) := by
  induction fuel generalizing pc entries labels with
  | zero =>
      cases reads with
      | done => simp [ClassImage.markInstructions, labelsOf]
      | step => simp at enough
  | succ fuel ih =>
      cases reads with
      | done => simp [ClassImage.markInstructions, labelsOf]
      | step inside wellFormed read others =>
          have longer := lt_of_readInstruction read
          rw [ClassImage.markInstructions, if_pos inside]
          dsimp only
          rw [markInstruction_of_readInstruction read wellFormed begun labels, ok_bind]
          have rest := ih others (Nat.le_of_succ_le_succ enough) (by omega)
          simp [rest, labelsOf, Std.HashSet.insertMany_append]

/-- What is told of instructions: each behind the label of its place, if the place has one. -/
def announce (labels : LabelSet) (entries : List (Label × Instruction)) : List Instruction :=
  entries.flatMap fun entry =>
    (if labels.contains entry.1 then [.label entry.1] else []) ++ [entry.2]

/-- The number of the instruction in front of which a label is visited first. -/
def instructionAt? (label : Label) : List Instruction → Option Nat
  | [] => none
  | .label other :: rest => if other = label then some 0 else instructionAt? label rest
  | event :: rest =>
      if event.isReal then (instructionAt? label rest).map (· + 1) else instructionAt? label rest

theorem instructionAt?_cons {label : Label} {instruction : Instruction}
    (real : instruction.isReal = true) (rest : List Instruction) :
    instructionAt? label (instruction :: rest) = (instructionAt? label rest).map (· + 1) := by
  cases instruction
  case label => cases real
  all_goals simp [instructionAt?, real]

/-- The label of a place is visited in front of the instruction that stands there. -/
theorem instructionAt?_announce {labels : LabelSet} {front back : List (Label × Instruction)}
    {here : Label × Instruction} (marked : labels.contains here.1 = true)
    (real : ∀ entry ∈ front, entry.2.isReal = true) (elsewhere : ∀ entry ∈ front, entry.1 ≠ here.1) :
    instructionAt? here.1 (announce labels (front ++ here :: back)) = some front.length := by
  induction front with
  | nil =>
      rw [Std.HashSet.contains_iff_mem] at marked
      simp [announce, marked, instructionAt?]
  | cons entry front ih =>
      rw [List.forall_mem_cons] at real elsewhere
      have rest := ih real.2 elsewhere.2
      have first : announce labels (entry :: front ++ here :: back) =
          (if labels.contains entry.1 then [.label entry.1] else []) ++
            entry.2 :: announce labels (front ++ here :: back) := by
        simp [announce]
      rw [first]
      split
      · simp [instructionAt?, elsewhere.1, instructionAt?_cons real.1, rest]
      · simp [instructionAt?_cons real.1, rest]

/-- All that is announced besides labels are the instructions. -/
theorem filter_announce (labels : LabelSet) {entries : List (Label × Instruction)}
    (real : ∀ entry ∈ entries, entry.2.isReal = true) :
    (announce labels entries).filter Instruction.isReal = entries.map Prod.snd := by
  induction entries with
  | nil => rfl
  | cons entry entries ih =>
      rw [List.forall_mem_cons] at real
      rw [announce, List.flatMap_cons, List.filter_append, ← announce, ih real.2]
      split
      · simp [real.1, show (Instruction.label entry.1).isReal = false from rfl]
      · simp [real.1]

/-- The event of an instruction, as an item of a script. -/
def instructionItem (instruction : Instruction) : Item :=
  .event (.methodItem (.instruction instruction))

theorem tells_instruction {before after : Array Item} {instruction : Instruction} {result : Unit} :
    Emit.Tells (tellInstruction instruction) before result after ↔
      before.push (instructionItem instruction) = after :=
  Emit.tells_tell

/-- The second pass over instructions that fill the code array tells them, if there is nothing else
to tell. -/
theorem Reads.tellInstructions {body : CodeBody} (noLines : body.lines = ∅) {pc fuel : Nat}
    {entries : List (Label × Instruction)}
    (reads : Reads image api body.code body.code.stop pc entries) (enough : entries.length ≤ fuel)
    (begun : body.code.start ≤ pc) (before : Array Item) :
    Emit.Tells (image.tellInstructions api body ∅ pc [] fuel) before ()
      (before ++ ((announce body.labels entries).map instructionItem).toArray) := by
  induction fuel generalizing pc entries before with
  | zero =>
      cases reads with
      | done =>
          rw [ClassImage.tellInstructions, if_neg (Nat.lt_irrefl _)]
          exact Emit.tells_pure.mpr ⟨rfl, by simp [announce]⟩
      | step => simp at enough
  | succ fuel ih =>
      cases reads with
      | done =>
          rw [ClassImage.tellInstructions, if_neg (Nat.lt_irrefl _)]
          exact Emit.tells_pure.mpr ⟨rfl, by simp [announce]⟩
      | @step _ next instruction rest inside wellFormed read others =>
          have longer := lt_of_readInstruction read
          rw [ClassImage.tellInstructions, if_pos inside]
          have label (before : Array Item) (position : Label) :
              Emit.Tells (tellLabel body position) before ()
                (before ++ ((if body.labels.contains position then [.label position] else []).map
                  instructionItem).toArray) := by
            unfold tellLabel
            split
            · refine Emit.tells_bind.mpr ⟨(), _, tells_instruction.mpr rfl, ?_⟩
              rw [noLines, Std.HashMap.getD_empty]
              exact Emit.tells_forM_nil.mpr (by simp)
            · exact Emit.tells_pure.mpr ⟨rfl, by simp⟩
          refine Emit.tells_bind.mpr ⟨_, _, Emit.tells_lift.mpr
            ⟨CodeArray.position_eq_ok.mpr ⟨begun, rfl⟩, rfl⟩, ?_⟩
          refine Emit.tells_bind.mpr ⟨(), _, label _ _, ?_⟩
          refine Emit.tells_bind.mpr ⟨[], _, Emit.tells_pure.mpr ⟨rfl, rfl⟩, ?_⟩
          refine Emit.tells_bind.mpr ⟨_, _, Emit.tells_lift.mpr ⟨read, rfl⟩, ?_⟩
          refine Emit.tells_bind.mpr ⟨(), _, tells_instruction.mpr rfl, ?_⟩
          rw [Std.HashMap.getD_empty]
          refine Emit.tells_bind.mpr ⟨(), _, Emit.tells_forM_nil.mpr rfl, ?_⟩
          have told := ih others (Nat.le_of_succ_le_succ enough) (by omega)
            ((before ++ ((if body.labels.contains (pc - body.code.start) then
              [Instruction.label (pc - body.code.start)] else []).map instructionItem).toArray).push
                (instructionItem instruction))
          simpa [announce] using told

/-! ### Bodies of instructions alone -/

theorem branch_lt {position : Nat} {delta : Int} {source : Nat} {target : Label}
    (reached : code.branch position delta source = .ok target) : target < code.length := by
  unfold CodeArray.branch at reached
  simp only at reached
  split at reached
  · cases reached
  · rename_i inside
    cases reached
    rw [not_or, Int.not_lt, Int.not_le] at inside
    exact (Int.toNat_lt inside.1).mpr inside.2

theorem readTargets_lt {pc offset count : Nat} {found targets : List Label}
    (read : image.readTargets code pc offset found count = .ok targets)
    (foundInside : ∀ target ∈ found, target < code.length) :
    ∀ target ∈ targets, target < code.length := by
  induction count generalizing offset found with
  | zero =>
      cases read
      simpa using foundInside
  | succ count ih =>
      simp only [readTargets, bind_eq_ok] at read
      rcases read with ⟨delta, -, target, reached, others⟩
      exact ih others (List.forall_mem_cons.mpr ⟨branch_lt reached, foundInside⟩)

theorem readCases_lt {pc offset count : Nat} {found cases : List (Int32 × Label)}
    (read : image.readCases code pc offset found count = .ok cases)
    (foundInside : ∀ entry ∈ found, entry.2 < code.length) :
    ∀ entry ∈ cases, entry.2 < code.length := by
  induction count generalizing offset found with
  | zero =>
      cases read
      simpa using foundInside
  | succ count ih =>
      simp only [readCases, bind_eq_ok] at read
      rcases read with ⟨key, -, delta, -, target, reached, others⟩
      exact ih others (List.forall_mem_cons.mpr ⟨branch_lt reached, foundInside⟩)

/-- No instruction leads to the end of the code. -/
theorem labels_lt_of_readInstruction {pc next : Nat} {instruction : Instruction}
    (read : image.readInstruction api code pc = .ok (instruction, next)) :
    ∀ label ∈ instruction.labels, label < code.length := by
  cases isReadAs_of_readInstruction read with
  | plain _ _ _ noLabels _ => simp [noLabels]
  | jump _ _ _ reached => simpa [Instruction.labels] using branch_lt reached
  | jumpWide _ _ _ reached => simpa [Instruction.labels] using branch_lt reached
  | tableSwitch _ _ _ reached readTargets =>
      exact List.forall_mem_cons.mpr ⟨branch_lt reached, readTargets_lt readTargets (by simp)⟩
  | lookupSwitch _ _ _ reached readCases =>
      exact List.forall_mem_cons.mpr ⟨branch_lt reached,
        List.forall_mem_map.mpr (readCases_lt readCases (by simp))⟩
  | wideIncrement | wideVariable => simp [Instruction.labels]

theorem Reads.labels_lt {pc stop : Nat} {entries : List (Label × Instruction)}
    (reads : Reads image api code stop pc entries) :
    ∀ label ∈ labelsOf entries, label < code.length := by
  induction reads with
  | done => simp [labelsOf]
  | step inside wellFormed read _ ih =>
      intro label member
      rw [labelsOf, List.flatMap_cons, List.mem_append] at member
      rcases member with here | later
      · exact labels_lt_of_readInstruction read label here
      · exact ih label later

/-- The contents of a code attribute with instructions and nothing else. -/
def plainBody (maxStack maxLocals : UInt16) (code : List UInt8) : List UInt8 :=
  bigEndian16 maxStack ++ bigEndian16 maxLocals ++ bigEndian32 code.length.toUInt32 ++ code ++
    (bigEndian16 0 ++ bigEndian16 0)

/-- The script of a body of instructions and nothing else. -/
def plainScript (maxStack maxLocals : UInt16) (instructions : List Instruction) : Script :=
  .event (.methodItem .code) :: instructions.map instructionItem ++
    [.event (.methodItem (.maxs maxStack maxLocals))]

section Plain

variable {options : ReadOptions} {entry : RawAttribute} {maxStack maxLocals : UInt16}
  {bytes : List UInt8} {entries : List (Label × Instruction)}
  (sameInput : image.pool.input = image.input)
  (held : image.input.HasAt entry.offset (plainBody maxStack maxLocals bytes))
  (length : entry.length = (plainBody maxStack maxLocals bytes).length)
  (small : bytes.length < 4294967296) (nonempty : bytes ≠ [])
  (reads : Reads image options.api ⟨entry.offset + 8, bytes.length⟩
    (entry.offset + 8 + bytes.length) (entry.offset + 8) entries)
include sameInput held length small nonempty reads

/-- What the first pass finds in a body of instructions and nothing else. -/
theorem codeBody_plain :
    image.codeBody options entry =
      .ok { maxStack, maxLocals, code := ⟨entry.offset + 8, bytes.length⟩,
            labels := .insertMany ∅ (labelsOf entries) } := by
  simp only [plainBody, Input.hasAt_append, length_bigEndian16, length_bigEndian32,
    List.length_append] at held
  rcases held with ⟨⟨⟨⟨stack, locals⟩, size⟩, code⟩, handlers, attributes⟩
  rw [← Nat.add_assoc] at handlers
  rw [← Nat.add_assoc, ← sameInput] at attributes
  change image.input.HasAt (entry.offset + 8 + bytes.length) _ at handlers
  change image.pool.input.HasAt (entry.offset + 8 + bytes.length + 2) _ at attributes
  have sizeEq : bytes.length.toUInt32.toNat = bytes.length := by
    simp
    omega
  have positive := List.length_pos_iff.mpr nonempty
  have inside : ¬(bytes.length = 0 ∨
      entry.offset + entry.length < entry.offset + 8 + bytes.length) := by
    simp only [length, plainBody, List.length_append, length_bigEndian16, length_bigEndian32]
    omega
  have enough := reads.length_le
  have marks := @Reads.markInstructions image options.api ⟨entry.offset + 8, bytes.length⟩ _
    bytes.length entries reads (by omega) (Nat.le_refl _) ∅
  unfold codeBody
  simp only [stack.u16, locals.u16, size.u32, ok_bind, sizeEq, CodeArray.stop, inside, if_false,
    marks, ne_eq, not_true, handlers.u16, rawAttributes, CodeBody.handlersOffset, markHandlers,
    UInt16.toNat_zero, Nat.zero_mul, Nat.add_zero, attributes.u16, listAttributes,
    List.foldlM_nil]
  rfl

/-- Instructions that are all that a body has are read and told. -/
theorem tellCode_plain :
    (image.tellCode options entry).collect =
      (plainScript maxStack maxLocals (announce (.insertMany ∅ (labelsOf entries)) entries),
        .ok ()) := by
  have body := codeBody_plain sameInput held length small nonempty reads
  have enough := reads.length_le
  have labelsInside := reads.labels_lt
  rw [Emit.collect_eq_ok, tellCode]
  refine Emit.tells_bind.mpr ⟨_, _, Emit.tells_lift.mpr ⟨body, rfl⟩, ?_⟩
  refine Emit.tells_bind.mpr ⟨(), _, Emit.tells_tell.mpr rfl, ?_⟩
  refine Emit.tells_bind.mpr ⟨(), _, Emit.tells_pure.mpr ⟨rfl, rfl⟩, ?_⟩
  refine Emit.tells_bind.mpr ⟨(), _, Emit.tells_forM_nil.mpr rfl, ?_⟩
  refine Emit.tells_bind.mpr ⟨(), _, @Reads.tellInstructions image options.api
    { maxStack, maxLocals, code := ⟨entry.offset + 8, bytes.length⟩,
      labels := .insertMany ∅ (labelsOf entries) } rfl _ bytes.length entries reads (by omega)
      (Nat.le_refl _) _, ?_⟩
  have noEnd : (Std.HashSet.insertMany ∅ (labelsOf entries) : LabelSet).contains bytes.length =
      false := by
    rw [Std.HashSet.contains_insertMany_list]
    simpa using fun member => Nat.lt_irrefl _ (labelsInside _ member)
  simp only [noEnd, Bool.false_eq_true, if_false]
  refine Emit.tells_bind.mpr ⟨(), _, Emit.tells_pure.mpr ⟨rfl, rfl⟩, ?_⟩
  refine Emit.tells_bind.mpr ⟨(), _, Emit.tells_forM_nil.mpr rfl, ?_⟩
  refine Emit.tells_bind.mpr ⟨(), _, Emit.tells_forM_nil.mpr rfl, ?_⟩
  exact Emit.tells_tell.mpr (by simp [plainScript])

end Plain

end ClassImage

end ClassFile
