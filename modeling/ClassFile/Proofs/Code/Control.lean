import ClassFile.Proofs.Code.Encoding

/-!
# Where jumps lead

Control leaves a jump when it goes to its target or to what follows.  A long conditional jump takes
two steps for that: the opposite condition either jumps over the long jump behind it or goes on to
it.  Whatever the form, control leaves the bytes of a jump for the target exactly if the condition
of the jump holds, and for the end of these bytes otherwise (`CodeItem.Encoded.leaves`).
-/

namespace ClassFile

/-- What a jump looks at: the numbers that it compares (the second is zero where there is none), and
what it finds out about references. -/
structure JumpOperands where
  first : Int32
  second : Int32
  sameReference : Bool
  isNull : Bool

/-- Whether a jump is taken, none for other instructions. -/
def Opcode.isTaken? (operands : JumpOperands) : Opcode → Option Bool
  | .ifeq => some (decide (operands.first = 0))
  | .ifne => some (decide (operands.first ≠ 0))
  | .iflt => some (decide (operands.first < 0))
  | .ifge => some (decide (0 ≤ operands.first))
  | .ifgt => some (decide (0 < operands.first))
  | .ifle => some (decide (operands.first ≤ 0))
  | .ifIcmpeq => some (decide (operands.first = operands.second))
  | .ifIcmpne => some (decide (operands.first ≠ operands.second))
  | .ifIcmplt => some (decide (operands.first < operands.second))
  | .ifIcmpge => some (decide (operands.second ≤ operands.first))
  | .ifIcmpgt => some (decide (operands.second < operands.first))
  | .ifIcmple => some (decide (operands.first ≤ operands.second))
  | .ifAcmpeq => some operands.sameReference
  | .ifAcmpne => some (!operands.sameReference)
  | .ifnull => some operands.isNull
  | .ifnonnull => some (!operands.isNull)
  | .goto | .jsr => some true
  | _ => none

namespace Opcode

/-- The opposite of a condition holds exactly if the condition does not. -/
theorem isTaken?_invertedCondition {opcode opposite : Opcode}
    (inverts : opcode.invertedCondition = some opposite) (operands : JumpOperands) :
    ∃ taken, opcode.isTaken? operands = some taken ∧
      opposite.isTaken? operands = some (!taken) := by
  unfold invertedCondition at inverts
  split at inverts <;> cases inverts <;> refine ⟨_, rfl, ?_⟩ <;>
    simp only [isTaken?, ← decide_not, not_not, Int32.not_lt, Int32.not_le, Bool.not_not,
      ne_eq]

theorem isTaken?_of_jump {opcode : Opcode} (isJump : opcode.layout = .jump)
    (operands : JumpOperands) : ∃ taken, opcode.isTaken? operands = some taken := by
  rcases invertedCondition_of_jump isJump with rfl | rfl | ⟨opposite, inverts, _⟩
  · exact ⟨true, rfl⟩
  · exact ⟨true, rfl⟩
  · rcases isTaken?_invertedCondition inverts operands with ⟨taken, isTaken, _⟩
    exact ⟨taken, isTaken⟩

end Opcode

/-- Where control goes from the jump at an offset of a code array, none if no jump stands there. -/
def Input.jumpFrom? (code : Input) (operands : JumpOperands) (offset : Nat) : Option Int := do
  let byte ← (code.u8 offset).toOption
  match Layout.ofByte? byte with
  | some .jump =>
      let opcode ← Opcode.ofCode? byte
      let taken ← opcode.isTaken? operands
      let distance ← (code.i16 (offset + 1)).toOption
      return if taken then offset + distance.toInt else offset + 3
  | some .jumpWide =>
      let distance ← (code.i32 (offset + 1)).toOption
      return offset + distance.toInt
  | _ => none

/-- Whether control that is at an offset of a code array leaves the bytes between `start` and `stop`
by jumps and arrives at a destination. -/
inductive Input.Leaves (code : Input) (operands : JumpOperands) (start stop : Nat) :
    (offset : Nat) → (destination : Nat) → Prop where
  | exit {offset destination : Nat}
      (jumps : code.jumpFrom? operands offset = some (destination : Int))
      (outside : ¬(start < destination ∧ destination < stop)) :
      Leaves code operands start stop offset destination
  | inside {offset between destination : Nat}
      (jumps : code.jumpFrom? operands offset = some (between : Int))
      (after : start < between) (before : between < stop)
      (leaves : Leaves code operands start stop between destination) :
      Leaves code operands start stop offset destination

namespace Input

variable {code : Input} {operands : JumpOperands} {start stop : Nat}

theorem Leaves.unique {offset first second : Nat}
    (leavesFirst : code.Leaves operands start stop offset first)
    (leavesSecond : code.Leaves operands start stop offset second) : first = second := by
  induction leavesFirst with
  | exit jumps outside =>
      cases leavesSecond with
      | exit otherJumps _ => 
          rwa [jumps, Option.some.injEq, Int.natCast_inj] at otherJumps
      | inside otherJumps after before _ =>
          rw [jumps, Option.some.injEq, Int.natCast_inj] at otherJumps
          subst otherJumps
          exact absurd ⟨after, before⟩ outside
  | inside jumps after before _ ih =>
      cases leavesSecond with
      | exit otherJumps outside =>
          rw [jumps, Option.some.injEq, Int.natCast_inj] at otherJumps
          subst otherJumps
          exact absurd ⟨after, before⟩ outside
      | inside otherJumps _ _ leaves =>
          rw [jumps, Option.some.injEq, Int.natCast_inj] at otherJumps
          subst otherJumps
          exact ih leaves

theorem jumpFrom?_narrow {opcode : Opcode} {distance : Int16} {taken : Bool} {offset : Nat}
    (held : code.HasAt offset (opcode.code :: bigEndian16 distance.toUInt16))
    (isJump : opcode.layout = .jump) (isTaken : opcode.isTaken? operands = some taken) :
    code.jumpFrom? operands offset =
      some (if taken then (offset : Int) + distance.toInt else offset + 3) := by
  rcases hasAt_cons.mp held with ⟨byte, behind⟩
  simp [jumpFrom?, byte.u8, HasAt.i16 behind, Opcode.ofByte?_code, isJump, isTaken,
    Except.toOption]

theorem jumpFrom?_wide {byte : UInt8} {distance : Int32} {offset : Nat}
    (held : code.HasAt offset (byte :: bigEndian32 distance.toUInt32))
    (isWide : Layout.ofByte? byte = some .jumpWide) :
    code.jumpFrom? operands offset = some ((offset : Int) + distance.toInt) := by
  rcases hasAt_cons.mp held with ⟨first, behind⟩
  simp [jumpFrom?, first.u8, HasAt.i32 behind, isWide, Except.toOption]

end Input

/-- Control leaves the bytes of a jump for its target if the jump is taken, else for their end. -/
theorem CodeItem.Encoded.leaves {places : Label → Option Nat} {start stop place : Nat}
    {opcode : Opcode} {target : Label} {bytes : List UInt8}
    (encoded : CodeItem.Encoded places start (.jump opcode target) bytes)
    (isJump : opcode.layout = .jump) {code : Input} (held : code.HasAt start bytes)
    (ends : start + bytes.length = stop) (known : places target = some place)
    (outside : ¬(start < place ∧ place < stop)) {operands : JumpOperands} {taken : Bool}
    (isTaken : opcode.isTaken? operands = some taken) :
    code.Leaves operands start stop start (if taken then place else stop) := by
  have leads {offset : Nat} {distance : Int} (reaches : Reaches places offset target distance) :
      (place : Int) = offset + distance := by
    rcases reaches with ⟨other, otherKnown, equal⟩
    rw [known, Option.some.injEq] at otherKnown
    rw [otherKnown, equal]
  cases encoded with
  | narrow reaches =>
      simp only [List.length_cons, length_bigEndian16] at ends
      apply Input.Leaves.exit
      · rw [Input.jumpFrom?_narrow held isJump isTaken]
        have equal := leads reaches
        cases taken <;> simp [equal, ← ends]
      · cases taken <;> simp [outside]
  | gotoWide reaches =>
      cases isTaken
      apply Input.Leaves.exit
      · rw [Input.jumpFrom?_wide held (by decide), ← leads reaches]
        rfl
      · simpa using outside
  | jsrWide reaches =>
      cases isTaken
      apply Input.Leaves.exit
      · rw [Input.jumpFrom?_wide held (by decide), ← leads reaches]
        rfl
      · simpa using outside
  | @inverted _ opposite _ distance inverts reaches =>
      rcases Input.hasAt_append.mp held with ⟨conditionHeld, jumpHeld⟩
      simp only [List.length_append, List.length_cons, length_bigEndian16,
        length_bigEndian32] at ends jumpHeld
      rcases Opcode.isTaken?_invertedCondition inverts operands with ⟨_, sameTaken, oppositeTaken⟩
      have equal := Option.some.inj (isTaken.symm.trans sameTaken)
      subst equal
      have oppositeJump := Opcode.layout_of_invertedCondition isJump inverts
      have condition := @Input.jumpFrom?_narrow code operands opposite 8 _ start conditionHeld oppositeJump
        oppositeTaken
      cases taken with
      | false =>
          apply Input.Leaves.exit
          · rw [condition]
            simp [← ends]
          · simp
      | true =>
          apply @Input.Leaves.inside code operands start stop start (start + 3)
          · rw [condition]
            simp
          · omega
          · omega
          · apply Input.Leaves.exit
            · rw [Input.jumpFrom?_wide jumpHeld (by decide), ← leads reaches]
              rfl
            · simpa using outside

end ClassFile
