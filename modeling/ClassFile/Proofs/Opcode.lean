import ClassFile.Opcode.Operands
import Mathlib.Data.List.Chain
import Mathlib.Data.List.Nodup
import Mathlib.Tactic.Common

/-!
# Opcodes and their bytes

Every opcode has a byte of its own, so the byte gives the opcode back, and the byte of an opcode
starts an instruction.  A jump whose distance has no wide form is a condition, and the opposite
condition is a jump too.
-/

namespace ClassFile

namespace Opcode

theorem mem_all (opcode : Opcode) : opcode ∈ all := by
  refine List.mem_of_getElem? (i := opcode.ctorIdx) ?_
  cases opcode <;> rfl

theorem codes_increase : (all.map code).Pairwise (· < ·) := by
  have steps : List.IsChain (· < ·) (all.map code) := by decide +kernel
  exact List.isChain_iff_pairwise.mp steps

theorem code_injective : Function.Injective code := by
  intro first second same
  have distinct : (all.map code).Nodup := codes_increase.imp fun less => UInt8.ne_of_lt less
  exact List.inj_on_of_nodup_map distinct (mem_all first) (mem_all second) same

@[simp]
theorem ofCode?_code (opcode : Opcode) : ofCode? opcode.code = some opcode := by
  unfold ofCode?
  cases found : all.find? fun other => other.code == opcode.code with
  | none =>
      have missing := List.find?_eq_none.mp found opcode (mem_all opcode)
      simp at missing
  | some other =>
      have same := List.find?_some found
      rw [beq_iff_eq] at same
      rw [code_injective same]

theorem ofCode?_eq_some {byte : UInt8} {opcode : Opcode} :
    ofCode? byte = some opcode ↔ opcode.code = byte := by
  constructor
  · intro found
    exact beq_iff_eq.mp (@List.find?_some _ (fun opcode : Opcode => opcode.code == byte) _ _ found)
  · rintro rfl
    exact ofCode?_code opcode

theorem ofByte?_code (opcode : Opcode) : Layout.ofByte? opcode.code = some opcode.layout := by
  have known : ∀ opcode ∈ all, (Layout.ofByte? opcode.code).isSome := by decide +kernel
  rcases Option.isSome_iff_exists.mp (known opcode (mem_all opcode)) with ⟨layout, found⟩
  rw [Opcode.layout, found, Option.getD_some]

theorem eq_iinc {opcode : Opcode} (isIncrement : opcode.layout = .increment) : opcode = .iinc := by
  have only : ∀ opcode ∈ all, opcode.layout = .increment → opcode.code = Opcode.iinc.code := by
    decide +kernel
  exact code_injective (only opcode (mem_all opcode) isIncrement)

theorem eq_invokeinterface {opcode : Opcode} (isInterface : opcode.layout = .invokeInterface) :
    opcode = .invokeinterface := by
  have only : ∀ opcode ∈ all, opcode.layout = .invokeInterface →
      opcode.code = Opcode.invokeinterface.code := by
    decide +kernel
  exact code_injective (only opcode (mem_all opcode) isInterface)

/-- A jump is unconditional, or there is an opposite condition, which is a jump too. -/
theorem invertedCondition_of_jump {opcode : Opcode} (isJump : opcode.layout = .jump) :
    opcode = .goto ∨ opcode = .jsr ∨
      ∃ opposite, opcode.invertedCondition = some opposite ∧ opposite.layout = .jump := by
  have conditions : ∀ opcode ∈ all, opcode.layout = .jump →
      opcode.code = Opcode.goto.code ∨ opcode.code = Opcode.jsr.code ∨
        opcode.invertedCondition.any fun opposite => opposite.layout = .jump := by
    decide +kernel
  rcases conditions opcode (mem_all opcode) isJump with isGoto | isJsr | inverted
  · exact Or.inl (code_injective isGoto)
  · exact Or.inr (Or.inl (code_injective isJsr))
  · rw [Option.any_eq_true] at inverted
    rcases inverted with ⟨opposite, found, opposed⟩
    exact Or.inr (Or.inr ⟨opposite, found, of_decide_eq_true opposed⟩)

theorem layout_of_invertedCondition {opcode opposite : Opcode} (isJump : opcode.layout = .jump)
    (inverts : opcode.invertedCondition = some opposite) : opposite.layout = .jump := by
  rcases invertedCondition_of_jump isJump with rfl | rfl | ⟨other, inverted, layout⟩
  · cases inverts
  · cases inverts
  · rw [inverts, Option.some.injEq] at inverted
    rw [inverted, layout]

end Opcode

end ClassFile
