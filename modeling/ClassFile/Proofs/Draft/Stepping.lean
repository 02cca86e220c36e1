import ClassFile.Proofs.Code.Stepping
import ClassFile.Proofs.Draft.Instructions

/-!
# Stepping over recorded instructions

The bytes that are encoded when an instruction is recorded are one instruction for the first pass, whatever
the index in them stands for.
-/

namespace ClassFile

namespace CodeDraft

variable {start : Nat} {opcode : Opcode}

theorem stepsOver_opcodeByte (plain : opcode.layout = .noOperand) :
    StepsOver start (opcodeByte opcode).toList := by
  rw [toList_opcodeByte]
  exact .of_size opcode.ofByte?_code (by rw [plain]; rfl)

theorem stepsOver_index (index : UInt16) {rest : List UInt8}
    (sized : opcode.layout.size? = some (rest.length + 3)) :
    StepsOver start (opcode.code :: bigEndian16 index ++ rest) :=
  .of_size opcode.ofByte?_code (by
    rw [sized, List.append_eq, List.length_append, length_bigEndian16, Nat.add_comm 2])

theorem stepsOver_intOperand (operand : IntOperand) : StepsOver start (intOperand operand).toList := by
  cases operand with
  | byte value => exact .of_size (show _ = some Layout.bytePush by decide) rfl
  | short value => exact .of_size (show _ = some Layout.shortPush by decide) rfl
  | newArray element => exact .of_size (show _ = some Layout.newArray by decide) rfl

theorem stepsOver_variableAccess (slot : UInt16) (isVariable : opcode.layout = .variable) :
    StepsOver start (variableAccess opcode slot).toList := by
  unfold variableAccess
  split
  · rename_i byte shortened
    exact .of_size (Layout.expandImplicitVariable_eq shortened).1 rfl
  · split
    · exact .of_size opcode.ofByte?_code (by rw [isVariable]; rfl)
    · exact .of_wide (.inl ⟨isVariable ▸ opcode.ofByte?_code, rfl⟩)

theorem stepsOver_variableIncrement (slot : UInt16) (amount : Int16) :
    StepsOver start (variableIncrement slot amount).toList := by
  unfold variableIncrement
  split
  · exact .of_size (show _ = some Layout.increment by decide) rfl
  · exact .of_wide (.inr ⟨by decide, rfl⟩)

theorem stepsOver_constantLoad (index : UInt16) (isWide : Bool) :
    StepsOver start (constantLoad index isWide).toList := by
  unfold constantLoad
  split
  · exact .of_size (show _ = some Layout.loadConstantTwoSlot by decide) rfl
  · split
    · exact .of_size (show _ = some Layout.loadConstant by decide) rfl
    · exact .of_size (show _ = some Layout.loadConstantWide by decide) rfl

end CodeDraft

end ClassFile
