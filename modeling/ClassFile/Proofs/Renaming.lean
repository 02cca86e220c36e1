import ClassFile.Proofs.Gating.Constructs
import ClassFile.Renaming

/-!
# Events under new names

Renaming changes names and nothing else: an event under new names came with the same version
(`Event.since_renamed`).
-/

namespace ClassFile

namespace Renaming

variable {rename : Renaming}

theorem constantsAfter_eq (done values : List Constant) :
    rename.constantsAfter done values = done.reverse ++ values.map rename.constant := by
  induction values generalizing done with
  | nil => simp [constantsAfter]
  | cons value rest ih => simp [constantsAfter, ih]

@[simp]
theorem constants_eq_map (values : List Constant) : rename.constants values = values.map rename.constant := by
  simp [constants, constantsAfter_eq]

@[simp]
theorem isDynamic_constant (value : Constant) : (rename.constant value).isDynamic = value.isDynamic := by
  cases value <;> rfl

@[simp]
theorem usesDynamicConstant_instruction (instruction : Instruction) :
    (rename.instruction instruction).usesDynamicConstant = instruction.usesDynamicConstant := by
  cases instruction with
  | loadConstant value => exact isDynamic_constant value
  | invokeDynamic name descriptor bootstrap arguments =>
      simp [Renaming.instruction, Instruction.usesDynamicConstant, List.any_map, Function.comp_def]
  | _ => rfl

end Renaming

namespace Event

@[simp]
theorem since_renamed (rename : Renaming) (event : Event) : (event.renamed rename).since = event.since := by
  cases event with
  | enter opening => cases opening <;> rfl
  | classItem item => cases item <;> rfl
  | methodItem item =>
      cases item with
      | instruction instruction =>
          simp [renamed, Renaming.methodItem, since, MethodItem.since, Instruction.since]
      | _ => rfl
  | _ => rfl

theorem isKnownTo_renamed {rename : Renaming} {api : Api} {event : Event} (isKnown : event.IsKnownTo api) :
    (event.renamed rename).IsKnownTo api := by
  rwa [IsKnownTo, since_renamed]

end Event

end ClassFile
