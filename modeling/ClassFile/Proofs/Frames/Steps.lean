import ClassFile.Proofs.Gating.Bodies
import ClassFile.Proofs.Story.Classes

/-!
# Frames and instructions in a story

`codeSteps` takes the frames and the instructions out of a story.  No part of the story of a method but
its code array tells any (`Emit.IsSilent`).
-/

namespace ClassFile

/-- The frame or the instruction that an item is.  Labels and line numbers are neither. -/
def Item.codeStep? : Item → Option Instruction
  | .event (.methodItem (.instruction (.label _))) => none
  | .event (.methodItem (.instruction (.line ..))) => none
  | .event (.methodItem (.instruction instruction)) => some instruction
  | _ => none

theorem Item.codeStep?_of_turn {item : Item} (other : item.turn ≠ .step) : item.codeStep? = none := by
  unfold codeStep?
  split
  case h_3 => exact absurd rfl other
  all_goals rfl

/-- The frames and instructions in a story, in order. -/
def codeSteps (script : Script) : List Instruction :=
  script.filterMap Item.codeStep?

theorem codeSteps_append (items others : List Item) :
    codeSteps (items ++ others) = codeSteps items ++ codeSteps others :=
  List.filterMap_append

theorem codeSteps_eq_nil {items : List Item} (none : ∀ item ∈ items, item.codeStep? = none) :
    codeSteps items = [] :=
  List.filterMap_eq_nil_iff.mpr none

namespace Emit

variable {α β : Type} {first : Emit α} {second : α → Emit β} {steps others : List Instruction}

/-- Whether a producer, if it goes on, tells the given frames and instructions. -/
abbrev GivesSteps (steps : List Instruction) (emit : Emit α) : Prop :=
  Gives (fun items => codeSteps items = steps) emit

/-- Whether a producer, if it goes on, tells neither frames nor instructions. -/
abbrev IsSilent (emit : Emit α) : Prop :=
  GivesEach (fun item => item.codeStep? = none) emit

theorem GivesSteps.bind (here : GivesSteps steps first) (next : ∀ value, GivesSteps others (second value)) :
    GivesSteps (steps ++ others) (first >>= second) := by
  refine Gives.bind here next ?_
  rintro items more rfl rfl
  exact codeSteps_append items more

theorem GivesSteps.bind_emits {value : α} {items : List Item} (emits : Emits first value items)
    (next : GivesSteps others (second value)) :
    GivesSteps (codeSteps items ++ others) (first >>= second) := by
  intro before result after told
  rcases tells_bind.mp told with ⟨found, between, here, behind⟩
  rcases emits.tells_iff.mp here with ⟨rfl, rfl⟩
  rcases next behind with ⟨more, rfl, rfl⟩
  exact ⟨items ++ more, by simp, codeSteps_append items more⟩

theorem GivesSteps.pure (value : α) : GivesSteps [] (pure value) :=
  @Gives.pure α (fun items => codeSteps items = []) rfl value

/-- What is told besides frames and instructions does not matter. -/
theorem IsSilent.then (silent : IsSilent first)
    (next : ∀ value, GivesSteps steps (second value)) : GivesSteps steps (first >>= second) :=
  Gives.bind silent next fun items more none told => by
    rw [codeSteps_append, codeSteps_eq_nil none, told, List.nil_append]

end Emit

namespace ClassImage

open Emit Item
open AttributeKind (ofMethod)

variable {image : ClassImage} {options : ReadOptions} {body : CodeBody}

theorem codeSteps_instruction {instruction : Instruction} (real : instruction.isReal = true) :
    codeSteps [instructionItem instruction] = [instruction] := by
  cases instruction
  case label | line => cases real
  all_goals rfl

theorem silent_tellLabel (position : Label) : IsSilent (tellLabel body position) := by
  unfold tellLabel
  split
  · exact GivesEach.bind (GivesEach.tell rfl) fun _ => GivesEach.forM fun _ _ => GivesEach.tell rfl
  · exact GivesEach.pure _

theorem silent_tellCodeNote (opening : Opening) (note : CodeAnnotation) :
    IsSilent (image.tellCodeAnnotation opening note) := by
  refine (gives_tellCodeNote opening note).weaken fun items scopes item member => ?_
  rcases scopes item member with ⟨inside, rfl, -⟩
  rfl

theorem codeSteps_frames (frames : List (Label × Frame)) :
    codeSteps (frames.map fun frame => instructionItem (.frame frame.2)) =
      frames.map fun frame => .frame frame.2 := by
  induction frames with
  | nil => rfl
  | cons frame frames ih => exact congrArg _ ih

theorem silent_of_turns {α : Type} {emit : Emit α} {P : List Item → Prop} (gives : Gives P emit)
    (elsewhere : ∀ items, P items → ∀ item ∈ items, item.turn ≠ .step) : IsSilent emit :=
  gives.weaken fun items holds item member => codeStep?_of_turn (elsewhere items holds item member)

theorem silent_atTurn {α : Type} {emit : Emit α} {turn : Turn}
    (gives : Gives (AtTurn (Fits ofMethod) turn) emit) (other : turn ≠ .step) : IsSilent emit :=
  silent_of_turns gives fun _ here item member => here.turn_eq item member ▸ other

theorem silent_inTurn {α : Type} {emit : Emit α} {turns : List Turn}
    (gives : Gives (InTurn (Fits ofMethod) turns) emit) (absent : .step ∉ turns) : IsSilent emit :=
  silent_of_turns gives fun _ here item member same => absent (same ▸ here.turn_mem item member)

theorem silent_tellOthers (inCode : Bool) (common : CommonAttributes) :
    IsSilent (image.tellOthers options inCode common) :=
  GivesEach.forM fun _ _ => Gives.bind_lift fun _ _ => GivesEach.tell rfl

theorem silent_tellMethodFront (attributes : MethodAttributes) :
    IsSilent (image.tellMethodFront options attributes) := by
  have front : IsSilent (do
      tellIfPresent attributes.annotationDefault? fun offset =>
        discard (Emit.eager .annotationDefault
          (image.tellElement maxAnnotationLevels none offset))
      image.tellAnnotations options attributes.common
      tellIfPresent attributes.visibleParameters? (image.tellParameterAnnotations true)
      tellIfPresent attributes.invisibleParameters? (image.tellParameterAnnotations false)
      image.tellOthers options false attributes.common) := by
    refine GivesEach.bind (gives_tellIfPresent (by simp) fun offset => ?_) fun _ => ?_
    · refine Gives.discard (Gives.eager (gives_tellElement _ hasName_none _) fun items _ => ?_)
      simp [codeStep?]
    refine GivesEach.bind (silent_inTurn (gives_tellAnnotations attributes.common) (by decide)) fun _ => ?_
    have parameters (visible : Bool) (offset : Nat) :
        IsSilent (image.tellParameterAnnotations visible offset) := by
      refine silent_of_turns (@gives_tellParameterAnnotations image ofMethod visible offset)
        fun items told item member same => ?_
      have turn := told.1.turn_mem item member
      rw [same] at turn
      cases visible <;> simp [Turn.ofCount, Turn.ofParameter] at turn
    refine GivesEach.bind (gives_tellIfPresent (by simp) (parameters true)) fun _ => ?_
    refine GivesEach.bind (gives_tellIfPresent (by simp) (parameters false)) fun _ => ?_
    exact silent_tellOthers false attributes.common
  unfold tellMethodFront
  dsimp only
  split
  · refine GivesEach.bind (gives_tellIfPresent (by simp) fun offset => ?_) fun _ => front
    refine Gives.bind_lift fun count _ => ?_
    refine silent_of_turns (@gives_tellParameters image ofMethod _ _)
      fun items told item member same => ?_
    cases (told item member).1.symm.trans same
  · exact front

end ClassImage

end ClassFile
