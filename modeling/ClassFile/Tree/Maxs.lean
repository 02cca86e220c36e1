import ClassFile.Access
import ClassFile.Descriptor
import ClassFile.Opcode.StackEffect
import ClassFile.Tree.Method
import Std.Data.HashMap

/-!
# Room for stack and locals

`MethodTree.neededStack` follows the control flow of a body and finds how high the operand stack
grows; `MethodTree.neededLocals` finds how many slots the local variables take.

Every instruction that can be reached is followed once, with the height at which it is reached
first.  Where the heights of all paths agree, the order does not matter.  A handler starts with the
caught exception alone on the stack, and a stack can't become lower than empty.
-/

namespace ClassFile

/-- Where control goes from an instruction. -/
structure Flow where
  /-- Whether the next instruction is reached. -/
  fallsThrough : Bool
  targets : List Label := []
  /-- The slots on the stack at the targets that are not there at the next instruction. -/
  pushed : Nat := 0
  deriving DecidableEq, Inhabited

namespace Instruction

/-- Where control goes from an element of a body. -/
def flow : Instruction → Flow
  | .jump .goto target => { fallsThrough := false, targets := [target] }
  | .jump .jsr target => { fallsThrough := true, targets := [target], pushed := 1 }
  | .jump _ target => { fallsThrough := true, targets := [target] }
  | .tableSwitch _ _ default targets => { fallsThrough := false, targets := default :: targets }
  | .lookupSwitch default cases =>
      { fallsThrough := false, targets := default :: cases.map Prod.snd }
  | .variable .ret _ => { fallsThrough := false }
  | .simple opcode => { fallsThrough := ! opcode.endsMethod }
  | _ => { fallsThrough := true }

/-- The slots that a call adds to the stack, without its receiver. -/
def callEffect (descriptor : Text) : Except Fault Int := do
  let arguments ← Descriptor.argumentSlots descriptor
  return (Descriptor.returnSlots descriptor : Int) - arguments.toNat

/-- The slots that an element of a body adds to the stack or, below zero, takes from it. -/
def stackEffect : Instruction → Except Fault Int
  | .simple opcode | .variable opcode _ | .type opcode _ | .jump opcode _ => .ok opcode.stackEffect
  | .int (.newArray _) => .ok 0
  | .int _ => .ok 1
  | .field opcode member =>
      let size : Int := Descriptor.fieldSlots member.descriptor
      .ok <|
        match opcode with
        | .getstatic => size
        | .putstatic => -size
        | .getfield => size - 1
        | _ => -size - 1
  | .method .invokestatic member _ => callEffect member.descriptor
  | .method _ member _ => (callEffect member.descriptor).map fun effect => effect - 1
  | .invokeDynamic _ descriptor _ _ => callEffect descriptor
  | .loadConstant constant => .ok (if constant.isWide then 2 else 1)
  | .tableSwitch .. | .lookupSwitch .. => .ok (-1)
  | .multiArray _ dimensions => .ok (1 - (dimensions.toNat : Int))
  | .increment .. | .label _ | .line .. | .frame _ => .ok 0

/-- The number of the first slot behind those of the local variable that is accessed. -/
def localsEnd : Instruction → Nat
  | .variable opcode slot => slot.toNat + if opcode.accessesTwoSlots then 2 else 1
  | .increment slot _ => slot.toNat + 1
  | _ => 0

end Instruction

/-- A body on the way through its control flow. -/
structure StackSearch where
  /-- The instructions that were not reached yet, each at its position. -/
  unreached : Array (Option Instruction)
  /-- The positions of the labels; of a label that stands at several the last counts. -/
  places : Std.HashMap Label Nat
  highest : Int := 0

namespace StackSearch

/-- The search through a body before its first step. -/
def start (code : List Instruction) : StackSearch where
  unreached := (code.map some).toArray
  places := code.zipIdx.foldl
    (fun places (instruction, position) =>
      match instruction with
      | .label label => places.insert label position
      | _ => places)
    ∅

/-- The positions of the targets that exist, with a height, on top of `pending`. -/
def addTargets (search : StackSearch) (height : Int) (pending : List (Nat × Int))
    (targets : List Label) : List (Nat × Int) :=
  targets.foldl
    (fun pending label =>
      match search.places[label]? with
      | some position => (position, height) :: pending
      | none => pending)
    pending

/-- The search that has seen a height. -/
def see (search : StackSearch) (height : Int) : StackSearch :=
  { search with highest := max search.highest height }

/-- The search with the instruction at a position reached. -/
def reach (search : StackSearch) (position : Nat) : StackSearch :=
  { search with unreached := search.unreached.setIfInBounds position none }

/-- The number of instructions that were not reached yet. -/
def remaining (search : StackSearch) : Nat :=
  search.unreached.countP Option.isSome

@[simp]
theorem remaining_see (search : StackSearch) (height : Int) :
    (search.see height).remaining = search.remaining :=
  rfl

theorem remaining_reach_lt (search : StackSearch) (position : Nat) (instruction : Instruction)
    (unreached : search.unreached[position]? = some (some instruction)) :
    (search.reach position).remaining < search.remaining := by
  obtain ⟨inside, found⟩ := Array.getElem?_eq_some_iff.mp unreached
  have positive : 0 < search.remaining :=
    Array.countP_pos_iff.mpr ⟨some instruction, found ▸ Array.getElem_mem inside, rfl⟩
  rw [remaining] at positive ⊢
  rw [reach, remaining, Array.setIfInBounds, dif_pos inside, Array.countP_set, found]
  simp only [Option.isSome_some, Option.isSome_none, if_true, Bool.false_eq_true, if_false]
  omega

/-- Follows the paths from the given positions, each entered with the given height, and gives the
greatest height on them. -/
def run (search : StackSearch) : List (Nat × Int) → Except Fault Int
  | [] => .ok search.highest
  | (position, height) :: pending =>
      match _unreached : search.unreached[position]? with
      | some (some instruction) =>
          match instruction.stackEffect with
          | .error cause => .error cause
          | .ok effect =>
              let flow := instruction.flow
              let after := max 0 (height + effect)
              let pending := search.addTargets (after + flow.pushed) pending flow.targets
              let pending :=
                if flow.fallsThrough then (position + 1, after) :: pending else pending
              (((search.see height).see (after + flow.pushed)).reach position).run pending
      | _ => (search.see height).run pending
termination_by pending => (search.remaining, pending.length)
decreasing_by
  · exact Prod.Lex.left _ _ (remaining_reach_lt _ _ _ _unreached)
  · exact Prod.Lex.right _ (Nat.lt_succ_self _)

end StackSearch

namespace MethodTree

/-- A number in two bytes, the greatest there is for a number that is too large. -/
def clamped (number : Nat) : UInt16 :=
  (min number 65535).toUInt16

/-- The instructions of the body, without their annotations. -/
def code (tree : MethodTree) : List Instruction :=
  tree.instructions.map (·.instruction)

/-- The slots of operand stack that the body needs. -/
def neededStack (tree : MethodTree) : Except Fault UInt16 := do
  let search := StackSearch.start tree.code
  let handlers := tree.handlers.map (·.block.handler)
  let highest ← search.run (search.addTargets 1 [(0, 0)] handlers)
  return clamped highest.toNat

/-- The slots of local variables that the method needs: for the receiver and the arguments, for the
variables that instructions access, and for the variables that are declared. -/
def neededLocals (tree : MethodTree) : Except Fault UInt16 := do
  let arguments ← Descriptor.argumentSlots tree.header.descriptor
  let receiver := if tree.header.access &&& Access.static = 0 then 1 else 0
  let accessed := tree.code.foldl (fun size instruction => max size instruction.localsEnd)
    (arguments.toNat + receiver)
  return clamped <| tree.localVariables.foldl
    (fun size entry =>
      max size (entry.range.slot.toNat + max (Descriptor.fieldSlots entry.descriptor) 1))
    accessed

/-- The slots of operand stack and of local variables that the method needs. -/
def neededMaxs (tree : MethodTree) : Except Fault (UInt16 × UInt16) := do
  return (← tree.neededStack, ← tree.neededLocals)

/-- The method with the room that it needs, or with the room that it was told if it has no code. -/
def withNeededMaxs (tree : MethodTree) : Except Fault MethodTree := do
  if ! tree.hasCode then return tree
  let (maxStack, maxLocals) ← tree.neededMaxs
  return { tree with maxStack, maxLocals }

end MethodTree

end ClassFile
