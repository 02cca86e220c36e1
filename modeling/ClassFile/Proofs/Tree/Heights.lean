import ClassFile.Proofs.Result
import ClassFile.Tree.Maxs
import Mathlib.Data.List.Induction
import Mathlib.Order.Bounds.Basic

/-!
# Heights of the operand stack

Where every instruction of a body has one height of the stack in front of it, whichever way control
comes there, the room that is computed for the stack is exact: it is the greatest height in front of an
instruction that is reached, behind one, or at the target of a subroutine call
(`MethodTree.neededStack_greatest`).

The search follows each instruction once and keeps a list of positions to go on from.  `Explores` is a
search that may go on from any of them; what it finds does not depend on which it takes first.
-/

namespace ClassFile

namespace Instruction

theorem stackEffect_of_pushed {instruction : Instruction} (pushes : instruction.flow.pushed ≠ 0) :
    instruction.stackEffect = .ok 0 := by
  unfold flow at pushes
  split at pushes
  case h_2 => rfl
  all_goals exact absurd rfl pushes

end Instruction

/-! ### Control flow -/

namespace MethodTree

/-- Whether no label stands at two positions of the body. -/
def HasSingleLabels (tree : MethodTree) : Prop :=
  ∀ ⦃label : Label⦄ ⦃one two : Nat⦄, tree.code[one]? = some (.label label) →
    tree.code[two]? = some (.label label) → one = two

/-- The labels of the exception handlers. -/
def handlerLabels (tree : MethodTree) : List Label :=
  tree.handlers.map (·.block.handler)

/-- Whether control comes to a position from outside: the body starts there, or a handler. -/
inductive Starts (tree : MethodTree) : Nat → Prop where
  | entry (inside : 0 < tree.code.length) : tree.Starts 0
  | handler {label : Label} {position : Nat} (isHandler : label ∈ tree.handlerLabels)
      (here : tree.code[position]? = some (.label label)) : tree.Starts position

/-- Whether control goes from one position to another, with so many slots on the stack that the
instruction pushes for its target alone. -/
inductive Leads (tree : MethodTree) : (position target pushed : Nat) → Prop where
  | next {position : Nat} {instruction : Instruction}
      (here : tree.code[position]? = some instruction)
      (falls : instruction.flow.fallsThrough = true) (inside : position + 1 < tree.code.length) :
      tree.Leads position (position + 1) 0
  | branch {position target : Nat} {instruction : Instruction} {label : Label}
      (here : tree.code[position]? = some instruction) (isTarget : label ∈ instruction.flow.targets)
      (there : tree.code[target]? = some (.label label)) :
      tree.Leads position target instruction.flow.pushed

/-- Whether control may come to a position. -/
inductive Reaches (tree : MethodTree) : Nat → Prop where
  | start {position : Nat} (starts : tree.Starts position) : tree.Reaches position
  | step {position target pushed : Nat} (reaches : tree.Reaches position)
      (leads : tree.Leads position target pushed) : tree.Reaches target

/-- Whether an instruction that may be reached stands at a position, with the slots that it adds. -/
structure Executes (tree : MethodTree) (position : Nat) (instruction : Instruction) (effect : Int) :
    Prop where
  reaches : tree.Reaches position
  here : tree.code[position]? = some instruction
  effect : instruction.stackEffect = .ok effect

/-- Whether numbers are consistent heights of the stack in front of the instructions of a body. -/
structure HasHeights (tree : MethodTree) (height : Nat → Nat) : Prop where
  entry : height 0 = 0
  handler : ∀ {label : Label} {position : Nat}, label ∈ tree.handlerLabels →
    tree.code[position]? = some (.label label) → height position = 1
  /-- The slots that an instruction adds are known; those of a descriptor are counted in two bytes. -/
  known : ∀ {position : Nat} {instruction : Instruction}, tree.Reaches position →
    tree.code[position]? = some instruction → ∃ effect, instruction.stackEffect = .ok effect
  step : ∀ {position target pushed : Nat} {instruction : Instruction} {effect : Int},
    tree.Executes position instruction effect → tree.Leads position target pushed →
      (height target : Int) = height position + effect + pushed

/-- The heights of the stack in front of the instructions that are reached, behind them, and at their
targets. -/
inductive Occurs (tree : MethodTree) (height : Nat → Nat) : Int → Prop where
  | before {position : Nat} {instruction : Instruction} {effect : Int}
      (executes : tree.Executes position instruction effect) : tree.Occurs height (height position)
  | after {position : Nat} {instruction : Instruction} {effect : Int}
      (executes : tree.Executes position instruction effect) :
      tree.Occurs height (height position + effect)
  | target {position : Nat} {instruction : Instruction} {effect : Int}
      (executes : tree.Executes position instruction effect) :
      tree.Occurs height (height position + effect + instruction.flow.pushed)

/-- The heights that occur, and that of the empty stack. -/
def heights (tree : MethodTree) (height : Nat → Nat) : Set Int :=
  insert 0 { number | tree.Occurs height number }

variable {tree : MethodTree} {height : Nat → Nat} {position target pushed : Nat}
  {instruction : Instruction} {effect : Int}

theorem Starts.lt_length (starts : tree.Starts position) : position < tree.code.length := by
  cases starts with
  | entry inside => exact inside
  | handler _ here => exact (List.getElem?_eq_some_iff.mp here).1

theorem Leads.lt_length (leads : tree.Leads position target pushed) : target < tree.code.length := by
  cases leads with
  | next _ _ inside => exact inside
  | branch _ _ there => exact (List.getElem?_eq_some_iff.mp there).1

theorem Reaches.lt_length (reaches : tree.Reaches position) : position < tree.code.length := by
  cases reaches with
  | start starts => exact starts.lt_length
  | step _ leads => exact leads.lt_length

theorem HasHeights.start (hasHeights : tree.HasHeights height) (starts : tree.Starts position) :
    height position = 0 ∨ height position = 1 := by
  cases starts with
  | entry => exact .inl hasHeights.entry
  | handler isHandler here => exact .inr (hasHeights.handler isHandler here)

/-- The height behind an instruction, as it is computed: a stack that would be lower than empty is taken
to be empty. -/
def heightBehind (height : Int) (effect : Int) : Int :=
  max 0 (height + effect)

/-- The height behind an instruction from which control goes on is not below zero. -/
theorem HasHeights.step_behind (hasHeights : tree.HasHeights height)
    (executes : tree.Executes position instruction effect)
    (leads : tree.Leads position target pushed) :
    (height target : Int) = heightBehind (height position) effect + pushed := by
  have step := hasHeights.step executes leads
  have positive : 0 ≤ (height position : Int) + effect := by
    cases leads with
    | next => omega
    | branch here =>
        by_cases pushes : instruction.flow.pushed = 0
        · rw [executes.here, Option.some.injEq] at here
          rw [← here] at step
          omega
        · have none := Instruction.stackEffect_of_pushed pushes
          rw [executes.effect, Except.ok.injEq] at none
          omega
  rw [heightBehind, Int.max_eq_right positive, step]

theorem heightBehind_mem (executes : tree.Executes position instruction effect) :
    heightBehind (height position) effect ∈ tree.heights height := by
  rcases Int.le_total 0 (height position + effect) with positive | negative
  · rw [heightBehind, Int.max_eq_right positive]
    exact .inr (.after executes)
  · rw [heightBehind, Int.max_eq_left negative]
    exact .inl rfl

theorem heightBehind_pushed_mem (executes : tree.Executes position instruction effect) :
    heightBehind (height position) effect + instruction.flow.pushed ∈ tree.heights height := by
  by_cases pushes : instruction.flow.pushed = 0
  · rw [pushes, Int.natCast_zero, Int.add_zero]
    exact heightBehind_mem executes
  · have none := Instruction.stackEffect_of_pushed pushes
    rw [executes.effect, Except.ok.injEq] at none
    rw [heightBehind, Int.max_eq_right (by omega)]
    exact .inr (.target executes)

end MethodTree

/-! ### Searches -/

namespace StackSearch

open MethodTree

variable {search : StackSearch} {pending rest : List (Nat × Int)} {result : Int}

/-- The search that has followed an instruction. -/
def followed (search : StackSearch) (position : Nat) (height effect : Int) (instruction : Instruction) :
    StackSearch :=
  ((search.see height).see (heightBehind height effect + instruction.flow.pushed)).reach position

/-- Where the search goes on from when it has followed an instruction. -/
def pendingBehind (search : StackSearch) (position : Nat) (height effect : Int)
    (instruction : Instruction) (rest : List (Nat × Int)) : List (Nat × Int) :=
  let behind := heightBehind height effect
  let pending := search.addTargets (behind + instruction.flow.pushed) rest instruction.flow.targets
  if instruction.flow.fallsThrough then (position + 1, behind) :: pending else pending

/-- A search that goes on from the pending positions in any order, with the greatest height it finds. -/
inductive Explores : StackSearch → List (Nat × Int) → Int → Prop where
  | done (search : StackSearch) : Explores search [] search.highest
  | passed {search : StackSearch} {pending rest : List (Nat × Int)} {position : Nat} {height result : Int}
      (taken : pending.Perm ((position, height) :: rest))
      (known : ∀ instruction, search.unreached[position]? ≠ some (some instruction))
      (others : Explores (search.see height) rest result) : Explores search pending result
  | followed {search : StackSearch} {pending rest : List (Nat × Int)} {position : Nat}
      {height effect result : Int} {instruction : Instruction}
      (taken : pending.Perm ((position, height) :: rest))
      (found : search.unreached[position]? = some (some instruction))
      (effects : instruction.stackEffect = .ok effect)
      (others : Explores (search.followed position height effect instruction)
        (search.pendingBehind position height effect instruction rest) result) :
      Explores search pending result

/-! ### Positions of labels -/

theorem places_start_concat (code : List Instruction) (instruction : Instruction) :
    (start (code ++ [instruction])).places =
      match instruction with
      | .label label => (start code).places.insert label code.length
      | _ => (start code).places := by
  cases instruction <;>
    simp only [start, List.zipIdx_append, List.foldl_append, List.zipIdx_singleton, List.foldl_cons,
      List.foldl_nil, Nat.zero_add]

theorem at_of_places_start {code : List Instruction} {label : Label} {position : Nat}
    (known : (start code).places[label]? = some position) : code[position]? = some (.label label) := by
  induction code using List.reverseRecOn with
  | nil => simp [start] at known
  | append_singleton code instruction ih =>
      have earlier (found : (start code).places[label]? = some position) :
          (code ++ [instruction])[position]? = some (.label label) := by
        have here := ih found
        rw [List.getElem?_append_left (List.getElem?_eq_some_iff.mp here).1, here]
      rw [places_start_concat] at known
      split at known
      · rename_i other
        rw [Std.HashMap.getElem?_insert] at known
        split at known
        · rename_i same
          rw [Option.some.injEq] at known
          rw [← known, List.getElem?_concat_length, eq_of_beq same]
        · exact earlier known
      · exact earlier known

theorem exists_places_start {code : List Instruction} {label : Label} {position : Nat}
    (here : code[position]? = some (.label label)) :
    ∃ other, (start code).places[label]? = some other := by
  induction code using List.reverseRecOn with
  | nil => simp at here
  | append_singleton code instruction ih =>
      rw [places_start_concat]
      rcases Nat.lt_or_ge position code.length with inside | behind
      · rw [List.getElem?_append_left inside] at here
        rcases ih here with ⟨other, known⟩
        split
        · rw [Std.HashMap.getElem?_insert]
          split
          · exact ⟨_, rfl⟩
          · exact ⟨other, known⟩
        · exact ⟨other, known⟩
      · rw [List.getElem?_append_right behind] at here
        rcases List.getElem?_eq_some_iff.mp here with ⟨inside, same⟩
        rw [List.getElem_singleton] at same
        subst same
        exact ⟨_, Std.HashMap.getElem?_insert_self⟩

/-- A label that stands once is found where it stands. -/
theorem places_start_iff {tree : MethodTree} (single : tree.HasSingleLabels) {label : Label}
    {position : Nat} :
    (start tree.code).places[label]? = some position ↔ tree.code[position]? = some (.label label) := by
  refine ⟨at_of_places_start, fun here => ?_⟩
  rcases exists_places_start here with ⟨other, known⟩
  rw [known, single here (at_of_places_start known)]

theorem mem_addTargets {height : Int} {targets : List Label} {entry : Nat × Int} :
    entry ∈ search.addTargets height pending targets ↔
      entry ∈ pending ∨ entry.2 = height ∧ ∃ label ∈ targets, search.places[label]? = some entry.1 := by
  unfold addTargets
  induction targets generalizing pending with
  | nil => simp
  | cons label targets ih =>
      rw [List.foldl_cons, ih]
      cases known : search.places[label]? with
      | none => simp [known]
      | some position =>
          rcases entry with ⟨place, number⟩
          simp only [List.mem_cons, Prod.mk.injEq, exists_eq_or_imp, known, Option.some.injEq]
          constructor
          · rintro ((⟨rfl, rfl⟩ | before) | ⟨same, others⟩)
            · exact .inr ⟨rfl, .inl rfl⟩
            · exact .inl before
            · exact .inr ⟨same, .inr others⟩
          · rintro (before | ⟨rfl, (rfl | others)⟩)
            · exact .inl (.inr before)
            · exact .inl (.inl ⟨rfl, rfl⟩)
            · exact .inr ⟨rfl, others⟩

/-! ### What a search has found -/

/-- Whether a position was followed, or waits to be. -/
def Meets (search : StackSearch) (pending : List (Nat × Int)) (position : Nat) : Prop :=
  search.unreached[position]? = some none ∨ ∃ height, (position, height) ∈ pending

/-- Whether a search has followed only instructions that may be reached, with their heights, and none of
those that come next to them is forgotten. -/
structure Stands (tree : MethodTree) (height : Nat → Nat) (search : StackSearch)
    (pending : List (Nat × Int)) : Prop where
  size : search.unreached.size = tree.code.length
  unreached : ∀ {position : Nat} {instruction : Instruction},
    search.unreached[position]? = some (some instruction) → tree.code[position]? = some instruction
  reached : ∀ {position : Nat}, search.unreached[position]? = some none → tree.Reaches position
  places : search.places = (start tree.code).places
  /-- Behind the end of the body nothing waits but a height that occurs. -/
  waiting : ∀ entry ∈ pending, entry.2 ∈ tree.heights height ∧
    (entry.1 < tree.code.length → tree.Reaches entry.1 ∧ entry.2 = height entry.1)
  starts : ∀ {position : Nat}, tree.Starts position → search.Meets pending position
  steps : ∀ {position target pushed : Nat}, search.unreached[position]? = some none →
    tree.Leads position target pushed → search.Meets pending target
  bounds : ∀ {position : Nat} {instruction : Instruction} {effect : Int},
    search.unreached[position]? = some none → tree.Executes position instruction effect →
      (height position : Int) ≤ search.highest ∧
        heightBehind (height position) effect + instruction.flow.pushed ≤ search.highest
  highest : search.highest ∈ tree.heights height
  positive : 0 ≤ search.highest

section Stands

variable {tree : MethodTree} {height : Nat → Nat} {position : Nat} {number effect : Int}
  {instruction : Instruction}

theorem Stands.perm (stands : Stands tree height search pending) (perm : pending.Perm rest) :
    Stands tree height search rest := by
  have meets {position : Nat} (met : search.Meets pending position) : search.Meets rest position :=
    met.imp id fun ⟨number, member⟩ => ⟨number, perm.subset member⟩
  exact { stands with
    waiting := fun entry member => stands.waiting entry (perm.symm.subset member)
    starts := fun starts => meets (stands.starts starts)
    steps := fun followed leads => meets (stands.steps followed leads) }

theorem max_mem {numbers : Set Int} {one two : Int} (first : one ∈ numbers) (second : two ∈ numbers) :
    max one two ∈ numbers := by
  rcases Int.le_total one two with less | less
  · rwa [Int.max_eq_right less]
  · rwa [Int.max_eq_left less]

/-- A position that was followed before, or lies behind the body, is passed by. -/
theorem Stands.passed (stands : Stands tree height search ((position, number) :: rest))
    (known : ∀ instruction, search.unreached[position]? ≠ some (some instruction)) :
    Stands tree height (search.see number) rest := by
  have meets {target : Nat} (inside : target < tree.code.length)
      (met : search.Meets ((position, number) :: rest) target) : search.Meets rest target := by
    rcases met with followed | ⟨other, member⟩
    · exact .inl followed
    · rcases List.mem_cons.mp member with same | later
      · obtain rfl : target = position := congrArg Prod.fst same
        rw [← stands.size] at inside
        have here := Array.getElem?_eq_getElem inside
        cases found : search.unreached[target] with
        | none => exact .inl (here.trans (congrArg some found))
        | some instruction => exact absurd (here.trans (congrArg some found)) (known instruction)
      · exact .inr ⟨other, later⟩
  have here := stands.waiting (position, number) List.mem_cons_self
  exact {
    size := stands.size
    unreached := stands.unreached
    reached := stands.reached
    places := stands.places
    waiting := fun entry member => stands.waiting entry (List.mem_cons_of_mem _ member)
    starts := fun starts => meets starts.lt_length (stands.starts starts)
    steps := fun followed leads => meets leads.lt_length (stands.steps followed leads)
    bounds := fun followed executes => by
      have bounds := stands.bounds followed executes
      exact ⟨Int.le_trans bounds.1 (Int.le_max_left _ _), Int.le_trans bounds.2 (Int.le_max_left _ _)⟩
    highest := max_mem stands.highest here.1
    positive := Int.le_trans stands.positive (Int.le_max_left _ _) }

theorem unreached_followed (other : Nat) :
    (search.followed position number effect instruction).unreached[other]? =
      if position = other then if position < search.unreached.size then some none else none
      else search.unreached[other]? :=
  Array.getElem?_setIfInBounds

theorem mem_pendingBehind {entry : Nat × Int} :
    entry ∈ search.pendingBehind position number effect instruction rest ↔
      (instruction.flow.fallsThrough = true ∧ entry = (position + 1, heightBehind number effect)) ∨
        entry ∈ rest ∨ entry.2 = heightBehind number effect + instruction.flow.pushed ∧
          ∃ label ∈ instruction.flow.targets, search.places[label]? = some entry.1 := by
  unfold pendingBehind
  dsimp only
  split
  · rename_i falls
    rw [List.mem_cons, mem_addTargets]
    simp [falls]
  · rename_i stops
    rw [mem_addTargets]
    simp [stops]

/-- An instruction is followed, and everything that comes next to it waits. -/
theorem Stands.followed (single : tree.HasSingleLabels) (hasHeights : tree.HasHeights height)
    (stands : Stands tree height search ((position, number) :: rest))
    (found : search.unreached[position]? = some (some instruction))
    (effects : instruction.stackEffect = .ok effect) :
    Stands tree height (search.followed position number effect instruction)
      (search.pendingBehind position number effect instruction rest) := by
  have here := stands.unreached found
  have inside := (List.getElem?_eq_some_iff.mp here).1
  rcases stands.waiting (position, number) List.mem_cons_self with ⟨occurs, isHeight⟩
  rcases isHeight inside with ⟨reaches, same⟩
  dsimp only at occurs same
  have executes : tree.Executes position instruction effect := ⟨reaches, here, effects⟩
  have placed {label : Label} {target : Nat} :
      search.places[label]? = some target ↔ tree.code[target]? = some (.label label) := by
    rw [stands.places]
    exact places_start_iff single
  have isReached : (search.followed position number effect instruction).unreached[position]? =
      some none := by
    rw [unreached_followed, if_pos rfl, if_pos (stands.size ▸ inside)]
  have earlier {other : Nat} {found : Option Instruction}
      (known : (search.followed position number effect instruction).unreached[other]? = some found) :
      other = position ∨ search.unreached[other]? = some found := by
    rw [unreached_followed] at known
    split at known
    · rename_i isHere
      exact .inl isHere.symm
    · exact .inr known
  have meets {target : Nat} (met : search.Meets ((position, number) :: rest) target) :
      (search.followed position number effect instruction).Meets
        (search.pendingBehind position number effect instruction rest) target := by
    by_cases isHere : target = position
    · exact .inl (isHere ▸ isReached)
    · rcases met with followed | ⟨other, member⟩
      · refine .inl ?_
        rw [unreached_followed, if_neg (Ne.symm isHere), followed]
      · rcases List.mem_cons.mp member with first | later
        · exact absurd (congrArg Prod.fst first) isHere
        · exact .inr ⟨other, mem_pendingBehind.mpr (.inr (.inl later))⟩
  have leadsOn {target pushed : Nat} (leads : tree.Leads position target pushed) :
      ((target, heightBehind number effect + pushed) : Nat × Int) ∈
        search.pendingBehind position number effect instruction rest := by
    rw [mem_pendingBehind]
    cases leads with
    | next other falls =>
        cases here.symm.trans other
        exact .inl ⟨falls, by simp⟩
    | branch other isTarget there =>
        cases here.symm.trans other
        exact .inr (.inr ⟨rfl, _, isTarget, placed.mpr there⟩)
  have leadsTo {target pushed : Nat} (leads : tree.Leads position target pushed) :
      tree.Reaches target ∧ heightBehind number effect + pushed = height target := by
    refine ⟨.step reaches leads, ?_⟩
    rw [hasHeights.step_behind executes leads, same]
  exact {
    size := Array.size_setIfInBounds.trans stands.size
    unreached := fun known => by
      rcases earlier known with rfl | before
      · rw [isReached] at known
        cases known
      · exact stands.unreached before
    reached := fun known => (earlier known).elim (fun isHere => isHere ▸ reaches) stands.reached
    places := stands.places
    waiting := fun entry member => by
      rcases mem_pendingBehind.mp member with ⟨falls, rfl⟩ | before | ⟨atTarget, label, isTarget, known⟩
      · refine ⟨same ▸ heightBehind_mem executes, fun within => ?_⟩
        simpa using leadsTo (.next here falls within)
      · exact stands.waiting entry (List.mem_cons_of_mem _ before)
      · rw [atTarget]
        refine ⟨same ▸ heightBehind_pushed_mem executes, fun _ => ?_⟩
        exact leadsTo (.branch here isTarget (placed.mp known))
    starts := fun starts => meets (stands.starts starts)
    steps := fun known leads => by
      rcases earlier known with rfl | before
      · exact .inr ⟨_, leadsOn leads⟩
      · exact meets (stands.steps before leads)
    bounds := fun known executesOther => by
      rcases earlier known with rfl | before
      · cases here.symm.trans executesOther.here
        cases effects.symm.trans executesOther.effect
        rw [← same]
        exact ⟨Int.le_trans (Int.le_max_right _ _) (Int.le_max_left _ _), Int.le_max_right _ _⟩
      · have bounds := stands.bounds before executesOther
        have higher : search.highest ≤
            (search.followed position number effect instruction).highest :=
          Int.le_trans (Int.le_max_left _ _) (Int.le_max_left _ _)
        exact ⟨Int.le_trans bounds.1 higher, Int.le_trans bounds.2 higher⟩
    highest := max_mem (max_mem stands.highest occurs) (same ▸ heightBehind_pushed_mem executes)
    positive := Int.le_trans stands.positive
      (Int.le_trans (Int.le_max_left _ _) (Int.le_max_left _ _)) }

theorem stands_start (single : tree.HasSingleLabels) (hasHeights : tree.HasHeights height) :
    Stands tree height (start tree.code)
      ((start tree.code).addTargets 1 [(0, 0)] tree.handlerLabels) := by
  have fresh (position : Nat) :
      (start tree.code).unreached[position]? = (tree.code[position]?).map some := by
    simp [start]
  have unfollowed {position : Nat} (found : (start tree.code).unreached[position]? = some none) :
      False := by
    rw [fresh, Option.map_eq_some_iff] at found
    rcases found with ⟨_, -, ⟨⟩⟩
  exact {
    size := by simp [start]
    unreached := fun found => by
      rw [fresh, Option.map_eq_some_iff] at found
      rcases found with ⟨_, here, ⟨⟩⟩
      exact here
    reached := fun found => (unfollowed found).elim
    places := rfl
    waiting := fun entry member => by
      rcases mem_addTargets.mp member with first | ⟨one, label, isHandler, known⟩
      · rw [List.mem_singleton.mp first]
        exact ⟨.inl rfl, fun inside => ⟨.start (.entry inside), by rw [hasHeights.entry]; rfl⟩⟩
      · have here := at_of_places_start known
        have starts : tree.Starts entry.1 := .handler isHandler here
        have isOne : entry.2 = height entry.1 := by
          rw [one, hasHeights.handler isHandler here]
          rfl
        rcases hasHeights.known (.start starts) here with ⟨effect, effects⟩
        exact ⟨isOne ▸ .inr (.before ⟨.start starts, here, effects⟩), fun _ => ⟨.start starts, isOne⟩⟩
    starts := fun starts => by
      cases starts with
      | entry => exact .inr ⟨0, mem_addTargets.mpr (.inl (List.mem_singleton_self _))⟩
      | handler isHandler here =>
          exact .inr ⟨1, mem_addTargets.mpr
            (.inr ⟨rfl, _, isHandler, (places_start_iff single).mpr here⟩)⟩
    steps := fun found => (unfollowed found).elim
    bounds := fun found => (unfollowed found).elim
    highest := .inl rfl
    positive := Int.le_refl _ }

/-- When nothing waits, everything that may be reached was followed. -/
theorem Stands.isGreatest (stands : Stands tree height search []) :
    IsGreatest (tree.heights height) search.highest := by
  have met {position : Nat} (meets : search.Meets [] position) :
      search.unreached[position]? = some none :=
    meets.elim id fun ⟨_, member⟩ => by cases member
  have all {position : Nat} (reaches : tree.Reaches position) :
      search.unreached[position]? = some none := by
    induction reaches with
    | start starts => exact met (stands.starts starts)
    | step _ leads ih => exact met (stands.steps ih leads)
  refine ⟨stands.highest, ?_⟩
  rintro number (rfl | occurs)
  · exact stands.positive
  · have behind (height effect : Int) : height + effect ≤ heightBehind height effect :=
      Int.le_max_right _ _
    cases occurs with
    | before executes => exact (stands.bounds (all executes.reaches) executes).1
    | @after position instruction effect executes =>
        have bound := (stands.bounds (all executes.reaches) executes).2
        have less := behind (height position) effect
        omega
    | @target position instruction effect executes =>
        have bound := (stands.bounds (all executes.reaches) executes).2
        have less := behind (height position) effect
        omega

/-- What a search finds is the greatest height, in whichever order it goes on. -/
theorem Stands.isGreatest_of_explores (single : tree.HasSingleLabels)
    (hasHeights : tree.HasHeights height) (explores : Explores search pending result)
    (stands : Stands tree height search pending) : IsGreatest (tree.heights height) result := by
  induction explores with
  | done search => exact stands.isGreatest
  | passed taken known _ ih => exact ih ((stands.perm taken).passed known)
  | followed taken found effects _ ih =>
      exact ih ((stands.perm taken).followed single hasHeights found effects)

/-- The search that takes the position that came last ends. -/
theorem Stands.exists_run (single : tree.HasSingleLabels) (hasHeights : tree.HasHeights height)
    (stands : Stands tree height search pending) :
    ∃ result, search.run pending = .ok result ∧ Explores search pending result := by
  fun_induction search.run pending with
  | case1 search => exact ⟨_, rfl, .done search⟩
  | case2 search position number rest instruction found cause fails =>
      have here := stands.unreached found
      have inside := (List.getElem?_eq_some_iff.mp here).1
      have reaches := ((stands.waiting _ List.mem_cons_self).2 inside).1
      rcases hasHeights.known reaches here with ⟨effect, effects⟩
      cases fails.symm.trans effects
  | case3 search position number rest instruction found effect effects _ _ _ _ ih =>
      rcases ih (stands.followed single hasHeights found effects) with ⟨result, run, explores⟩
      exact ⟨result, run, .followed (.refl _) found effects explores⟩
  | case4 search position number rest known ih =>
      have absent (instruction : Instruction) :
          search.unreached[position]? ≠ some (some instruction) := fun found => known _ found
      rcases ih (stands.passed absent) with ⟨result, run, explores⟩
      exact ⟨result, run, .passed (.refl _) absent explores⟩

end Stands

end StackSearch

namespace MethodTree

open StackSearch

variable {tree : MethodTree} {height : Nat → Nat}

/-- Where the heights of a body are consistent, the room for the stack is the greatest of them.  No
search through the body finds another, in whichever order it goes on. -/
theorem neededStack_greatest (single : tree.HasSingleLabels) (hasHeights : tree.HasHeights height) :
    ∃ highest : Int, IsGreatest (tree.heights height) highest ∧
      tree.neededStack = .ok (clamped highest.toNat) ∧
      tree.neededMaxs = tree.neededLocals.map (fun locals => (clamped highest.toNat, locals)) ∧
      ∀ result, Explores (start tree.code)
        ((start tree.code).addTargets 1 [(0, 0)] tree.handlerLabels) result → result = highest := by
  have stands := stands_start single hasHeights
  rcases stands.exists_run single hasHeights with ⟨highest, run, explores⟩
  have greatest := stands.isGreatest_of_explores single hasHeights explores
  have needed : tree.neededStack = .ok (clamped highest.toNat) := by
    rw [neededStack]
    exact bind_eq_ok.mpr ⟨highest, run, rfl⟩
  refine ⟨highest, greatest, needed, ?_, fun result other => ?_⟩
  · rw [neededMaxs, needed]
    cases tree.neededLocals <;> rfl
  · exact (stands.isGreatest_of_explores single hasHeights other).unique greatest

/-- A call of a subroutine, and a handler that never ends. -/
def callingMethod : MethodTree where
  header := ⟨Access.static, .empty, .ofString "()J", none, []⟩
  instructions :=
    [.jump .jsr 0, .simple .lconst0, .simple .lreturn, .label 0, .variable .astore 1,
      .variable .ret 1, .label 1, .jump .goto 1].map fun instruction => { instruction }
  handlers := [{ block := ⟨0, 0, 1, none⟩ }]

/-- The heights of the stack in front of its instructions. -/
def callingHeight (position : Nat) : Nat :=
  [0, 0, 2, 1, 1, 0, 1, 1].getD position 0

/-- Where control goes from an instruction of the method, the heights go with it. -/
structure CallingStep (position : Nat) (instruction : Instruction) (effect : Int) : Prop where
  known : instruction.stackEffect = .ok effect
  next : instruction.flow.fallsThrough = true →
    (callingHeight (position + 1) : Int) = callingHeight position + effect
  branch : ∀ label ∈ instruction.flow.targets, ∃ target,
    callingMethod.code[target]? = some (.label label) ∧
      (callingHeight target : Int) = callingHeight position + effect + instruction.flow.pushed
  bound : (callingHeight position : Int) ≤ 2 ∧ callingHeight position + effect ≤ 2 ∧
    callingHeight position + effect + instruction.flow.pushed ≤ 2

theorem exists_callingStep {position : Nat} {instruction : Instruction}
    (here : callingMethod.code[position]? = some instruction) :
    ∃ effect, CallingStep position instruction effect := by
  have all : ∀ part ∈ callingMethod.code.zipIdx, ∃ effect, CallingStep part.2 part.1 effect := by
    simp only [callingMethod, code, List.map_cons, List.map_nil, List.zipIdx_cons, List.zipIdx_nil,
      List.forall_mem_cons, List.not_mem_nil, IsEmpty.forall_iff, implies_true, and_true]
    refine ⟨⟨0, rfl, ?_, ?_, ?_⟩, ⟨2, rfl, ?_, ?_, ?_⟩, ⟨-2, rfl, ?_, ?_, ?_⟩, ⟨0, rfl, ?_, ?_, ?_⟩,
      ⟨-1, rfl, ?_, ?_, ?_⟩, ⟨0, rfl, ?_, ?_, ?_⟩, ⟨0, rfl, ?_, ?_, ?_⟩, ⟨0, rfl, ?_, ?_, ?_⟩⟩
    all_goals simp [Instruction.flow, Opcode.endsMethod, callingHeight]
    · exact ⟨3, rfl, rfl⟩
    · exact ⟨6, rfl, rfl⟩
  exact all _ (List.mk_mem_zipIdx_iff_getElem?.mpr here)

theorem hasSingleLabels_callingMethod : callingMethod.HasSingleLabels := by
  have all : ∀ one ∈ callingMethod.code.zipIdx, ∀ two ∈ callingMethod.code.zipIdx,
      ∀ label, one.1 = .label label → two.1 = .label label → one.2 = two.2 := by
    simp [callingMethod, code]
  intro label one two first second
  exact all _ (List.mk_mem_zipIdx_iff_getElem?.mpr first) _
    (List.mk_mem_zipIdx_iff_getElem?.mpr second) label rfl rfl

theorem hasHeights_callingMethod : callingMethod.HasHeights callingHeight where
  entry := rfl
  handler isHandler here := by
    rw [List.mem_singleton.mp isHandler] at here
    rw [hasSingleLabels_callingMethod here (show callingMethod.code[6]? = _ from rfl)]
    rfl
  known _ here := by
    rcases exists_callingStep here with ⟨effect, step⟩
    exact ⟨effect, step.known⟩
  step executes leads := by
    rcases exists_callingStep executes.here with ⟨effect, step⟩
    cases executes.effect.symm.trans step.known
    cases leads with
    | next here falls =>
        cases executes.here.symm.trans here
        rw [step.next falls, Int.natCast_zero, Int.add_zero]
    | branch here isTarget there =>
        cases executes.here.symm.trans here
        rcases step.branch _ isTarget with ⟨target, found, same⟩
        rw [hasSingleLabels_callingMethod there found, same]

theorem neededStack_greatest_callingMethod : callingMethod.HasSingleLabels ∧
    callingMethod.HasHeights callingHeight ∧ callingMethod.neededStack = .ok 2 := by
  have single := hasSingleLabels_callingMethod
  have hasHeights := hasHeights_callingMethod
  rcases neededStack_greatest single hasHeights with ⟨highest, greatest, needed, -⟩
  have second : callingMethod.Executes 1 (.simple .lconst0) 2 :=
    ⟨.step (.start (.entry (by decide))) (.next rfl rfl (by decide)), rfl, rfl⟩
  have two : IsGreatest (callingMethod.heights callingHeight) 2 := by
    refine ⟨.inr (.after second), ?_⟩
    rintro number (rfl | occurs)
    · decide
    · cases occurs with
      | before executes | after executes | target executes =>
          rcases exists_callingStep executes.here with ⟨effect, step⟩
          cases executes.effect.symm.trans step.known
          simp only [step.bound]
  rw [greatest.unique two] at needed
  exact ⟨single, hasHeights, needed⟩

end MethodTree

end ClassFile
