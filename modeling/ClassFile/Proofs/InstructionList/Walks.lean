import ClassFile.Proofs.InstructionList.Changes
import Mathlib.Data.List.Induction
import Mathlib.Data.List.ReduceOption

/-!
# Walks through a list

A list that holds a sequence gives it back: as the order that positions are looked up in, by going
from element to element in either direction, and to a walk that takes elements from both ends in any
turn.
-/

namespace ClassFile

namespace InstructionList

open Sequence

variable {vacated : Vacated} {list : InstructionList} {sequence : Sequence}

theorem Holds.generation_eq (holds : list.Holds vacated sequence) {id : NodeId}
    (member : id ∈ ids sequence) : id.generation = UInt32.ofNat (vacated id.arena id.place) := by
  cases stored : slotIn list.arenas id with
  | none => exact absurd member (holds.slotIn_eq_none.mp stored)
  | some slot =>
      rcases exists_isFound stored with ⟨before, arena, after, found, inArena⟩
      have sound := holds.sound.each arena (by rw [found.split]; simp)
      rw [← found.own]
      exact sound.generation (Arena.slot?_eq_some.mp inArena)

/-- Every element has a place of its own. -/
theorem Holds.length_le_places (holds : list.Holds vacated sequence) :
    sequence.length ≤ list.places := by
  let positions := list.arenas.flatMap fun arena =>
    (List.range arena.entries.size).map fun place => (arena.id, place)
  let position (id : NodeId) : Nat × Nat := (id.arena, id.place)
  have inside : (ids sequence).map position ⊆ positions := by
    intro pair member
    rcases List.mem_map.mp member with ⟨id, inSequence, rfl⟩
    cases stored : slotIn list.arenas id with
    | none => exact absurd inSequence (holds.slotIn_eq_none.mp stored)
    | some slot =>
        rcases exists_isFound stored with ⟨before, arena, after, found, inArena⟩
        have there := Array.getElem?_eq_some_iff.mp (Arena.slot?_eq_some.mp inArena)
        refine List.mem_flatMap.mpr ⟨arena, by rw [found.split]; simp, List.mem_map.mpr ?_⟩
        exact ⟨id.place, List.mem_range.mpr there.1, by rw [found.own]⟩
  have distinct : ((ids sequence).map position).Nodup := by
    refine List.Nodup.map_on (fun one inOne two inTwo same => ?_) holds.nodup
    have generationOne := holds.generation_eq inOne
    have generationTwo := holds.generation_eq inTwo
    cases one
    cases two
    simp_all [position]
  have counted := (List.subperm_of_subset distinct inside).length_le
  have size : positions.length = list.places := by
    simp [positions, places, List.length_flatMap, List.sum, List.foldr_map]
  rwa [size, List.length_map, ids, List.length_map] at counted

/-! ### Positions -/

theorem follow_eq_ok {before? : Option NodeId} {part : Sequence} {places : Nat}
    (linked : Linked (slotIn list.arenas) before? part none) (enough : part.length ≤ places) :
    list.follow places (front? part none) = .ok (ids part) := by
  induction part generalizing before? places with
  | nil => rw [front?, follow.eq_def]; rfl
  | cons element rest ih =>
      rcases element with ⟨id, tree⟩
      cases places with
      | zero => cases enough
      | succ places =>
          rw [front?, follow, slot_eq_ok.mpr linked.1, ok_bind,
            ih linked.2 (Nat.le_of_succ_le_succ enough), ok_bind]
          rfl

/-- The order is that of the sequence, and noting it down changes nothing else. -/
theorem Holds.order_eq (holds : list.Holds vacated sequence) :
    ∃ next, list.order = .ok (ids sequence, next) ∧ next.Holds vacated sequence ∧
      next.arenaIds = list.arenaIds := by
  unfold InstructionList.order
  cases noted : list.order? with
  | some order =>
      rw [holds.order noted]
      exact ⟨list, rfl, holds, rfl⟩
  | none =>
      refine ⟨{ list with order? := some (ids sequence) }, ?_, ?_, rfl⟩
      · rw [holds.first, follow_eq_ok holds.linked holds.length_le_places]
        rfl
      · exact { holds with order := fun noted => (Option.some.inj noted).symm }

theorem Holds.get_eq (holds : list.Holds vacated sequence) (position : Nat) :
    ∃ next, list.get position =
        ((match (ids sequence)[position]? with
          | some id => .ok id
          | none => .error (.listPosition position sequence.length)), next) ∧
      next.Holds vacated sequence ∧ next.arenaIds = list.arenaIds := by
  rcases holds.order_eq with ⟨next, ordered, holdsNext, arenaIds⟩
  refine ⟨next, ?_, holdsNext, arenaIds⟩
  have length : (ids sequence).length = sequence.length := List.length_map ..
  rw [get, ordered]
  dsimp only
  rw [length]
  cases (ids sequence)[position]? <;> rfl

theorem Holds.indexOf_eq {before after : Sequence} {id : NodeId} {tree : InstructionTree}
    (holds : list.Holds vacated (before ++ (id, tree) :: after)) :
    ∃ next, list.indexOf id = (.ok before.length, next) ∧
      next.Holds vacated (before ++ (id, tree) :: after) ∧ next.arenaIds = list.arenaIds := by
  rcases holds.order_eq with ⟨next, ordered, holdsNext, arenaIds⟩
  refine ⟨next, ?_, holdsNext, arenaIds⟩
  have fresh : id ∉ ids before := fun member => by
    have nodup := holds.nodup
    rw [ids_append] at nodup
    exact List.disjoint_of_nodup_append nodup member List.mem_cons_self
  have skipped : (ids before).findIdx? (· == id) = none := by
    rw [List.findIdx?_eq_none_iff]
    exact fun other member => by simpa using ne_of_mem_of_not_mem member fresh
  have found : (ids (before ++ (id, tree) :: after)).findIdx? (· == id) = some before.length := by
    rw [ids_append, ids_cons, List.findIdx?_append, skipped, List.findIdx?_cons]
    simp [ids]
  rw [indexOf, slot_eq_ok.mpr holds.slot_eq, ordered]
  dsimp only
  rw [found]
  rfl

/-! ### Neighbours -/

/-- Whether going on from `current?` with `step` passes exactly the given elements and then ends. -/
inductive Passes (step : NodeId → Except Panic (Option NodeId)) :
    Option NodeId → List NodeId → Prop where
  | done : Passes step none []
  | go {id : NodeId} {next? : Option NodeId} {rest : List NodeId} (stepped : step id = .ok next?)
      (passes : Passes step next? rest) : Passes step (some id) (id :: rest)

theorem passes_next {before? : Option NodeId} {part : Sequence}
    (linked : Linked (slotIn list.arenas) before? part none) :
    Passes list.next (front? part none) (ids part) := by
  induction part generalizing before? with
  | nil => exact .done
  | cons element rest ih =>
      rcases element with ⟨id, tree⟩
      refine .go ?_ (ih linked.2)
      rw [next, slot_eq_ok.mpr linked.1]
      rfl

theorem passes_previous {part : Sequence} {after? : Option NodeId}
    (linked : Linked (slotIn list.arenas) none part after?) :
    Passes list.previous (back? none part) (ids part).reverse := by
  induction part using List.reverseRecOn generalizing after? with
  | nil => exact .done
  | append_singleton rest element ih =>
      rcases element with ⟨id, tree⟩
      rcases linked_append.mp linked with ⟨linkedRest, here, -⟩
      rw [back?_append, ids_append, List.reverse_append]
      refine .go ?_ (ih linkedRest)
      rw [previous, slot_eq_ok.mpr here]
      rfl

/-! ### Walks from both ends -/

/-- An end of what is left of a walk. -/
inductive Side where
  | front
  | back

namespace Walk

/-- The next element from a side. -/
def step (walk : Walk) : Side → Except Panic (Option (NodeId × InstructionTree) × Walk)
  | .front => walk.next
  | .back => walk.nextBack

/-- The next elements from the given sides, in turn. -/
def steps (walk : Walk) : List Side →
    Except Panic (List (Option (NodeId × InstructionTree)) × Walk)
  | [] => .ok ([], walk)
  | side :: rest => do
      let (element?, walk) ← walk.step side
      let (elements, walk) ← walk.steps rest
      return (element? :: elements, walk)

/-- Whether a part of a sequence is left of a walk. -/
structure Covers (walk : Walk) (part : Sequence) : Prop where
  linked : ∃ before? after?, Linked (slotIn walk.list.arenas) before? part after?
  remaining : walk.remaining = part.length
  front : part ≠ [] → walk.front? = Sequence.front? part none
  back : part ≠ [] → walk.back? = Sequence.back? none part

end Walk

/-- What is taken from a sequence from the given sides, in turn. -/
def taken (sequence : Sequence) : List Side → List (Option (NodeId × InstructionTree))
  | [] => []
  | .front :: rest => sequence.head? :: taken sequence.tail rest
  | .back :: rest => sequence.getLast? :: taken sequence.dropLast rest

/-- Every element is taken once, from whatever sides. -/
theorem taken_perm {sides : List Side} (enough : sequence.length ≤ sides.length) :
    (taken sequence sides).reduceOption.Perm sequence := by
  induction sides generalizing sequence with
  | nil => simp_all [taken, List.reduceOption]
  | cons side rest ih =>
      cases side with
      | front =>
          cases sequence with
          | nil => simpa [taken, List.reduceOption] using @ih [] (Nat.zero_le _)
          | cons element others =>
              exact (ih (Nat.le_of_succ_le_succ enough)).cons element
      | back =>
          rcases List.eq_nil_or_concat sequence with rfl | ⟨others, element, rfl⟩
          · simpa [taken, List.reduceOption] using @ih [] (Nat.zero_le _)
          · rw [List.concat_eq_append] at enough ⊢
            have enough : others.length ≤ rest.length := by simpa using enough
            rw [taken, List.getLast?_concat, List.dropLast_concat]
            exact ((ih enough).cons element).trans (List.perm_append_singleton ..).symm

theorem Walk.Covers.next {walk : Walk} {element : NodeId × InstructionTree} {rest : Sequence}
    (covers : walk.Covers (element :: rest)) :
    ∃ next, walk.next = .ok (some element, next) ∧ next.Covers rest := by
  rcases element with ⟨id, tree⟩
  rcases covers.linked with ⟨before?, after?, stored, linked⟩
  refine ⟨{ walk with front? := Sequence.front? rest after?, remaining := rest.length }, ?_,
    ⟨⟨_, _, linked⟩, rfl, fun nonempty => front?_of_ne_nil nonempty .., fun nonempty => ?_⟩⟩
  · rw [Walk.next, covers.remaining, covers.front (List.cons_ne_nil _ _)]
    dsimp only [List.length_cons, Sequence.front?]
    rw [slot_eq_ok.mpr stored]
    rfl
  · rw [covers.back (List.cons_ne_nil _ _)]
    exact back?_of_ne_nil nonempty ..

theorem Walk.Covers.nextBack {walk : Walk} {element : NodeId × InstructionTree} {rest : Sequence}
    (covers : walk.Covers (rest ++ [element])) :
    ∃ next, walk.nextBack = .ok (some element, next) ∧ next.Covers rest := by
  rcases element with ⟨id, tree⟩
  rcases covers.linked with ⟨before?, after?, linked⟩
  rcases linked_append.mp linked with ⟨linkedRest, stored, -⟩
  have nonempty : rest ++ [(id, tree)] ≠ [] := by simp
  refine ⟨{ walk with back? := Sequence.back? before? rest, remaining := rest.length }, ?_,
    ⟨⟨_, _, linkedRest⟩, rfl, fun nonemptyRest => ?_, fun nonempty => back?_of_ne_nil nonempty ..⟩⟩
  · rw [Walk.nextBack, covers.remaining, covers.back nonempty, back?_append, List.length_append]
    dsimp only [List.length_singleton, Sequence.back?]
    rw [slot_eq_ok.mpr stored]
    rfl
  · rw [covers.front nonempty, front?_append]
    exact front?_of_ne_nil nonemptyRest ..

theorem Walk.Covers.done {walk : Walk} (covers : walk.Covers []) (side : Side) :
    walk.step side = .ok (none, walk) := by
  have remaining : walk.remaining = 0 := covers.remaining
  cases side <;> simp [Walk.step, Walk.next, Walk.nextBack, remaining]

theorem Walk.steps_cons {walk middle last : Walk} {side : Side} {rest : List Side}
    {element? : Option (NodeId × InstructionTree)}
    {elements : List (Option (NodeId × InstructionTree))}
    (stepped : walk.step side = .ok (element?, middle))
    (ran : middle.steps rest = .ok (elements, last)) :
    walk.steps (side :: rest) = .ok (element? :: elements, last) := by
  rw [Walk.steps, stepped, ok_bind]
  dsimp only
  rw [ran]
  rfl

/-- However a walk goes, it takes the elements from the sides that are asked for. -/
theorem Walk.Covers.steps {walk : Walk} {part : Sequence} (covers : walk.Covers part)
    (sides : List Side) :
    ∃ next, walk.steps sides = .ok (taken part sides, next) ∧
      next.remaining = part.length - sides.length := by
  induction sides generalizing walk part with
  | nil => exact ⟨walk, rfl, covers.remaining⟩
  | cons side rest ih =>
      rcases List.eq_nil_or_concat part with rfl | ⟨others, element, rfl⟩
      · rcases ih covers with ⟨next, ran, remaining⟩
        refine ⟨next, ?_, by simp [remaining]⟩
        rw [Walk.steps_cons (covers.done side) ran]
        cases side <;> rfl
      cases side with
      | front =>
          rcases List.exists_cons_of_ne_nil
            (by simp : others.concat element ≠ []) with ⟨first, behind, split⟩
          rw [split] at covers ⊢
          rcases covers.next with ⟨middle, stepped, coversMiddle⟩
          rcases ih coversMiddle with ⟨next, ran, remaining⟩
          exact ⟨next, Walk.steps_cons stepped ran, by simp [remaining]⟩
      | back =>
          rw [List.concat_eq_append] at covers ⊢
          rcases covers.nextBack with ⟨middle, stepped, coversMiddle⟩
          rcases ih coversMiddle with ⟨next, ran, remaining⟩
          refine ⟨next, ?_, by simp [remaining]⟩
          rw [taken, List.getLast?_concat, List.dropLast_concat]
          exact Walk.steps_cons stepped ran

theorem Walk.Covers.take {walk : Walk} {part : Sequence} (covers : walk.Covers part) :
    walk.take part.length = .ok part := by
  induction part generalizing walk with
  | nil => rfl
  | cons element rest ih =>
      rcases covers.next with ⟨next, stepped, coversNext⟩
      rw [List.length_cons, Walk.take, stepped, ok_bind]
      dsimp only
      rw [ih coversNext]
      rfl

theorem Holds.covers (holds : list.Holds vacated sequence) : list.walk.Covers sequence where
  linked := ⟨none, none, holds.linked⟩
  remaining := holds.length
  front _ := holds.first
  back _ := holds.last

theorem Holds.elements_eq (holds : list.Holds vacated sequence) : list.elements = .ok sequence := by
  rw [elements, holds.length]
  exact holds.covers.take

end InstructionList

end ClassFile
