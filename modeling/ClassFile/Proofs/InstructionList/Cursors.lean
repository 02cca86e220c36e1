import ClassFile.InstructionList.Cursor
import ClassFile.Proofs.InstructionList.Refinement

/-!
# Cursors are zippers

A cursor behaves as a `Zipper` does: a sequence that is seen from one of its elements, or from the
gap between the last one and the first.  Every step answers and leaves what the zipper says
(`Cursor.Holds.act`), but for a new element that finds its arena full.
-/

namespace ClassFile

open Sequence

/-- A sequence that is seen from one of its elements, or from the gap between its last element and its
first. -/
inductive Zipper where
  | gap (sequence : Sequence)
  /-- The elements in front of the current one stand in `before`, the nearest first. -/
  | focus (before : Sequence) (current : NodeId × InstructionTree) (after : Sequence)

namespace Zipper

/-- The elements, in order. -/
def sequence : Zipper → Sequence
  | gap sequence => sequence
  | focus before current after => before.reverse ++ current :: after

/-- The current element. -/
def current? : Zipper → Option (NodeId × InstructionTree)
  | gap _ => none
  | focus _ current _ => some current

/-- The id of the current element. -/
def id? (zipper : Zipper) : Option NodeId :=
  zipper.current?.map Prod.fst

/-- The current element without its id. -/
def tree? (zipper : Zipper) : Option InstructionTree :=
  zipper.current?.map Prod.snd

/-- One element forwards; behind the last one comes the gap, and behind the gap the first one. -/
def next : Zipper → Zipper
  | gap [] => gap []
  | gap (first :: rest) => focus [] first rest
  | focus before current [] => gap (current :: before).reverse
  | focus before current (following :: after) => focus (current :: before) following after

/-- One element backwards; in front of the first one comes the gap, and in front of the gap the last
one. -/
def previous : Zipper → Zipper
  | gap sequence =>
      match sequence.reverse with
      | [] => gap []
      | last :: before => focus before last []
  | focus [] current after => gap (current :: after)
  | focus (preceding :: before) current after => focus before preceding (current :: after)

/-- Puts an element in front of the current one; on the gap, at the end. -/
def insertBefore (new : NodeId × InstructionTree) : Zipper → Zipper
  | gap sequence => gap (sequence ++ [new])
  | focus before current after => focus (new :: before) current after

/-- Puts an element behind the current one; on the gap, at the front. -/
def insertAfter (new : NodeId × InstructionTree) : Zipper → Zipper
  | gap sequence => gap (new :: sequence)
  | focus before current after => focus before current (new :: after)

/-- Changes the current element. -/
def change (change : InstructionTree → InstructionTree) : Zipper → Zipper
  | gap sequence => gap sequence
  | focus before (id, tree) after => focus before (id, change tree) after

/-- Takes the current element out and steps back. -/
def remove : Zipper → Zipper
  | gap sequence => gap sequence
  | focus [] _ after => gap after
  | focus (preceding :: before) _ after => focus before preceding after

/-- What a step answers and where it leads, if a new element gets the id `new`. -/
def act (new : NodeId) (zipper : Zipper) : Cursor.Action → Cursor.Answer × Zipper
  | .next => ((zipper.next.id?, none), zipper.next)
  | .previous => ((zipper.previous.id?, none), zipper.previous)
  | .look => ((zipper.id?, zipper.tree?), zipper)
  | .before tree => ((some new, none), zipper.insertBefore (new, tree))
  | .after tree => ((some new, none), zipper.insertAfter (new, tree))
  | .change change => ((zipper.id?, none), zipper.change change)
  | .remove => ((zipper.remove.id?, zipper.tree?), zipper.remove)

@[simp]
theorem sequence_next (zipper : Zipper) : zipper.next.sequence = zipper.sequence := by
  rcases zipper with (_ | ⟨first, rest⟩) | ⟨before, current, (_ | ⟨following, after⟩)⟩ <;>
    simp [next, sequence]

@[simp]
theorem sequence_previous (zipper : Zipper) : zipper.previous.sequence = zipper.sequence := by
  rcases zipper with sequence | ⟨(_ | ⟨preceding, before⟩), current, after⟩
  · rw [previous]
    split
    · rename_i empty
      exact (List.reverse_eq_nil_iff.mp empty).symm
    · rename_i last before reversed
      rw [Zipper.sequence, Zipper.sequence, ← List.reverse_cons, ← reversed, List.reverse_reverse]
  · rfl
  · simp [previous, Zipper.sequence]

end Zipper

namespace Cursor

/-- Whether a step puts a new element into the list. -/
def Action.Inserts : Action → Prop
  | .before _ | .after _ => True
  | _ => False

end Cursor

/-- What a step answers and where it leads.  Only where a list has as many elements as an arena can have
may a new one be refused. -/
inductive Zipper.Does (zipper : Zipper) :
    Cursor.Action → Except Panic Cursor.Answer → Zipper → Prop where
  | acts {action : Cursor.Action} {new : NodeId}
      (fresh : action.Inserts → new ∉ ids zipper.sequence) :
      Does zipper action (.ok (zipper.act new action).1) (zipper.act new action).2
  | full {action : Cursor.Action} {arena : Nat} (inserts : action.Inserts)
      (many : Arena.maxPlaces ≤ zipper.sequence.length) :
      Does zipper action (.error (.arenaFull arena)) zipper

/-- A step that puts no element in does not ask for an id. -/
theorem Zipper.does_of_not_inserts {action : Cursor.Action} (zipper : Zipper)
    (inserts : ¬ action.Inserts) :
    zipper.Does action (.ok (zipper.act default action).1) (zipper.act default action).2 :=
  .acts fun isInsert => absurd isInsert inserts

namespace Cursor

/-- What can be seen of a cursor in the place of a zipper. -/
structure Shows (cursor : Cursor) (zipper : Zipper) : Prop where
  list : ∃ list, cursor.workspace.list cursor.number = .ok list ∧ list.Shows zipper.sequence
  current : cursor.current? = zipper.id?
  node : cursor.node? = .ok zipper.tree?

/-- Whether a cursor has gone on in the same list and left the others as they were. -/
structure Keeps (cursor next : Cursor) : Prop where
  number : next.number = cursor.number
  others : ∀ other ≠ cursor.number, next.workspace.lists[other]? = cursor.workspace.lists[other]?

/-- Whether a cursor does step by step what a zipper does. -/
inductive Follows : Cursor → Zipper → List Action → Prop where
  | done {cursor : Cursor} {zipper : Zipper} (shows : cursor.Shows zipper) :
      Follows cursor zipper []
  | step {cursor : Cursor} {zipper next : Zipper} {action : Action} {rest : List Action}
      (shows : cursor.Shows zipper) (does : zipper.Does action (cursor.act action).1 next)
      (keeps : cursor.Keeps (cursor.act action).2)
      (follows : Follows (cursor.act action).2 next rest) :
      Follows cursor zipper (action :: rest)

/-! ### One step -/

/-- Whether a cursor stands in a list that holds the sequence of a zipper, where the zipper stands. -/
structure Holds (vacated : Vacated) (cursor : Cursor) (zipper : Zipper) : Prop where
  list : ∃ list, cursor.workspace.lists[cursor.number]? = some list ∧
    list.Holds vacated zipper.sequence
  current : cursor.current? = zipper.id?

section Steps

variable {vacated : Vacated} {cursor : Cursor} {zipper : Zipper}

theorem Keeps.refl (cursor : Cursor) (current? : Option NodeId) :
    cursor.Keeps { cursor with current? } :=
  ⟨rfl, fun _ _ => rfl⟩

theorem keeps_put (cursor : Cursor) (list : InstructionList) (current? : Option NodeId) :
    cursor.Keeps
      { cursor with workspace := cursor.workspace.put cursor.number list, current? } where
  number := rfl
  others _ different := List.getElem?_set_ne (Ne.symm different)

theorem Keeps.trans {first second third : Cursor} (left : first.Keeps second)
    (right : second.Keeps third) : first.Keeps third where
  number := right.number.trans left.number
  others other different :=
    (right.others other (left.number ▸ different)).trans (left.others other different)

/-- A cursor that moves in its list. -/
theorem Holds.move (holds : cursor.Holds vacated zipper) {moved : Zipper}
    (same : moved.sequence = zipper.sequence) :
    Holds vacated { cursor with current? := moved.id? } moved := by
  rcases holds.list with ⟨list, here, holdsList⟩
  exact ⟨⟨list, here, same ▸ holdsList⟩, rfl⟩

/-- A cursor whose list has changed. -/
theorem Holds.put (holds : cursor.Holds vacated zipper) {vacated' : Vacated} {next : InstructionList}
    {changed : Zipper} (holdsNext : next.Holds vacated' changed.sequence) :
    Holds vacated' { cursor with
      workspace := cursor.workspace.put cursor.number next, current? := changed.id? } changed := by
  rcases holds.list with ⟨list, here, -⟩
  have bound := (List.getElem?_eq_some_iff.mp here).1
  exact ⟨⟨next, List.getElem?_set_self bound, holdsNext⟩, rfl⟩

theorem Holds.node?_eq (holds : cursor.Holds vacated zipper) : cursor.node? = .ok zipper.tree? := by
  rcases holds.list with ⟨list, here, holdsList⟩
  cases zipper with
  | gap sequence =>
      rw [node?, holds.current]
      rfl
  | focus before current after =>
      rw [node?, holds.current]
      show (do return some (← (← cursor.workspace.list cursor.number).node current.1)) = _
      rw [Workspace.list_eq_ok here, ok_bind, InstructionList.Holds.node_eq holdsList]
      rfl

theorem Holds.next?_eq (holds : cursor.Holds vacated zipper) :
    cursor.next? = .ok zipper.next.id? := by
  rcases holds.list with ⟨list, here, holdsList⟩
  rw [next?, Workspace.list_eq_ok here, ok_bind, holds.current]
  cases zipper with
  | gap sequence =>
      show Except.ok list.first? = _
      rw [holdsList.first]
      cases sequence <;> rfl
  | focus before current after =>
      show list.next current.1 = _
      rw [InstructionList.next, InstructionList.slot_eq_ok.mpr holdsList.slot_eq]
      cases after <;> rfl

theorem Holds.previous?_eq (holds : cursor.Holds vacated zipper) :
    cursor.previous? = .ok zipper.previous.id? := by
  rcases holds.list with ⟨list, here, holdsList⟩
  rw [previous?, Workspace.list_eq_ok here, ok_bind, holds.current]
  cases zipper with
  | gap sequence =>
      show Except.ok list.last? = _
      rw [holdsList.last, Zipper.previous, Zipper.sequence]
      rcases reversed : sequence.reverse with _ | ⟨last, before⟩
      · rw [List.reverse_eq_nil_iff.mp reversed]
        rfl
      · rw [← sequence.reverse_reverse, reversed, List.reverse_cons, back?_append]
        rfl
  | focus before current after =>
      show list.previous current.1 = _
      rw [InstructionList.previous, InstructionList.slot_eq_ok.mpr holdsList.slot_eq]
      cases before with
      | nil => rfl
      | cons preceding before => rw [List.reverse_cons, back?_append]; rfl

theorem Holds.shows (holds : cursor.Holds vacated zipper) : cursor.Shows zipper := by
  rcases holds.list with ⟨list, here, holdsList⟩
  exact ⟨⟨list, Workspace.list_eq_ok here, holdsList.shows⟩, holds.current, holds.node?_eq⟩

/-- Whether a step does what it does to a zipper. -/
def Acts (cursor : Cursor) (zipper : Zipper) (action : Action) : Prop :=
  ∃ vacated next, zipper.Does action (cursor.act action).1 next ∧
    (cursor.act action).2.Holds vacated next ∧ cursor.Keeps (cursor.act action).2

/-- What a step answers that makes an edit and leads to `current?`. -/
def told (current? : Option NodeId) : Workspace.Answer → Answer
  | .node id => (some id, none)
  | .element tree => (current?, some tree)
  | _ => (current?, none)

theorem act_of_edit {action : Action} {edit : Workspace.Edit} {current? : Option NodeId}
    {answer : Except Panic Workspace.Answer} {workspace : Workspace}
    (placed : cursor.place? action = .ok current?) (edits : cursor.edit? action = some edit)
    (edited : cursor.workspace.edit edit = (answer, workspace)) :
    cursor.act action = (answer.map (told current?), { cursor with workspace, current? }) := by
  rw [act, placed]
  simp only [edits, edited]
  rfl

/-- A step without an edit. -/
theorem act_of_place {action : Action} {current? : Option NodeId} (moves : action ≠ .look)
    (placed : cursor.place? action = .ok current?) (edits : cursor.edit? action = none) :
    cursor.act action = (.ok (current?, none), { cursor with current? }) := by
  rw [act, placed]
  simp only [edits]

theorem Holds.acts_move (holds : cursor.Holds vacated zipper) {action : Action} {moved : Zipper}
    (moves : action ≠ .look) (inserts : ¬ action.Inserts)
    (placed : cursor.place? action = .ok moved.id?) (edits : cursor.edit? action = none)
    (acts : zipper.act default action = ((moved.id?, none), moved))
    (same : moved.sequence = zipper.sequence) : cursor.Acts zipper action := by
  have does := zipper.does_of_not_inserts inserts
  rw [acts] at does
  refine ⟨vacated, moved, ?_⟩
  rw [act_of_place moves placed edits]
  exact ⟨does, holds.move same, Keeps.refl cursor moved.id?⟩

theorem Holds.acts_look (holds : cursor.Holds vacated zipper) : cursor.Acts zipper .look := by
  have does := @Zipper.does_of_not_inserts .look zipper id
  have acted : cursor.act .look = (.ok (zipper.id?, zipper.tree?), cursor) := by
    show (cursor.node?.map fun node? => (cursor.current?, node?), cursor) = _
    rw [holds.node?_eq, holds.current]
    rfl
  refine ⟨vacated, zipper, ?_⟩
  rw [acted]
  exact ⟨does, holds, Keeps.refl cursor cursor.current?⟩

/-- A step that puts an element between `before` and `after`. -/
theorem Holds.acts_insert (holds : cursor.Holds vacated zipper) {action : Action}
    {edit : Workspace.Edit} {change : InstructionList → Except Panic (NodeId × InstructionList)}
    {before after : Sequence} {tree : InstructionTree} {grown : NodeId → Zipper}
    (inserts : action.Inserts) (placed : cursor.place? action = .ok cursor.current?)
    (edits : cursor.edit? action = some edit)
    (isEdit : cursor.workspace.edit edit = cursor.workspace.settle
      (cursor.workspace.onList cursor.number .node change))
    (acts : ∀ new, zipper.act new action = ((some new, none), grown new))
    (stays : ∀ new, (grown new).id? = zipper.id?)
    (whole : zipper.sequence = before ++ after)
    (grows : ∀ new, (grown new).sequence = before ++ (new, tree) :: after)
    (inserted : ∀ list : InstructionList, list.Holds vacated (before ++ after) →
      list.Inserted vacated before tree after (change list)) :
    cursor.Acts zipper action := by
  rcases holds.list with ⟨list, here, holdsList⟩
  rw [whole] at holdsList
  rcases inserted list holdsList with ⟨arena, full, many⟩ | ⟨new, next, ran, isNew, holdsNext, -⟩
  · have edited : cursor.workspace.edit edit = (.error (.arenaFull arena), cursor.workspace) := by
      rw [isEdit, Workspace.onList, Workspace.list_eq_ok here, ok_bind, full]
      rfl
    refine ⟨vacated, zipper, ?_⟩
    rw [act_of_edit placed edits edited]
    exact ⟨.full inserts (whole ▸ many), holds, Keeps.refl cursor cursor.current?⟩
  · have edited : cursor.workspace.edit edit =
        (.ok (.node new), cursor.workspace.put cursor.number next) := by
      rw [isEdit, Workspace.onList, Workspace.list_eq_ok here, ok_bind, ran]
      rfl
    have fresh : new ∉ ids zipper.sequence := by
      rw [whole]
      exact holdsList.slotIn_eq_none.mp isNew.vacant
    have does : zipper.Does action _ _ := .acts fun _ => fresh
    rw [acts] at does
    refine ⟨vacated, grown new, ?_⟩
    rw [act_of_edit placed edits edited]
    refine ⟨does, ?_, keeps_put cursor next cursor.current?⟩
    have put := holds.put ((grows new).symm ▸ holdsNext)
    rwa [stays new, ← holds.current] at put

theorem Holds.acts_before (holds : cursor.Holds vacated zipper) (tree : InstructionTree) :
    cursor.Acts zipper (.before tree) := by
  have current := holds.current
  cases zipper with
  | gap sequence =>
      refine @Holds.acts_insert _ _ _ holds _ (.add cursor.number tree) (·.add tree) sequence [] tree
        (fun new => .gap (sequence ++ [(new, tree)])) trivial rfl ?_ rfl (fun _ => rfl)
        (fun _ => rfl) (List.append_nil _).symm (fun _ => rfl) ?_
      · rw [edit?, current]
        rfl
      · intro list holdsList
        rw [List.append_nil] at holdsList
        exact holdsList.add tree
  | focus front element behind =>
      refine @Holds.acts_insert _ _ _ holds _ (.before cursor.number element.1 tree)
        (·.insertBefore element.1 tree) front.reverse (element :: behind) tree
        (fun new => .focus ((new, tree) :: front) element behind) trivial rfl ?_ rfl (fun _ => rfl)
        (fun _ => rfl) rfl ?_ ?_
      · rw [edit?, current]
        rfl
      · intro new
        simp [Zipper.sequence]
      · intro list holdsList
        exact holdsList.insertBefore tree

theorem Holds.acts_after (holds : cursor.Holds vacated zipper) (tree : InstructionTree) :
    cursor.Acts zipper (.after tree) := by
  have current := holds.current
  cases zipper with
  | gap sequence =>
      refine @Holds.acts_insert _ _ _ holds _ (.insert cursor.number tree) (·.insert tree) [] sequence
        tree (fun new => .gap ((new, tree) :: sequence)) trivial rfl ?_ rfl (fun _ => rfl)
        (fun _ => rfl) rfl (fun _ => rfl) ?_
      · rw [edit?, current]
        rfl
      · intro list holdsList
        exact holdsList.insert tree
  | focus front element behind =>
      refine @Holds.acts_insert _ _ _ holds _ (.after cursor.number element.1 tree)
        (·.insertAfter element.1 tree) (front.reverse ++ [element]) behind tree
        (fun new => .focus front element ((new, tree) :: behind)) trivial rfl ?_ rfl (fun _ => rfl)
        (fun _ => rfl) ?_ ?_ ?_
      · rw [edit?, current]
        rfl
      · simp [Zipper.sequence]
      · intro new
        simp [Zipper.sequence]
      · intro list holdsList
        rw [List.append_assoc, List.singleton_append] at holdsList
        exact holdsList.insertAfter tree

/-- A step that changes the current element or takes it out. -/
theorem Holds.acts_edit {front behind : Sequence} {element : NodeId × InstructionTree}
    (holds : cursor.Holds vacated (.focus front element behind)) {action : Action}
    {edit : Workspace.Edit} {answer : Workspace.Answer} {next : InstructionList} {changed : Zipper}
    {vacated' : Vacated} (inserts : ¬ action.Inserts)
    (placed : cursor.place? action = .ok changed.id?) (edits : cursor.edit? action = some edit)
    (edited : cursor.workspace.edit edit =
      (.ok answer, cursor.workspace.put cursor.number next))
    (acts : (Zipper.focus front element behind).act default action =
      (told changed.id? answer, changed))
    (holdsNext : next.Holds vacated' changed.sequence) :
    cursor.Acts (.focus front element behind) action := by
  have does := (Zipper.focus front element behind).does_of_not_inserts inserts
  rw [acts] at does
  refine ⟨vacated', changed, ?_⟩
  rw [act_of_edit placed edits edited]
  exact ⟨does, holds.put holdsNext, keeps_put cursor next changed.id?⟩

theorem Holds.acts_change (holds : cursor.Holds vacated zipper)
    (change : InstructionTree → InstructionTree) : cursor.Acts zipper (.change change) := by
  have current := holds.current
  cases zipper with
  | gap sequence =>
      refine @Holds.acts_move _ _ _ holds _ (.gap sequence) (by simp) id ?_ ?_ rfl rfl
      · exact congrArg Except.ok current
      · rw [edit?, current]
        rfl
  | focus front element behind =>
      rcases holds.list with ⟨list, here, holdsList⟩
      rcases holdsList.change change with ⟨next, ran, holdsNext, -⟩
      refine @Holds.acts_edit _ _ _ _ _ holds _ (.change cursor.number element.1 change) .done next
        (.focus front (element.1, change element.2) behind) _ id ?_ ?_ ?_ rfl holdsNext
      · exact congrArg Except.ok current
      · rw [edit?, current]
        rfl
      · rw [Workspace.edit, Workspace.onList, Workspace.list_eq_ok here, ok_bind, ran]
        rfl

theorem Holds.acts_remove (holds : cursor.Holds vacated zipper) :
    cursor.Acts zipper .remove := by
  have current := holds.current
  cases zipper with
  | gap sequence =>
      refine @Holds.acts_move _ _ _ holds _ (.gap sequence) (by simp) id ?_ ?_ rfl rfl
      · rw [place?, current]
        rfl
      · rw [edit?, current]
        rfl
  | focus front element behind =>
      rcases holds.list with ⟨list, here, holdsList⟩
      rcases holdsList.remove with ⟨-, next, ran, holdsNext, -⟩
      have left : (Zipper.focus front element behind).remove.sequence = front.reverse ++ behind := by
        cases front <;> simp [Zipper.remove, Zipper.sequence]
      refine @Holds.acts_edit _ _ _ _ _ holds _ (.remove cursor.number element.1)
        (.element element.2) next (Zipper.focus front element behind).remove _ id ?_ ?_ ?_ rfl
        (left ▸ holdsNext)
      · rw [place?, current]
        show cursor.previous? = _
        rw [holds.previous?_eq]
        cases front <;> rfl
      · rw [edit?, current]
        rfl
      · rw [Workspace.edit, Workspace.onList, Workspace.list_eq_ok here, ok_bind, ran]
        rfl

/-- Every step of a cursor is one of a zipper. -/
theorem Holds.act (holds : cursor.Holds vacated zipper) (action : Action) :
    cursor.Acts zipper action := by
  cases action with
  | next =>
      exact @Holds.acts_move _ _ _ holds _ zipper.next (by simp) id holds.next?_eq rfl rfl
        zipper.sequence_next
  | previous =>
      exact @Holds.acts_move _ _ _ holds _ zipper.previous (by simp) id holds.previous?_eq rfl rfl
        zipper.sequence_previous
  | look => exact holds.acts_look
  | before tree => exact holds.acts_before tree
  | after tree => exact holds.acts_after tree
  | change change => exact holds.acts_change change
  | remove => exact holds.acts_remove

theorem Holds.follows (holds : cursor.Holds vacated zipper) (actions : List Action) :
    cursor.Follows zipper actions := by
  induction actions generalizing cursor zipper vacated with
  | nil => exact .done holds.shows
  | cons action rest ih =>
      rcases holds.act action with ⟨vacatedNext, next, does, holdsNext, keeps⟩
      exact .step holds.shows does keeps (ih holdsNext)

end Steps

end Cursor

end ClassFile
