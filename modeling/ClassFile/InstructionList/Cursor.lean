import ClassFile.InstructionList.Workspace

/-!
# Cursors

A cursor walks through a list and edits it on the way.  It stands on an element or on the gap
between the last element and the first, where it starts.  What is put in front of the current
element is passed over by a walk to the end, and a walk goes on behind an element that is removed.
-/

namespace ClassFile

/-- A place in a list that is edited. -/
structure Cursor where
  workspace : Workspace
  /-- The number of the list. -/
  number : Nat
  /-- The current element, none on the gap. -/
  current? : Option NodeId := none
  deriving Inhabited

namespace Cursor

/-- The current element. -/
def node? (cursor : Cursor) : Except Panic (Option InstructionTree) := do
  match cursor.current? with
  | some id => some <$> (← cursor.workspace.list cursor.number).node id
  | none => return none

/-- The element behind the current one; from the gap, the first. -/
def next? (cursor : Cursor) : Except Panic (Option NodeId) := do
  let list ← cursor.workspace.list cursor.number
  match cursor.current? with
  | some id => list.next id
  | none => return list.first?

/-- The element in front of the current one; from the gap, the last. -/
def previous? (cursor : Cursor) : Except Panic (Option NodeId) := do
  let list ← cursor.workspace.list cursor.number
  match cursor.current? with
  | some id => list.previous id
  | none => return list.last?

/-- A step of a cursor. -/
inductive Action where
  | next
  | previous
  | look
  /-- Puts a new element in front of the current one; on the gap, at the end. -/
  | before (tree : InstructionTree)
  /-- Puts a new element behind the current one; on the gap, at the front. -/
  | after (tree : InstructionTree)
  /-- Changes the current element in its place. -/
  | change (change : InstructionTree → InstructionTree)
  /-- Takes the current element out and steps back to the one before, or to the gap. -/
  | remove
  deriving Inhabited

/-- Puts an instruction in the place of the current one, which keeps its annotations. -/
def Action.replace (instruction : Instruction) : Action :=
  .change fun tree => { tree with instruction }

/-- What a step answers: an element by its id, and one as it is. -/
abbrev Answer := Option NodeId × Option InstructionTree

/-- The edit that a step makes, if it makes one. -/
def edit? (cursor : Cursor) : Action → Option Workspace.Edit
  | .before tree =>
      match cursor.current? with
      | some id => some (.before cursor.number id tree)
      | none => some (.add cursor.number tree)
  | .after tree =>
      match cursor.current? with
      | some id => some (.after cursor.number id tree)
      | none => some (.insert cursor.number tree)
  | .change change => cursor.current?.map fun id => .change cursor.number id change
  | .remove => cursor.current?.map (.remove cursor.number)
  | .next | .previous | .look => none

/-- Where a step leaves the cursor. -/
def place? (cursor : Cursor) : Action → Except Panic (Option NodeId)
  | .next => cursor.next?
  | .previous => cursor.previous?
  | .remove =>
      match cursor.current? with
      | some _ => cursor.previous?
      | none => .ok none
  | .look | .before _ | .after _ | .change _ => .ok cursor.current?

/-- Takes a step. -/
def act (cursor : Cursor) (action : Action) : Except Panic Answer × Cursor :=
  match cursor.place? action with
  | .error panic => (.error panic, cursor)
  | .ok current? =>
      match cursor.edit? action with
      | none =>
          let moved := { cursor with current? }
          match action with
          | .look => (cursor.node?.map fun node? => (current?, node?), moved)
          | _ => (.ok (current?, none), moved)
      | some edit =>
          let (answer, workspace) := cursor.workspace.edit edit
          let answer := answer.map fun
            | .node id => (some id, none)
            | .element tree => (current?, some tree)
            | _ => (current?, none)
          (answer, { cursor with workspace, current? })

/-- Takes steps one after the other, behind those whose answers are `done`, last first, up to the
first that is refused. -/
def actAll (done : List Answer) (cursor : Cursor) :
    List Action → Except Panic (List Answer) × Cursor
  | [] => (.ok done.reverse, cursor)
  | action :: rest =>
      match cursor.act action with
      | (.error panic, cursor) => (.error panic, cursor)
      | (.ok answer, cursor) => actAll (answer :: done) cursor rest

end Cursor

end ClassFile
