import ClassFile.InstructionList

/-!
# Workspaces

A workspace holds any number of lists of instructions and numbers the arenas that they are stored in.
A program of edits runs in a workspace; an edit that is refused is passed over.
-/

namespace ClassFile

/-- Lists of instructions, by number, and the id of the next new arena. -/
structure Workspace where
  lists : List InstructionList := []
  nextArena : Nat := 0
  deriving Inhabited

namespace Workspace

/-- An edit.  Lists are named by number and elements by id. -/
inductive Edit where
  /-- A new list with the given elements. -/
  | collect (trees : List InstructionTree)
  /-- A new list with equal elements. -/
  | clone (list : Nat)
  | add (list : Nat) (tree : InstructionTree)
  | insert (list : Nat) (tree : InstructionTree)
  | before (list : Nat) (anchor : NodeId) (tree : InstructionTree)
  | after (list : Nat) (anchor : NodeId) (tree : InstructionTree)
  | remove (list : Nat) (id : NodeId)
  | set (list : Nat) (id : NodeId) (tree : InstructionTree)
  /-- Changes an element in its place. -/
  | change (list : Nat) (id : NodeId) (change : InstructionTree → InstructionTree)
  | clear (list : Nat)
  /-- Moves all elements of `other` to the end. -/
  | appendList (list other : Nat)
  /-- Moves all elements of `other` to the front. -/
  | insertList (list other : Nat)
  | listBefore (list : Nat) (anchor : NodeId) (other : Nat)
  | listAfter (list : Nat) (anchor : NodeId) (other : Nat)
  /-- Asks for the element at a position. -/
  | get (list : Nat) (position : Nat)
  /-- Asks for the position of an element. -/
  | indexOf (list : Nat) (id : NodeId)
  deriving Inhabited

/-- What an edit answers. -/
inductive Answer where
  | done
  | list (number : Nat)
  | node (id : NodeId)
  | element (tree : InstructionTree)
  | position (position : Nat)
  deriving Inhabited

/-- The list with a number. -/
def list (workspace : Workspace) (number : Nat) : Except Panic InstructionList :=
  match workspace.lists[number]? with
  | some list => .ok list
  | none => .error .outOfRange

/-- The workspace with another list in place of the one with a number. -/
def put (workspace : Workspace) (number : Nat) (list : InstructionList) : Workspace :=
  { workspace with lists := workspace.lists.set number list }

/-- The workspace with one more list of new elements. -/
def collect (workspace : Workspace) (trees : List InstructionTree) :
    Except Panic (Answer × Workspace) := do
  let list ← (InstructionList.empty workspace.nextArena).addAll trees
  return (.list workspace.lists.length,
    { lists := workspace.lists ++ [list], nextArena := workspace.nextArena + 1 })

/-- Changes a list. -/
def onList {α : Type} (workspace : Workspace) (number : Nat) (answer : α → Answer)
    (change : InstructionList → Except Panic (α × InstructionList)) :
    Except Panic (Answer × Workspace) := do
  let (result, list) ← change (← workspace.list number)
  return (answer result, workspace.put number list)

/-- Moves all elements of the list `other` into another one.  A list that is moved into itself has
nothing to give and stays as it is. -/
def move (workspace : Workspace) (number other : Nat)
    (change : InstructionList → InstructionList → Nat → Except Panic InstructionList.Moved) :
    Except Panic (Answer × Workspace) := do
  let list ← workspace.list number
  if number = other then
    discard (change list (.empty workspace.nextArena) workspace.nextArena)
    return (.done, workspace)
  let moved ← change list (← workspace.list other) workspace.nextArena
  return (.done,
    { (workspace.put number moved.list).put other moved.other with nextArena := moved.nextArena })

/-- Asks a list, which may note something down whether it has an answer or not. -/
def ask {α : Type} (workspace : Workspace) (number : Nat) (answer : α → Answer)
    (query : InstructionList → Except Panic α × InstructionList) :
    Except Panic Answer × Workspace :=
  match workspace.list number with
  | .error panic => (.error panic, workspace)
  | .ok list =>
      let (result, list) := query list
      (result.map answer, workspace.put number list)

/-- What comes of an edit, which changes nothing if it is refused. -/
def settle (workspace : Workspace) (result : Except Panic (Answer × Workspace)) :
    Except Panic Answer × Workspace :=
  match result with
  | .ok (answer, next) => (.ok answer, next)
  | .error panic => (.error panic, workspace)

/-- Carries an edit out. -/
def edit (workspace : Workspace) : Edit → Except Panic Answer × Workspace
  | .collect trees => workspace.settle (workspace.collect trees)
  | .clone number => workspace.settle do workspace.collect (← (← workspace.list number).trees)
  | .add number tree => workspace.settle (workspace.onList number .node (·.add tree))
  | .insert number tree => workspace.settle (workspace.onList number .node (·.insert tree))
  | .before number anchor tree =>
      workspace.settle (workspace.onList number .node (·.insertBefore anchor tree))
  | .after number anchor tree =>
      workspace.settle (workspace.onList number .node (·.insertAfter anchor tree))
  | .remove number id => workspace.settle (workspace.onList number .element (·.remove id))
  | .set number id tree => workspace.settle (workspace.onList number .element (·.set id tree))
  | .change number id change =>
      workspace.settle (workspace.onList number (fun _ => .done) fun list => do
        return ((), ← list.change id change))
  | .clear number => workspace.settle do
      discard (workspace.list number)
      return (.done, { workspace.put number (.empty workspace.nextArena) with
        nextArena := workspace.nextArena + 1 })
  | .appendList number other =>
      workspace.settle (workspace.move number other InstructionList.appendList)
  | .insertList number other =>
      workspace.settle (workspace.move number other InstructionList.insertList)
  | .listBefore number anchor other =>
      workspace.settle (workspace.move number other (·.insertListBefore anchor))
  | .listAfter number anchor other =>
      workspace.settle (workspace.move number other (·.insertListAfter anchor))
  | .get number position => workspace.ask number .node (·.get position)
  | .indexOf number id => workspace.ask number .position (·.indexOf id)

/-- Carries edits out, one after the other. -/
def run (workspace : Workspace) : List Edit → List (Except Panic Answer) × Workspace
  | [] => ([], workspace)
  | edit :: rest =>
      let (answer, next) := workspace.edit edit
      let (answers, last) := next.run rest
      (answer :: answers, last)

end Workspace

end ClassFile
