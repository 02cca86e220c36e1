import ClassFile.InstructionList.Arena

/-!
# Lists of instructions

A body that is edited is a list of elements, linked in both directions and stored in arenas, so that
an element can be found, put in and taken out by its id wherever it stands.  The elements of another
list move over with the arenas that they are stored in.

A position is looked up in the order of the elements, which is noted down when it is first asked for
and forgotten when it changes.

An operation that names an element that is not in the list is refused and changes nothing.
-/

namespace ClassFile

/-- A list of elements. -/
structure InstructionList where
  /-- Where the elements are stored.  There is always at least one arena. -/
  arenas : List Arena
  first? : Option NodeId
  last? : Option NodeId
  length : Nat
  /-- The order of the elements, if it is known. -/
  order? : Option (List NodeId)
  deriving Inhabited

namespace InstructionList

/-- The list without elements, with a new arena. -/
def empty (arena : Nat) : InstructionList :=
  { arenas := [.empty arena], first? := none, last? := none, length := 0, order? := none }

/-- Whether there are no elements. -/
def isEmpty (list : InstructionList) : Bool :=
  list.length == 0

/-! ### Elements -/

/-- What the arenas store under an id. -/
def slotIn (arenas : List Arena) (id : NodeId) : Option ListSlot :=
  (arenas.find? fun arena => arena.id == id.arena).bind fun arena => arena.slot? id

/-- What is stored under an id, with the neighbours. -/
def slot (list : InstructionList) (id : NodeId) : Except Panic ListSlot :=
  match slotIn list.arenas id with
  | some slot => .ok slot
  | none => .error .notInList

/-- Whether the id designates an element of the list. -/
def contains (list : InstructionList) (id : NodeId) : Bool :=
  (slotIn list.arenas id).isSome

/-- The element with an id. -/
def node (list : InstructionList) (id : NodeId) : Except Panic InstructionTree := do
  return (← list.slot id).tree

/-- The element behind another one. -/
def next (list : InstructionList) (id : NodeId) : Except Panic (Option NodeId) := do
  return (← list.slot id).next?

/-- The element in front of another one. -/
def previous (list : InstructionList) (id : NodeId) : Except Panic (Option NodeId) := do
  return (← list.slot id).previous?

/-- Changes the arena with a given id. -/
def onArena? (change : Arena → Option Arena) (id : Nat) : List Arena → Option (List Arena)
  | [] => none
  | arena :: rest =>
      if arena.id = id then (change arena).map (· :: rest)
      else (onArena? change id rest).map (arena :: ·)

/-- Changes what is stored under an id. -/
def update (list : InstructionList) (id : NodeId) (change : ListSlot → ListSlot) :
    Except Panic InstructionList :=
  match onArena? (·.update? id change) id.arena list.arenas with
  | some arenas => .ok { list with arenas }
  | none => .error .notInList

/-- Stores an element in the first arena that has a vacant place or, if there is none, in the first
arena. -/
def allocate (list : InstructionList) (slot : ListSlot) :
    Except Panic (NodeId × InstructionList) := do
  let position := (list.arenas.findIdx? fun arena => ! arena.free.isEmpty).getD 0
  match list.arenas[position]? with
  | some arena =>
      let (id, arena) ← arena.allocate slot
      return (id, { list with arenas := list.arenas.set position arena })
  | none => throw .outOfRange

/-- Takes an element out of its arena. -/
def release (list : InstructionList) (id : NodeId) : Except Panic (ListSlot × InstructionList) := do
  let slot ← list.slot id
  match onArena? (fun arena => (arena.release? id).map Prod.snd) id.arena list.arenas with
  | some arenas => return (slot, { list with arenas })
  | none => throw .notInList

/-! ### Links -/

/-- Lets `target?` follow `place?`, which is the front of the list if it is no element. -/
def linkNext (list : InstructionList) (place? target? : Option NodeId) :
    Except Panic InstructionList :=
  match place? with
  | some place => list.update place fun slot => { slot with next? := target? }
  | none => .ok { list with first? := target? }

/-- Lets `target?` precede `place?`, which is the end of the list if it is no element. -/
def linkPrevious (list : InstructionList) (place? target? : Option NodeId) :
    Except Panic InstructionList :=
  match place? with
  | some place => list.update place fun slot => { slot with previous? := target? }
  | none => .ok { list with last? := target? }

/-- Puts the elements from `first` to `last`, which already point at their new neighbours, between
those. -/
def link (list : InstructionList) (first last : NodeId) (previous? next? : Option NodeId) :
    Except Panic InstructionList := do
  let list ← list.linkNext previous? (some first)
  let list ← list.linkPrevious next? (some last)
  return { list with order? := none }

/-- Puts a new element between two neighbours. -/
def insertBetween (list : InstructionList) (tree : InstructionTree)
    (previous? next? : Option NodeId) : Except Panic (NodeId × InstructionList) := do
  let (id, list) ← list.allocate { tree, previous?, next? }
  let list ← list.link id id previous? next?
  return (id, { list with length := list.length + 1 })

/-! ### Changing -/

/-- Puts a new element at the end. -/
def add (list : InstructionList) (tree : InstructionTree) :
    Except Panic (NodeId × InstructionList) :=
  list.insertBetween tree list.last? none

/-- Puts a new element at the front. -/
def insert (list : InstructionList) (tree : InstructionTree) :
    Except Panic (NodeId × InstructionList) :=
  list.insertBetween tree none list.first?

/-- Puts a new element in front of another one. -/
def insertBefore (list : InstructionList) (anchor : NodeId) (tree : InstructionTree) :
    Except Panic (NodeId × InstructionList) := do
  list.insertBetween tree (← list.slot anchor).previous? (some anchor)

/-- Puts a new element behind another one. -/
def insertAfter (list : InstructionList) (anchor : NodeId) (tree : InstructionTree) :
    Except Panic (NodeId × InstructionList) := do
  list.insertBetween tree (some anchor) (← list.slot anchor).next?

/-- Puts new elements at the end, one after the other. -/
def addAll (list : InstructionList) : List InstructionTree → Except Panic InstructionList
  | [] => .ok list
  | tree :: rest => do
      let (_, list) ← list.add tree
      list.addAll rest

/-- Takes an element out of the list. -/
def remove (list : InstructionList) (id : NodeId) :
    Except Panic (InstructionTree × InstructionList) := do
  let (slot, list) ← list.release id
  let list ← list.linkNext slot.previous? slot.next?
  let list ← list.linkPrevious slot.next? slot.previous?
  if list.length = 0 then throw .overflow
  return (slot.tree, { list with length := list.length - 1, order? := none })

/-- Changes an element in its place. -/
def change (list : InstructionList) (id : NodeId) (change : InstructionTree → InstructionTree) :
    Except Panic InstructionList :=
  list.update id fun slot => { slot with tree := change slot.tree }

/-- Puts an element in the place of another one, which gives its id away. -/
def set (list : InstructionList) (id : NodeId) (tree : InstructionTree) :
    Except Panic (InstructionTree × InstructionList) := do
  let old ← list.node id
  return (old, ← list.change id fun _ => tree)

/-- Lists that elements moved between, and the id of the next new arena. -/
structure Moved where
  list : InstructionList
  other : InstructionList
  nextArena : Nat
  deriving Inhabited

/-- Moves all elements of another list between two neighbours.  The other list is left without
elements. -/
def splice (list other : InstructionList) (previous? next? : Option NodeId) (nextArena : Nat) :
    Except Panic Moved :=
  match other.first?, other.last? with
  | some first, some last => do
      let list := { list with arenas := list.arenas ++ other.arenas }
      let list ← list.update first fun slot => { slot with previous? }
      let list ← list.update last fun slot => { slot with next? }
      let list ← list.link first last previous? next?
      return ⟨{ list with length := list.length + other.length }, .empty nextArena, nextArena + 1⟩
  | _, _ => .ok ⟨list, other, nextArena⟩

/-- Moves all elements of another list to the end. -/
def appendList (list other : InstructionList) (nextArena : Nat) : Except Panic Moved :=
  list.splice other list.last? none nextArena

/-- Moves all elements of another list to the front. -/
def insertList (list other : InstructionList) (nextArena : Nat) : Except Panic Moved :=
  list.splice other none list.first? nextArena

/-- Moves all elements of another list in front of an element. -/
def insertListBefore (list : InstructionList) (anchor : NodeId) (other : InstructionList)
    (nextArena : Nat) : Except Panic Moved := do
  list.splice other (← list.slot anchor).previous? (some anchor) nextArena

/-- Moves all elements of another list behind an element. -/
def insertListAfter (list : InstructionList) (anchor : NodeId) (other : InstructionList)
    (nextArena : Nat) : Except Panic Moved := do
  list.splice other (some anchor) (← list.slot anchor).next? nextArena

/-! ### Positions -/

/-- The elements on the way from `current?` to the end.  A way of more than `places` elements would
never end. -/
def follow (list : InstructionList) : (places : Nat) → (current? : Option NodeId) →
    Except Panic (List NodeId)
  | _, none => .ok []
  | 0, some _ => .error .endless
  | places + 1, some id => do
      let slot ← list.slot id
      return id :: (← list.follow places slot.next?)

/-- The number of places in the arenas. -/
def places (list : InstructionList) : Nat :=
  list.arenas.foldr (fun arena others => arena.entries.size + others) 0

/-- The order of the elements, and the list in which it is noted down. -/
def order (list : InstructionList) : Except Panic (List NodeId × InstructionList) :=
  match list.order? with
  | some order => .ok (order, list)
  | none => do
      let order ← list.follow list.places list.first?
      return (order, { list with order? := some order })

/-- The element at a position.  The order stays noted down even if there is none. -/
def get (list : InstructionList) (position : Nat) : Except Panic NodeId × InstructionList :=
  match list.order with
  | .error panic => (.error panic, list)
  | .ok (order, list) =>
      match order[position]? with
      | some id => (.ok id, list)
      | none => (.error (.listPosition position order.length), list)

/-- The position of an element. -/
def indexOf (list : InstructionList) (id : NodeId) : Except Panic Nat × InstructionList :=
  match list.slot id with
  | .error panic => (.error panic, list)
  | .ok _ =>
      match list.order with
      | .error panic => (.error panic, list)
      | .ok (order, list) => (.ok ((order.findIdx? (· == id)).getD 0), list)

/-! ### Walking -/

/-- A walk through a list from both ends, with the number of elements that are still to come. -/
structure Walk where
  list : InstructionList
  front? : Option NodeId
  back? : Option NodeId
  remaining : Nat
  deriving Inhabited

/-- A walk through the whole list. -/
def walk (list : InstructionList) : Walk :=
  ⟨list, list.first?, list.last?, list.length⟩

namespace Walk

/-- The next element from the front, and the rest of the walk. -/
def next (walk : Walk) : Except Panic (Option (NodeId × InstructionTree) × Walk) :=
  match walk.remaining, walk.front? with
  | remaining + 1, some id => do
      let slot ← walk.list.slot id
      return (some (id, slot.tree), { walk with front? := slot.next?, remaining })
  | _, _ => .ok (none, walk)

/-- The next element from the back, and the rest of the walk. -/
def nextBack (walk : Walk) : Except Panic (Option (NodeId × InstructionTree) × Walk) :=
  match walk.remaining, walk.back? with
  | remaining + 1, some id => do
      let slot ← walk.list.slot id
      return (some (id, slot.tree), { walk with back? := slot.previous?, remaining })
  | _, _ => .ok (none, walk)

/-- Up to `count` elements from the front. -/
def take (walk : Walk) : (count : Nat) → Except Panic (List (NodeId × InstructionTree))
  | 0 => .ok []
  | count + 1 => do
      match ← walk.next with
      | (some element, walk) => return element :: (← walk.take count)
      | (none, _) => return []

end Walk

/-- The elements with their ids, in order. -/
def elements (list : InstructionList) : Except Panic (List (NodeId × InstructionTree)) :=
  list.walk.take list.length

/-- The elements, in order. -/
def trees (list : InstructionList) : Except Panic (List InstructionTree) := do
  return (← list.elements).map Prod.snd

/-- Whether two lists hold equal elements in the same order, under whatever ids. -/
def equal (first second : InstructionList) : Except Panic Bool := do
  if first.length = second.length then
    return allAgree InstructionTree.equal (← first.trees) (← second.trees)
  else return false

/-- What is told about the elements to a consumer of the given version. -/
def script (api : Api) (list : InstructionList) : Except Panic Script := do
  return (← list.trees).flatMap (InstructionTree.script api)

/-- Fails with the first construct that a consumer of the given version does not know. -/
def check (list : InstructionList) (api : Api) : Except Panic (Except ClassError Unit) := do
  return (← list.trees).forM fun tree => tree.check api

end InstructionList

end ClassFile
