import ClassFile.Tree.Equality

/-!
# Arenas

An arena stores elements of a body that is edited, each in a place of its own.  An element is found by
its id: the arena, the place, and the generation of the place.  A place whose element is taken out
goes to the next generation, so that the id finds nothing any more, and is filled again before the
arena grows.
-/

namespace ClassFile

/-- The id of an element. -/
structure NodeId where
  arena : Nat
  place : Nat
  generation : UInt32
  deriving DecidableEq, Inhabited, Hashable

/-- An element and the ids of its neighbours. -/
structure ListSlot where
  tree : InstructionTree
  previous? : Option NodeId
  next? : Option NodeId
  deriving Inhabited

/-- A place, which is vacant or filled. -/
structure ArenaEntry where
  generation : UInt32
  slot? : Option ListSlot
  deriving Inhabited

/-- Places for elements. -/
structure Arena where
  id : Nat
  entries : Array ArenaEntry
  /-- The vacant places, the one that was vacated last first. -/
  free : List Nat
  deriving Inhabited

namespace Arena

/-- The number of places that an arena can have. -/
def maxPlaces : Nat := 4294967296

/-- The arena without places. -/
def empty (id : Nat) : Arena := ⟨id, #[], []⟩

/-- What is stored under an id of the arena. -/
def slot? (arena : Arena) (id : NodeId) : Option ListSlot :=
  match arena.entries[id.place]? with
  | some entry => if entry.generation = id.generation then entry.slot? else none
  | none => none

/-- The arena with another entry in a place. -/
def put (arena : Arena) (place : Nat) (entry : ArenaEntry) : Arena :=
  { arena with entries := arena.entries.set! place entry }

/-- Changes what is stored under an id. -/
def update? (arena : Arena) (id : NodeId) (change : ListSlot → ListSlot) : Option Arena :=
  match arena.slot? id with
  | some slot => some (arena.put id.place ⟨id.generation, some (change slot)⟩)
  | none => none

/-- Stores something in the place that was vacated last or, if no place is vacant, in a new one. -/
def allocate (arena : Arena) (slot : ListSlot) : Except Panic (NodeId × Arena) :=
  match arena.free with
  | place :: rest =>
      match arena.entries[place]? with
      | some entry =>
          .ok (⟨arena.id, place, entry.generation⟩,
            { arena.put place { entry with slot? := some slot } with free := rest })
      | none => .error .outOfRange
  | [] =>
      if arena.entries.size < maxPlaces then
        .ok (⟨arena.id, arena.entries.size, 0⟩,
          { arena with entries := arena.entries.push ⟨0, some slot⟩ })
      else .error (.arenaFull arena.id)

/-- Takes out what is stored under an id.  The generation of the place starts again at zero behind
the last one. -/
def release? (arena : Arena) (id : NodeId) : Option (ListSlot × Arena) :=
  match arena.slot? id with
  | some slot =>
      some (slot,
        { arena.put id.place ⟨id.generation + 1, none⟩ with free := id.place :: arena.free })
  | none => none

end Arena

end ClassFile
