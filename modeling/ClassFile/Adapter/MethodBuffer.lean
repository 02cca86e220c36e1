import ClassFile.Transcript
import ClassFile.Tree.Maxs

/-!
# Methods that are measured

A consumer that wants to know at once how much room a method needs can't be told the method while
it goes on.  `MethodBuffer.connect` keeps a method back until it is finished, and then tells it with
the room that its code needs in place of the room that was told.
-/

namespace ClassFile

/-- A method that is kept back. -/
structure MethodBuffer where
  header : MethodHeader
  transcript : Transcript := .empty
  deriving Inhabited

namespace MethodBuffer

/-- The method that was told so far. -/
def tree (buffer : MethodBuffer) : MethodTree :=
  .ofItems buffer.header buffer.transcript.script

variable {σ : Type}

/-- Tells the method to a consumer of the given version, and finishes it. -/
def release (api : Api) (next : Consumer σ) (buffer : MethodBuffer) : Step σ Reply := do
  let tree ← (buffer.tree.withNeededMaxs : Except Fault MethodTree)
  next.tell (tree.script api)
  next.step .finish

/-- Keeps an event back. -/
def keep (event : Event) : Step (Option MethodBuffer × σ) Reply := do
  modify fun (buffer?, state) =>
    (buffer?.map fun buffer => { buffer with transcript := buffer.transcript.note event }, state)
  return .entered

/-- The consumer that keeps methods back from a consumer whose methods are told at the given
version. -/
def connect (api : Api) (next : Consumer σ) : Consumer (Option MethodBuffer × σ) where
  step event := do
    match (← get).1 with
    | none =>
        let reply ← (next.step event).behind
        if let .enter (.method header) := event then
          if reply = .entered then
            modify fun (_, state) => (some { header }, state)
        return reply
    | some buffer =>
        match event, buffer.transcript.around with
        | .finish, [] =>
            modify fun (_, state) => (none, state)
            (release api next buffer).behind
        | .leave, [] =>
            modify fun (_, state) => (none, state)
            (next.step .leave).behind
        | _, _ => keep event

end MethodBuffer

end ClassFile
