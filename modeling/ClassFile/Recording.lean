import ClassFile.Consumer
import ClassFile.Event.Labels

/-!
# Recordings

A recording is the list of the events that a consumer was told, with the labels of each method
numbered in order of appearance.  The recorder declines the scopes that it was asked to, and notes
that it did.
-/

namespace ClassFile

/-- An event as it was recorded: taken, or declined. -/
inductive Recorded where
  | taken (event : Event)
  | skipped (event : Event)
  deriving Inhabited

/-- The events recorded so far, and the numbers of the labels of the current method. -/
structure Recording where
  events : Array Recorded := #[]
  numbering : Numbering := ∅

namespace Recording

/-- Notes an event. -/
def add (recording : Recording) (declined : Bool) (event : Event) : Recording :=
  let (numbered, numbering) := recording.numbering.next event
  let entry := if declined then Recorded.skipped numbered else .taken numbered
  { events := recording.events.push entry, numbering }

end Recording

namespace Consumer

/-- The consumer that records what it is told and declines the scopes that `declines` names. -/
def recorder (declines : Opening → Bool) : Consumer Recording where
  step event := do
    match event with
    | .leave => return .entered
    | .enter opening =>
        let declined := declines opening
        modify fun recording => recording.add declined event
        return if declined then .declined else .entered
    | _ =>
        modify fun recording => recording.add false event
        return .entered

end Consumer

end ClassFile
