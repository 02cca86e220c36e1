import ClassFile.Script

/-!
# Consumers

A `Consumer` takes the events of a class one after the other and keeps a state.  To an event that
opens a scope it replies whether it wants to be told what is inside.  A step that fails still leaves
a state behind: what the consumer had understood by then.

`Consumer.tell` tells a script to a consumer, `Consumer.play` a plain list of events.
-/

namespace ClassFile

/-- What a consumer says to an event that opens a scope. -/
inductive Reply where
  | entered | declined
  deriving DecidableEq, Inhabited

/-- A computation on the state of a consumer that may stop early. -/
abbrev Step (σ : Type) := ExceptT Fault (StateM σ)

/-- A step of a consumer with something remembered in front of its state. -/
def Step.behind {σ μ α : Type} (step : Step σ α) : Step (μ × σ) α :=
  ExceptT.mk fun (memory, state) =>
    match step.run.run state with
    | (result, state) => (result, memory, state)

/-- Someone who is told the events of a class.  The reply matters only to events that open a
scope. -/
structure Consumer (σ : Type) where
  step : Event → Step σ Reply

namespace Consumer

variable {σ : Type}

mutual

/-- Tells one item of a script. -/
def tellItem (consumer : Consumer σ) : Item → Step σ Unit
  | .event event => do discard (consumer.step event)
  | .fault cause => failure cause
  | .scope opening body => do
      match ← consumer.step (.enter opening) with
      | .declined => pure ()
      | .entered => do
          consumer.tell body
          discard (consumer.step .finish)

/-- Tells a script, up to its first fault. -/
def tell (consumer : Consumer σ) : List Item → Step σ Unit
  | [] => pure ()
  | item :: rest => do
      consumer.tellItem item
      consumer.tell rest

end

/-- Leaves the given number of open scopes. -/
def leaveAll (consumer : Consumer σ) : (count : Nat) → Step σ Unit
  | 0 => pure ()
  | count + 1 => do
      discard (consumer.step .leave)
      consumer.leaveAll count

/-- Where the player of a list of events stands: how many scopes inside the class are open, how many
of them lie inside a declined one, and how many events were played before. -/
structure Playhead where
  depth : Nat := 0
  declined : Nat := 0
  position : Nat := 0

/-- Plays a list of events.  Events inside a declined scope are passed over, the end of the class
ends the play, and the end of the list leaves the scopes that are still open.  The result says at
which event the consumer stopped, if it did. -/
def playFrom (consumer : Consumer σ) (head : Playhead) :
    List Event → StateM σ (Except (Nat × Fault) Unit)
  | [] => do
      discard (consumer.leaveAll head.depth).run
      return .ok ()
  | event :: rest => do
      let next := { head with position := head.position + 1 }
      if head.declined ≠ 0 then
        match event with
        | .enter _ => consumer.playFrom { next with declined := head.declined + 1 } rest
        | .finish | .leave => consumer.playFrom { next with declined := head.declined - 1 } rest
        | _ => consumer.playFrom next rest
      else
        match event, head.depth with
        | .leave, 0 => return .ok ()
        | _, _ =>
            match ← (consumer.step event).run with
            | .error cause => return .error (head.position, cause)
            | .ok reply =>
                match event, reply, head.depth with
                | .enter _, .entered, depth =>
                    consumer.playFrom { next with depth := depth + 1 } rest
                | .enter _, .declined, _ => consumer.playFrom { next with declined := 1 } rest
                | .finish, _, 0 => return .ok ()
                | .finish, _, depth + 1 | .leave, _, depth + 1 =>
                    consumer.playFrom { next with depth } rest
                | _, _, _ => consumer.playFrom next rest

/-- Plays a list of events from its start. -/
def play (consumer : Consumer σ) (events : List Event) :
    StateM σ (Except (Nat × Fault) Unit) :=
  consumer.playFrom {} events

/-- A consumer that enters the module, the record components, the fields and the methods of a class
and cares about nothing. -/
def silent : Consumer Unit where
  step event := pure <|
    match event with
    | .enter opening => if opening.isMember then .entered else .declined
    | _ => .entered

end Consumer

end ClassFile
