import ClassFile.Event
import Std.Data.HashMap

/-!
# Labels of events

The labels that an event mentions (`Event.labels`) and the event under other labels
(`Event.relabel`).  Labels are only names for places: two stories that differ by a one-to-one change
of labels tell the same.  `Numbering` gives the labels of a method the numbers 0, 1, 2 … in the
order in which they are mentioned first.
-/

namespace ClassFile

namespace FrameValue

/-- The labels of a frame value. -/
def labels : FrameValue → List Label
  | .uninitialized label => [label]
  | _ => []

/-- A frame value under other labels. -/
def relabel (rename : Label → Label) : FrameValue → FrameValue
  | .uninitialized label => .uninitialized (rename label)
  | value => value

end FrameValue

namespace Frame

/-- The values of a frame, locals before stack. -/
def values : Frame → List FrameValue
  | .same | .chop _ => []
  | .same1 value => [value]
  | .append locals => locals
  | .full locals stack => locals ++ stack

/-- A frame with every value changed. -/
def mapValues (change : FrameValue → FrameValue) : Frame → Frame
  | .same => .same
  | .chop count => .chop count
  | .same1 value => .same1 (change value)
  | .append locals => .append (locals.map change)
  | .full locals stack => .full (locals.map change) (stack.map change)

end Frame

namespace Instruction

/-- The labels of an element of a body, in the order in which they are written. -/
def labels : Instruction → List Label
  | .jump _ target => [target]
  | .label place => [place]
  | .tableSwitch _ _ default targets => default :: targets
  | .lookupSwitch default cases => default :: cases.map Prod.snd
  | .line _ start => [start]
  | .frame content => content.values.flatMap FrameValue.labels
  | _ => []

/-- An element of a body under other labels. -/
def relabel (rename : Label → Label) : Instruction → Instruction
  | .jump opcode target => .jump opcode (rename target)
  | .label place => .label (rename place)
  | .tableSwitch low high default targets =>
      .tableSwitch low high (rename default) (targets.map rename)
  | .lookupSwitch default cases =>
      .lookupSwitch (rename default) (cases.map fun entry => (entry.1, rename entry.2))
  | .line number start => .line number (rename start)
  | .frame content => .frame (content.mapValues (FrameValue.relabel rename))
  | instruction => instruction

end Instruction

namespace LabelRange

/-- The labels of a range. -/
def labels (range : LabelRange) : List Label :=
  [range.start, range.stop]

/-- A range under other labels. -/
def relabel (rename : Label → Label) (range : LabelRange) : LabelRange :=
  { range with start := rename range.start, stop := rename range.stop }

end LabelRange

namespace MethodItem

/-- The labels of an event of the method scope. -/
def labels : MethodItem → List Label
  | .instruction content => content.labels
  | .tryCatch block => [block.start, block.stop, block.handler]
  | .localVariable entry => entry.range.labels
  | _ => []

/-- An event of the method scope under other labels. -/
def relabel (rename : Label → Label) : MethodItem → MethodItem
  | .instruction content => .instruction (content.relabel rename)
  | .tryCatch block =>
      .tryCatch { block with
        start := rename block.start, stop := rename block.stop, handler := rename block.handler }
  | .localVariable entry => .localVariable { entry with range := entry.range.relabel rename }
  | item => item

end MethodItem

namespace Opening

/-- The labels of the head of a scope. -/
def labels : Opening → List Label
  | .annotateLocal _ ranges => ranges.flatMap LabelRange.labels
  | _ => []

/-- The head of a scope under other labels. -/
def relabel (rename : Label → Label) : Opening → Opening
  | .annotateLocal use ranges => .annotateLocal use (ranges.map (LabelRange.relabel rename))
  | opening => opening

/-- Whether the scope is a method. -/
def isMethod : Opening → Bool
  | .method _ => true
  | _ => false

end Opening

namespace Event

/-- The labels that an event mentions, in the order in which they are written. -/
def labels : Event → List Label
  | .methodItem item => item.labels
  | .enter opening => opening.labels
  | _ => []

/-- An event under other labels. -/
def relabel (rename : Label → Label) : Event → Event
  | .methodItem item => .methodItem (item.relabel rename)
  | .enter opening => .enter (opening.relabel rename)
  | event => event

/-- Whether the event starts a method. -/
def startsMethod : Event → Bool
  | .enter opening => opening.isMethod
  | _ => false

end Event

/-- Numbers for the labels mentioned so far. -/
abbrev Numbering := Std.HashMap Label Nat

namespace Numbering

/-- Gives a label the next number, unless it has one. -/
def add (numbering : Numbering) (label : Label) : Numbering :=
  if numbering.contains label then numbering else numbering.insert label numbering.size

/-- An event under the numbers of its labels, and the numbers known afterwards.  Every method starts
to count anew. -/
def next (numbering : Numbering) (event : Event) : Event × Numbering :=
  let known : Numbering := if event.startsMethod then ∅ else numbering
  let labels := event.labels
  if labels.isEmpty then (event, known)
  else
    let known := labels.foldl add known
    (event.relabel (fun label => known.getD label label), known)

end Numbering

end ClassFile
