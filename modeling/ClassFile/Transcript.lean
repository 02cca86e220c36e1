import ClassFile.Consumer

/-!
# Transcripts

A transcript keeps what a consumer is told as a script, scope inside scope.  Nothing is lost but how
a scope was closed: one that was left halfway counts as one that was finished.
-/

namespace ClassFile

/-- What was told so far: the items of the innermost open scope, last first, and around it the heads
of the open scopes with the items before them, from the inside out. -/
structure Transcript where
  items : List Item := []
  around : List (Opening × List Item) := []
  deriving Inhabited

namespace Transcript

/-- The transcript of nothing. -/
def empty : Transcript := {}

/-- Appends an item to the innermost scope. -/
def add (item : Item) (transcript : Transcript) : Transcript :=
  { transcript with items := item :: transcript.items }

/-- Opens a scope. -/
def enter (opening : Opening) (transcript : Transcript) : Transcript :=
  { items := [], around := (opening, transcript.items) :: transcript.around }

/-- Closes the innermost scope; where none is open, nothing happens. -/
def close (transcript : Transcript) : Transcript :=
  match transcript.around with
  | [] => transcript
  | (opening, before) :: around =>
      { items := .scope opening transcript.items.reverse :: before, around }

/-- Takes down an event. -/
def note (transcript : Transcript) : Event → Transcript
  | .enter opening => transcript.enter opening
  | .finish | .leave => transcript.close
  | event => transcript.add (.event event)

/-- What was told outside all scopes that are still open. -/
def script (transcript : Transcript) : Script :=
  transcript.items.reverse

end Transcript

namespace Consumer

/-- The consumer that enters every scope and takes down what it is told. -/
def transcriber : Consumer Transcript where
  step event := do
    modify fun transcript => transcript.note event
    return .entered

end Consumer

end ClassFile
