import ClassFile.Event

/-!
# Scripts

What a producer has to tell about a class is a list of items: events, scopes with what is inside
them, and the point where the producer finds that it can't go on.  Whoever listens may decline a
scope, and then nothing inside it is told.

`Emit` is the setting in which a producer builds a script.  A scope of a member is told on its own:
what goes wrong inside it matters only to a listener that enters it.  A scope of an annotation is
read even when nobody listens, so what goes wrong inside it stops the producer in any case.
-/

namespace ClassFile

/-- A part of the story of a class. -/
inductive Item where
  | event (event : Event)
  /-- A scope: what opens it, and what is told inside it before it is finished. -/
  | scope (opening : Opening) (body : List Item)
  /-- The producer can't go on. -/
  | fault (cause : ClassError)
  deriving Inhabited

/-- The story of a class, up to its end or to the first fault. -/
abbrev Script := List Item

/-- Building a script: the items so far, and whether the producer could go on. -/
abbrev Emit := ExceptT ClassError (StateM (Array Item))

namespace Emit

/-- The script that is built, with the fault that stopped it, and its result. -/
def collect {α : Type} (emit : Emit α) : Script × Except ClassError α :=
  match emit.run.run #[] with
  | (.ok value, items) => (items.toList, .ok value)
  | (.error cause, items) => ((items.push (.fault cause)).toList, .error cause)

/-- The script that is built. -/
def script (emit : Emit Unit) : Script :=
  emit.collect.1

/-- The result alone, as if nobody listened. -/
def silently {α : Type} (emit : Emit α) : Except ClassError α :=
  emit.collect.2

/-- Tells an event. -/
def tell (event : Event) : Emit Unit :=
  modify fun items => items.push (.event event)

/-- Tells a scope whose faults stay inside it. -/
def member (opening : Opening) (body : Emit Unit) : Emit Unit :=
  modify fun items => items.push (.scope opening body.script)

/-- Tells a scope whose faults stop the producer. -/
def eager {α : Type} (opening : Opening) (body : Emit α) : Emit α := do
  let (items, result) := body.collect
  modify fun before => before.push (.scope opening items)
  result

end Emit

end ClassFile
