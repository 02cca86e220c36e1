import ClassFile.Consumer

/-!
# Hooks at the entry of methods

A hook is a static method that takes a string.  Every body calls it first, with the name of the
method that is entered, spelled `a/Owner.name(descriptor)`.
-/

namespace ClassFile

/-- A static method that is called at the start of every body. -/
structure EntryHook where
  owner : Text
  name : Text
  deriving DecidableEq, Inhabited

namespace EntryHook

/-- Where in the class the telling is: the name of the class and the spelling of the method that was
entered last. -/
structure Place where
  className : Text := .empty
  method : Text := .empty
  deriving DecidableEq, Inhabited

/-- The spelling of a method of the class. -/
def Place.spelling (place : Place) (header : MethodHeader) : Text :=
  place.className ++ Text.ofString "." ++ header.name ++ header.descriptor

/-- The descriptor of a hook. -/
def descriptor : Text :=
  Text.ofString "(Ljava/lang/String;)V"

/-- The instructions that call the hook. -/
def call (hook : EntryHook) (method : Text) : List Instruction :=
  [.loadConstant (.string method),
   .method .invokestatic ⟨hook.owner, hook.name, descriptor⟩ false]

variable {σ : Type}

/-- Tells the instructions of a call. -/
def tellCall (next : Consumer σ) (instructions : List Instruction) : Step σ Unit :=
  instructions.forM fun instruction => do
    discard (next.step (.methodItem (.instruction instruction)))

/-- The consumer that tells another one everything and adds the calls.  A body that calls needs room
for the string on the stack. -/
def connect (hook : EntryHook) (next : Consumer σ) : Consumer (Place × σ) where
  step event := do
    match event with
    | .classItem (.header header) =>
        modify fun (place, state) => ({ place with className := header.name }, state)
        (next.step event).behind
    | .enter (.method header) =>
        let reply ← (next.step event).behind
        if reply = .entered then
          modify fun (place, state) => ({ place with method := place.spelling header }, state)
        return reply
    | .methodItem .code =>
        let reply ← (next.step event).behind
        (tellCall next (hook.call (← get).1.method)).behind
        return reply
    | .methodItem (.maxs stack locals) =>
        (next.step (.methodItem (.maxs (max stack 1) locals))).behind
    | _ => (next.step event).behind

end EntryHook

end ClassFile
