import ClassFile.Adapter.EntryHook
import ClassFile.Adapter.MethodBuffer
import ClassFile.Renaming

/-!
# Adapters

An adapter stands between whoever tells a class and whoever is told, and changes what is told.  A
chain of adapters in front of a consumer is a consumer again; its state holds what the adapters
remember around the state of the consumer at the end.
-/

namespace ClassFile

/-- A change to what a consumer is told. -/
inductive Adapter where
  /-- Renames classes. -/
  | rename (names : Renaming)
  /-- Calls a hook at the start of every body. -/
  | entryHook (hook : EntryHook)
  /-- Asks for no more than a version knows, and changes nothing. -/
  | limit (api : Api)
  /-- Tells how much room methods need in place of what was told. -/
  | computeMaxs

namespace Adapter

variable {σ : Type}

/-- The state of a consumer with an adapter in front. -/
def State (σ : Type) : Adapter → Type
  | .rename _ | .limit _ => σ
  | .entryHook _ => EntryHook.Place × σ
  | .computeMaxs => Option MethodBuffer × σ

/-- The state before anything was told. -/
def start (state : σ) : (adapter : Adapter) → adapter.State σ
  | .rename _ | .limit _ => state
  | .entryHook _ => ({}, state)
  | .computeMaxs => (none, state)

/-- The state of the consumer behind the adapter. -/
def inner : (adapter : Adapter) → adapter.State σ → σ
  | .rename _, state | .limit _, state => state
  | .entryHook _, (_, state) => state
  | .computeMaxs, (_, state) => state

/-- A consumer with an adapter in front; its members are told at version `memberApi`. -/
def connect (memberApi : Api) (next : Consumer σ) : (adapter : Adapter) → Consumer (adapter.State σ)
  | .rename names => { step := fun event => next.step (event.renamed names) }
  | .limit _ => next
  | .entryHook hook => hook.connect next
  | .computeMaxs => MethodBuffer.connect memberApi next

end Adapter

/-- Adapters in front of a consumer, the first to be told first. -/
abbrev Chain := List Adapter

namespace Chain

variable {σ : Type}

/-- The state of a consumer with a chain in front. -/
def State (σ : Type) : Chain → Type
  | [] => σ
  | adapter :: rest => adapter.State (State σ rest)

/-- The state before anything was told. -/
def start (state : σ) : (chain : Chain) → State σ chain
  | [] => state
  | adapter :: rest => adapter.start (start state rest)

/-- The state of the consumer behind the chain. -/
def inner : (chain : Chain) → State σ chain → σ
  | [], state => state
  | adapter :: rest, state => inner rest (adapter.inner state)

/-- A consumer with a chain in front; its members are told at version `memberApi`. -/
def connect (memberApi : Api) (next : Consumer σ) : (chain : Chain) → Consumer (State σ chain)
  | [] => next
  | adapter :: rest => adapter.connect memberApi (connect memberApi next rest)

/-- The version at which a class is told to a consumer of the given version behind the chain. -/
def api (api : Api) : Chain → Api
  | [] => api
  | .limit limit :: _ => limit
  | _ :: rest => Chain.api api rest

end Chain

end ClassFile
