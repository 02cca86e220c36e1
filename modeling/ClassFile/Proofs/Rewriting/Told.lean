import ClassFile.Proofs.Emits
import ClassFile.Proofs.Rewriting.Slots

/-!
# Bytes that are told

`ToldAs` is what a producer tells of bytes, wherever in a class file they stand.  That bytes spell items
means just that: they are told again.  A table is told entry by entry, each where the one before ends
(`Loops`).
-/

namespace ClassFile

open Emit

/-! ### Loops -/

section Loops

variable {α : Type} {loop : Nat → Nat → Emit α} {step : Nat → Emit Nat} {ends : Nat → α}

/-- Whether a loop takes a step so many times, each where the one before ends. -/
structure Loops (loop : Nat → Nat → Emit α) (step : Nat → Emit Nat) (ends : Nat → α) : Prop where
  zero : ∀ offset, loop offset 0 = pure (ends offset)
  succ : ∀ offset count, loop offset (count + 1) = (step offset >>= fun next => loop next count)

theorem Loops.exists_items (loops : Loops loop step ends) {holds : Item → Prop}
    (one : ∀ offset before next after, Tells (step offset) before next after →
      ∃ item, after = before.push item ∧ holds item)
    {offset count : Nat} {before after : Array Item} {value : α}
    (told : Tells (loop offset count) before value after) :
    ∃ items : List Item, after = before ++ items.toArray ∧ items.length = count ∧
      ∀ item ∈ items, holds item := by
  induction count generalizing offset before with
  | zero =>
      rw [loops.zero] at told
      exact ⟨[], by simpa using (tells_pure.mp told).2.symm, rfl, by simp⟩
  | succ count ih =>
      rw [loops.succ] at told
      rcases tells_bind.mp told with ⟨next, between, first, rest⟩
      rcases one _ _ _ _ first with ⟨item, rfl, here⟩
      rcases ih rest with ⟨items, rfl, length, others⟩
      refine ⟨item :: items, ?_, by rw [List.length_cons, length], ?_⟩
      · simp
      · exact List.forall_mem_cons.mpr ⟨here, others⟩

end Loops

/-! ### Bytes in a file -/

/-- Whether a producer tells items of bytes, wherever in a class file with the pool they stand; `ends` is
what it gives for the offset behind them. -/
def ToldAs {α : Type} (tell : ClassImage → Nat → Emit α) (ends : Nat → α) (pool : Pool)
    (items : List Item) (bytes : List UInt8) : Prop :=
  ∀ image : ClassImage, image.IsProper → image.pool = pool →
    ∀ offset, image.input.HasAt offset bytes →
      (tell image offset).Emits (ends (offset + bytes.length)) items

/-- Whether bytes are told as one item. -/
abbrev ToldOne (step : ClassImage → Nat → Emit Nat) (pool : Pool) (item : Item) (bytes : List UInt8) :
    Prop :=
  ToldAs step id pool [item] bytes

section ToldAs

variable {α : Type} {rounds : ClassImage → Nat → Nat → Emit α} {step : ClassImage → Nat → Emit Nat}
  {ends : Nat → α} {pool : Pool} {items : List Item} {bytes : List UInt8}

theorem ToldAs.of_entries (loops : ∀ image, Loops (rounds image) (step image) ends)
    (all : SpellsAll (ToldOne step pool) items bytes) :
    ToldAs (fun image offset => rounds image offset items.length) ends pool items bytes := by
  intro image proper same offset held
  rcases all with ⟨chunks, each, rfl⟩
  dsimp only
  induction each generalizing offset with
  | nil =>
      rw [List.length_nil, (loops image).zero]
      exact emits_pure _
  | @cons item chunk items chunks first _ ih =>
      rw [List.flatten_cons] at held ⊢
      rw [List.length_cons, (loops image).succ, List.length_append, ← Nat.add_assoc]
      exact (first image proper same offset held.left).bind (ih _ held.right)

/-- A table is told from its count on. -/
theorem ToldAs.counted (loops : ∀ image, Loops (rounds image) (step image) ends) {count : UInt16}
    (number : count.toNat = items.length) (all : SpellsAll (ToldOne step pool) items bytes) :
    ToldAs (fun image offset => do rounds image (offset + 2) (← image.input.u16 offset).toNat) ends pool
      items (bigEndian16 count ++ bytes) := by
  intro image proper same offset held
  have behind := held.right
  rw [length_bigEndian16] at behind
  refine .bind_lift held.left.u16 ?_
  rw [number, List.length_append, length_bigEndian16, ← Nat.add_assoc]
  exact ToldAs.of_entries loops all image proper same _ behind

end ToldAs

end ClassFile
