import ClassFile.Draft.Code
import ClassFile.Image
import ClassFile.Proofs.Draft.Running
import ClassFile.Proofs.Script
import ClassFile.Proofs.Text.Survival
import Mathlib.Data.Option.Defs

/-!
# Slots and tables

Most of a class file outside method bodies is made of slots: two bytes each, a number or an index into
the pool.  `Slot.Means` says what an index stands for, and `Slot.Spells` what the bytes of a list of
slots are.  A table is a count with its entries one after the other (`Table.Spells`).

What is written spells what was told, and what is spelled in a file is read.
-/

namespace ClassFile

@[simp]
theorem Output.toList_ofU16s (values : List UInt16) :
    (Output.ofU16s values).toList = values.flatMap bigEndian16 := by
  have append (output : Output) :
      (values.foldl Output.u16 output).toList = output.toList ++ values.flatMap bigEndian16 := by
    induction values generalizing output with
    | nil => simp
    | cons value rest ih => simp [ih]
  exact append .empty

/-- What two bytes of a class file stand for. -/
inductive Slot where
  | number (value : UInt16)
  | text (value : Text)
  | classRef (name : Text)
  | moduleRef (name : Text)
  | packageRef (name : Text)
  | nameAndType (value : NameAndType)
  | absent

namespace Slot

/-- The slot for what may be missing. -/
def ofOption {α : Type} (slot : α → Slot) : Option α → Slot
  | none => .absent
  | some value => slot value

/-- Whether an index stands for a slot. -/
def Means (pool : Pool) (index : UInt16) : Slot → Prop
  | .number value => index = value
  | .text value => pool.text index = .ok value
  | .classRef name => pool.classRef index = .ok name
  | .moduleRef name => pool.moduleRef index = .ok name
  | .packageRef name => pool.packageRef index = .ok name
  | .nameAndType value => pool.nameAndType index = .ok value
  | .absent => index = 0

/-- Whether bytes are the slots, one after the other. -/
def Spells (pool : Pool) (slots : List Slot) (bytes : List UInt8) : Prop :=
  ∃ indices, List.Forall₂ (fun slot index => Means pool index slot) slots indices ∧
    bytes = indices.flatMap bigEndian16

variable {pool : Pool} {slots : List Slot} {bytes : List UInt8}

theorem spells_ofU16s {indices : List UInt16}
    (means : List.Forall₂ (fun slot index => Means pool index slot) slots indices) :
    Spells pool slots (Output.ofU16s indices).toList := by
  exact ⟨indices, means, Output.toList_ofU16s indices⟩

theorem Spells.length (spells : Spells pool slots bytes) : bytes.length = 2 * slots.length := by
  rcases spells with ⟨indices, means, rfl⟩
  have double : (indices.flatMap bigEndian16).length = 2 * indices.length := by
    clear means
    induction indices with
    | nil => rfl
    | cons index rest ih =>
        rw [List.flatMap_cons, List.length_append, ih, length_bigEndian16, List.length_cons]
        omega
  rw [double, means.length_eq]

end Slot

/-! ### Reading slots -/

namespace ClassImage

/-- Whether the pool of an image is that of its file, and has no entry under index zero. -/
structure IsProper (image : ClassImage) : Prop where
  input : image.pool.input = image.input
  zero : ∀ key, ¬image.pool.HasKey 0 key

theorem isProper_of_matches {image : ClassImage} {content : PoolContent}
    (input : image.pool.input = image.input) (same : image.pool.Matches content) : image.IsProper :=
  ⟨input, fun _ has => Nat.lt_irrefl _ (same.keys has).bounds.1⟩

/-- Whether a slot stands at an offset. -/
def SlotAt (image : ClassImage) (offset : Nat) (slot : Slot) : Prop :=
  ∃ index, image.input.u16 offset = .ok index ∧ slot.Means image.pool index

/-- Whether slots stand from an offset on. -/
def SlotsAt (image : ClassImage) (offset : Nat) : List Slot → Prop
  | [] => True
  | slot :: rest => image.SlotAt offset slot ∧ SlotsAt image (offset + 2) rest

variable {image : ClassImage} {offset : Nat}

theorem slotsAt_of_hasAt {slots : List Slot} {bytes : List UInt8}
    (spells : Slot.Spells image.pool slots bytes) (held : image.input.HasAt offset bytes) :
    image.SlotsAt offset slots := by
  rcases spells with ⟨indices, means, rfl⟩
  induction means generalizing offset with
  | nil => trivial
  | cons first _ ih =>
      rw [List.flatMap_cons] at held
      exact ⟨⟨_, held.left.u16, first⟩, ih held.right⟩

theorem SlotAt.number {value : UInt16} (stands : image.SlotAt offset (.number value)) :
    image.input.u16 offset = .ok value := by
  rcases stands with ⟨index, read, rfl⟩
  exact read

section Proper

variable (proper : image.IsProper)
include proper

theorem IsProper.textAt {value : Text} (stands : image.SlotAt offset (.text value)) :
    image.textAt offset = .ok value := by
  rcases stands with ⟨index, read, means⟩
  rw [ClassImage.textAt, Pool.textRefAt, proper.input, read]
  exact means

omit proper in
theorem SlotAt.classAt {name : Text} (stands : image.SlotAt offset (.classRef name)) :
    image.classAt offset = .ok name := by
  rcases stands with ⟨index, read, means⟩
  rw [ClassImage.classAt, read]
  exact means

theorem IsProper.optional {α : Type} {look : UInt16 → Except ClassError α} {slot : α → Slot}
    {value? : Option α} {index : UInt16}
    (means : (Slot.ofOption slot value?).Means image.pool index)
    (looks : ∀ value, (slot value).Means image.pool index →
      look index = .ok value ∧ ∃ key, image.pool.HasKey index key) :
    Pool.optional look index = .ok value? := by
  unfold Pool.optional
  cases value? with
  | none => rw [if_pos (show index = 0 from means)]
  | some value =>
      rcases looks value means with ⟨looked, key, has⟩
      have nonzero : index ≠ 0 := by
        rintro rfl
        exact proper.zero key has
      rw [if_neg nonzero, looked]
      rfl

theorem IsProper.optionalText {value? : Option Text} {index : UInt16}
    (means : (Slot.ofOption .text value?).Means image.pool index) :
    Pool.optional image.pool.text index = .ok value? :=
  proper.optional means fun _ found => ⟨found, _, Pool.text_eq_ok.mp found⟩

theorem IsProper.optionalClass {name? : Option Text} {index : UInt16}
    (means : (Slot.ofOption .classRef name?).Means image.pool index) :
    Pool.optional image.pool.classRef index = .ok name? :=
  proper.optional means fun _ found => ⟨found, by
    rcases Pool.classRef_eq_ok.mp found with ⟨place, has, -⟩
    exact ⟨_, has⟩⟩

theorem IsProper.optionalNameAndType {value? : Option NameAndType} {index : UInt16}
    (means : (Slot.ofOption .nameAndType value?).Means image.pool index) :
    Pool.optional image.pool.nameAndType index = .ok value? :=
  proper.optional means fun _ found => ⟨found, by
    rcases Pool.nameAndType_eq_ok.mp found with ⟨one, two, has, -⟩
    exact ⟨_, has⟩⟩

end Proper

end ClassImage

/-! ### Tables -/

section SpellsAll

variable {α : Type} {spells : α → List UInt8 → Prop} {values : List α} {bytes : List UInt8}

/-- Whether bytes are what the values are spelled as, one after the other. -/
def SpellsAll (spells : α → List UInt8 → Prop) (values : List α) (bytes : List UInt8) : Prop :=
  ∃ chunks, List.Forall₂ spells values chunks ∧ bytes = chunks.flatten

theorem spellsAll_nil : SpellsAll spells [] [] :=
  ⟨[], .nil, rfl⟩

theorem spellsAll_cons {value : α} :
    SpellsAll spells (value :: values) bytes ↔
      ∃ first rest, spells value first ∧ SpellsAll spells values rest ∧ bytes = first ++ rest := by
  constructor
  · rintro ⟨_, _ | ⟨first, rest⟩, rfl⟩
    exact ⟨_, _, first, ⟨_, rest, rfl⟩, rfl⟩
  · rintro ⟨first, _, spelled, ⟨chunks, rest, rfl⟩, rfl⟩
    exact ⟨first :: chunks, .cons spelled rest, rfl⟩

theorem SpellsAll.concat {value : α} {last : List UInt8} (all : SpellsAll spells values bytes)
    (spelled : spells value last) : SpellsAll spells (values ++ [value]) (bytes ++ last) := by
  rcases all with ⟨chunks, each, rfl⟩
  refine ⟨chunks ++ [last], List.rel_append each (.cons spelled .nil), ?_⟩
  simp

theorem SpellsAll.imp {spells' : α → List UInt8 → Prop}
    (weaker : ∀ value bytes, spells value bytes → spells' value bytes)
    (all : SpellsAll spells values bytes) : SpellsAll spells' values bytes := by
  rcases all with ⟨chunks, each, rfl⟩
  exact ⟨chunks, each.imp weaker, rfl⟩

end SpellsAll

namespace Pieces

/-- The bytes of pieces, first first. -/
def toList (pieces : Pieces) : List UInt8 :=
  pieces.reverse.flatMap Output.toList

@[simp]
theorem toList_nil : toList [] = [] :=
  rfl

@[simp]
theorem toList_cons (piece : Output) (pieces : Pieces) :
    toList (piece :: pieces) = toList pieces ++ piece.toList := by
  simp [toList]

@[simp]
theorem toList_write (pieces : Pieces) (output : Output) :
    (pieces.write output).toList = output.toList ++ toList pieces := by
  have append (pieces : List Output) (output : Output) :
      (pieces.foldl Output.append output).toList = output.toList ++ pieces.flatMap Output.toList := by
    induction pieces generalizing output with
    | nil => simp
    | cons piece pieces ih => simp [ih]
  exact append pieces.reverse output

end Pieces

namespace Table

variable {α : Type} {spells : α → List UInt8 → Prop} {values : List α} {table next : Table}

/-- Whether a table has as many entries as there are values, and spells them. -/
structure Spells (spells : α → List UInt8 → Prop) (values : List α) (table : Table) : Prop where
  count : table.count.toNat = values.length
  entries : SpellsAll spells values (Pieces.toList table.entries)

theorem spells_empty : Spells spells [] {} :=
  ⟨rfl, spellsAll_nil⟩

@[simp]
theorem toList_write (table : Table) (output : Output) :
    (table.write output).toList =
      output.toList ++ (bigEndian16 table.count ++ Pieces.toList table.entries) := by
  simp [write]

theorem raise_eq_ok {what : String} (raised : table.raise what = .ok next) :
    next.entries = table.entries ∧ next.count.toNat = table.count.toNat + 1 := by
  unfold raise at raised
  split at raised
  · cases raised
  · rename_i notFull
    cases raised
    refine ⟨rfl, ?_⟩
    have bound := table.count.toNat_lt
    have notLast : table.count.toNat ≠ 65535 := fun same => notFull (UInt16.toNat_inj.mp same)
    simp only [UInt16.toNat_add, UInt16.reduceToNat]
    omega

/-- Whether a table counts one entry more than there are values, and that entry has started. -/
structure Starts (spells : α → List UInt8 → Prop) (values : List α) (head : List UInt8)
    (table : Table) : Prop where
  count : table.count.toNat = values.length + 1
  entries : ∃ bytes, SpellsAll spells values bytes ∧ Pieces.toList table.entries = bytes ++ head

theorem Spells.raise {what : String} (all : Spells spells values table)
    (raised : table.raise what = .ok next) : next.Starts spells values [] := by
  rcases raise_eq_ok raised with ⟨entries, count⟩
  refine ⟨by rw [count, all.count], _, all.entries, ?_⟩
  rw [entries, List.append_nil]

theorem Starts.put {head : List UInt8} (starts : table.Starts spells values head) (piece : Output) :
    (table.put piece).Starts spells values (head ++ piece.toList) := by
  rcases starts.entries with ⟨bytes, all, entries⟩
  refine ⟨starts.count, bytes, all, ?_⟩
  rw [Table.put, Pieces.toList_cons, entries, List.append_assoc]

theorem Starts.complete {value : α} {head : List UInt8} (starts : table.Starts spells values head)
    (spelled : spells value head) : table.Spells spells (values ++ [value]) := by
  rcases starts.entries with ⟨bytes, all, entries⟩
  refine ⟨?_, ?_⟩
  · rw [starts.count, List.length_append, List.length_singleton]
  · rw [entries]
    exact all.concat spelled

theorem Spells.add {what : String} {value : α} {entry : Output} (all : Spells spells values table)
    (added : table.add what entry = .ok next) (spelled : spells value entry.toList) :
    Spells spells (values ++ [value]) next := by
  rcases map_eq_ok.mp added with ⟨raised, counted, rfl⟩
  exact ((all.raise counted).put entry).complete (by simpa using spelled)

theorem Spells.imp {spells' : α → List UInt8 → Prop}
    (weaker : ∀ value bytes, spells value bytes → spells' value bytes)
    (all : Spells spells values table) : Spells spells' values table :=
  ⟨all.count, all.entries.imp weaker⟩

theorem Spells.isEmpty_iff (all : Spells spells values table) : table.isEmpty = true ↔ values = [] := by
  rw [isEmpty, beq_iff_eq, ← UInt16.toNat_inj, all.count]
  exact List.length_eq_zero_iff

/-- A table that starts to exist with its first entry. -/
structure SpellsOptional (spells : α → List UInt8 → Prop) (values : List α) (table? : Option Table) :
    Prop where
  table : Spells spells values (table?.getD {})
  present : table?.isSome = true ↔ values ≠ []

theorem spellsOptional_none : SpellsOptional spells [] none :=
  ⟨spells_empty, by simp⟩

theorem SpellsOptional.add {what : String} {table? : Option Table} {value : α} {entry : Output}
    (all : SpellsOptional spells values table?) (added : (table?.getD {}).add what entry = .ok next)
    (spelled : spells value entry.toList) : SpellsOptional spells (values ++ [value]) (some next) :=
  ⟨all.table.add added spelled, by simp⟩

end Table

/-! ### Adding what may be missing -/

namespace Draft

variable {σ α : Type} {Before : σ → Pool → Prop}

theorem Runs.pooledIfPresent {add : α → Pooling UInt16} {slot : α → Slot} {value? : Option α}
    (adds : ∀ value ∈ value?, PoolBuilder.Adds (fun _ => True) (add value) fun index pool =>
      (slot value).Means pool index) :
    Runs Before (pooledIfPresent add value?) fun index part pool =>
      Before part pool ∧ (Slot.ofOption slot value?).Means pool index := by
  refine Runs.pooled ?_
  cases value? with
  | none => exact (PoolBuilder.Adds.pure 0).weaken (fun _ => id) fun _ _ _ same => same
  | some value => exact adds value rfl

end Draft

/-- Whether there is an index if and only if there is a text, and stands for it. -/
abbrev Pool.Names (pool : Pool) : Option Text → Option UInt16 → Prop :=
  Option.Rel fun text index => pool.text index = .ok text

open Draft in
theorem CodeDraft.runs_signatureIndex? {σ : Type} {Before : σ → Pool → Prop} {signature? : Option Text}
    (survives : ∀ signature ∈ signature?, signature.Survives) :
    Runs Before (signatureIndex? signature?) fun index? part pool =>
      Before part pool ∧ pool.Names signature? index? := by
  cases signature? with
  | none =>
      apply (Runs.pure none).weaken (fun _ _ => id)
      rintro _ part pool ⟨rfl, before⟩
      exact ⟨before, .none⟩
  | some signature =>
      refine (Runs.pooled (PoolBuilder.adds_text (survives signature rfl))).bind fun index => ?_
      apply (Runs.pure (some index)).weaken (fun _ _ => id)
      rintro _ part pool ⟨rfl, before, named⟩
      exact ⟨before, .some named⟩

end ClassFile
