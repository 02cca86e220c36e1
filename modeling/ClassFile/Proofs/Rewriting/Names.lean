import ClassFile.Draft.Class
import ClassFile.Image.Story
import ClassFile.Proofs.Rewriting.Slots

/-!
# Names of classes and modules, written and read

A list of classes or modules is a list of slots, one for each name.
-/

namespace ClassFile

open Draft

/-- Whether indices stand for slots, one for each. -/
abbrev Slot.AllMean (pool : Pool) (slots : List Slot) (indices : List UInt16) : Prop :=
  List.Forall₂ (fun slot index => Slot.Means pool index slot) slots indices

section Writing

variable {σ : Type} {Before : σ → Pool → Prop}

theorem MethodDraft.runs_classIndices {names : List Text} (survive : ∀ name ∈ names, name.Survives)
    (found : List UInt16) :
    Runs Before (classIndices found names) fun indices part pool => Before part pool ∧
      ∃ new, indices = found.reverse ++ new ∧ Slot.AllMean pool (names.map .classRef) new := by
  induction names generalizing found Before with
  | nil =>
      apply (Runs.pure _).weaken (fun _ _ => id)
      rintro _ part pool ⟨rfl, before⟩
      exact ⟨before, [], (List.append_nil _).symm, .nil⟩
  | cons name rest ih =>
      rw [List.forall_mem_cons] at survive
      refine (Runs.pooled (PoolBuilder.adds_classRef survive.1)).bind fun index => ?_
      apply (ih survive.2 (index :: found)).weaken (fun _ _ => id)
      rintro _ part pool ⟨⟨before, named⟩, new, rfl, behind⟩
      exact ⟨before, index :: new, by simp, .cons named behind⟩

theorem ModuleDraft.runs_moduleIndices {names : List Text} (survive : ∀ name ∈ names, name.Survives)
    (found : List UInt16) :
    Runs Before (moduleIndices found names) fun indices part pool => Before part pool ∧
      ∃ new, indices = found.reverse ++ new ∧ Slot.AllMean pool (names.map .moduleRef) new := by
  induction names generalizing found Before with
  | nil =>
      apply (Runs.pure _).weaken (fun _ _ => id)
      rintro _ part pool ⟨rfl, before⟩
      exact ⟨before, [], (List.append_nil _).symm, .nil⟩
  | cons name rest ih =>
      rw [List.forall_mem_cons] at survive
      refine (Runs.pooled (PoolBuilder.adds_moduleRef survive.1)).bind fun index => ?_
      apply (ih survive.2 (index :: found)).weaken (fun _ _ => id)
      rintro _ part pool ⟨⟨before, named⟩, new, rfl, behind⟩
      exact ⟨before, index :: new, by simp, .cons named behind⟩

end Writing

namespace ClassImage

variable {image : ClassImage} {offset : Nat} {names : List Text}

theorem readClasses_eq_ok (stand : image.SlotsAt offset (names.map .classRef)) (found : List Text) :
    image.readClasses offset found names.length = .ok (found.reverse ++ names) := by
  induction names generalizing offset found with
  | nil => simp [readClasses]
  | cons name rest ih =>
      rcases stand with ⟨first, behind⟩
      rw [List.length_cons, readClasses, first.classAt, ok_bind, ih behind]
      simp

theorem readModules_eq_ok (stand : image.SlotsAt offset (names.map .moduleRef)) (found : List Text) :
    image.readModules offset found names.length = .ok (found.reverse ++ names) := by
  induction names generalizing offset found with
  | nil => simp [readModules]
  | cons name rest ih =>
      rcases stand with ⟨⟨index, read, means⟩, behind⟩
      have named : image.pool.moduleRef index = .ok name := means
      rw [List.length_cons, readModules, read, ok_bind, named, ok_bind, ih behind]
      simp

/-- A table of classes is read again. -/
theorem classTable_eq_ok {table : Table} {place : Nat}
    (spells : table.Spells (fun name => Slot.Spells image.pool [.classRef name]) names)
    (held : image.input.HasAt place (bigEndian16 table.count ++ Pieces.toList table.entries)) :
    image.classTable place = .ok names := by
  have behind := held.right
  rw [length_bigEndian16] at behind
  have stand : image.SlotsAt (place + 2) (names.map .classRef) := by
    rcases spells.entries with ⟨chunks, each, same⟩
    rw [same] at behind
    clear held spells same
    generalize place + 2 = start at behind
    induction each generalizing start with
    | nil => trivial
    | @cons name chunk rest chunks first _ ih =>
        rw [List.flatten_cons] at behind
        have length := first.length
        have here := slotsAt_of_hasAt first behind.left
        have later := ih (start + chunk.length) behind.right
        rw [length] at later
        exact ⟨here.1, later⟩
  rw [classTable, held.left.u16, ok_bind, spells.count, readClasses_eq_ok stand]
  rfl

end ClassImage

end ClassFile
