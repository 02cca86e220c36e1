import ClassFile.Code.Layout
import ClassFile.Proofs.Result
import Mathlib.Data.List.Induction

/-!
# Offsets of the parts of a body

The offsets of a list of parts depend only on the parts in front: `CodeOffsets.startOf` is where a
part starts, the positions of a body are the starts of its parts in order, and the place of a label
is the start of its first occurrence.
-/

namespace ClassFile

namespace CodeOffsets

/-- Where the part with a given number starts; the number of parts stands for the end. -/
def startOf (entries : List SizedItem) (index : Nat) : Nat :=
  (ofSized (entries.take index)).stop

theorem ofSized_concat (entries : List SizedItem) (entry : SizedItem) :
    ofSized (entries ++ [entry]) = (ofSized entries).add entry := by
  simp [ofSized]

@[simp]
theorem startOf_zero (entries : List SizedItem) : startOf entries 0 = 0 :=
  rfl

theorem startOf_length (entries : List SizedItem) :
    startOf entries entries.length = (ofSized entries).stop := by
  simp [startOf]

theorem startOf_succ {entries : List SizedItem} {index : Nat} (inside : index < entries.length) :
    startOf entries (index + 1) =
      startOf entries index +
        entries[index].1.size entries[index].2 (startOf entries index) := by
  rw [startOf, List.take_add_one, List.getElem?_eq_getElem inside, Option.toList_some,
    ofSized_concat]
  rfl

theorem startOf_succ_of_getElem? {entries : List SizedItem} {index : Nat} {entry : SizedItem}
    (found : entries[index]? = some entry) :
    startOf entries (index + 1) =
      startOf entries index + entry.1.size entry.2 (startOf entries index) := by
  rcases List.getElem?_eq_some_iff.mp found with ⟨inside, rfl⟩
  exact startOf_succ inside

theorem startOf_concat {entries : List SizedItem} {index : Nat} (inside : index ≤ entries.length)
    (entry : SizedItem) : startOf (entries ++ [entry]) index = startOf entries index := by
  rw [startOf, startOf, List.take_append_of_le_length inside]

theorem startOf_mono (entries : List SizedItem) {first second : Nat} (ordered : first ≤ second)
    (inside : second ≤ entries.length) : startOf entries first ≤ startOf entries second := by
  induction ordered with
  | refl => exact Nat.le_refl _
  | @step second ordered ih =>
      calc startOf entries first ≤ startOf entries second := ih (by omega)
        _ ≤ startOf entries (second + 1) := by
          rw [startOf_succ (by omega)]
          exact Nat.le_add_right _ _

theorem toList_positions (entries : List SizedItem) :
    (ofSized entries).positions.toList =
      (List.range entries.length).map (startOf entries) := by
  induction entries using List.reverseRecOn with
  | nil => rfl
  | append_singleton entries entry ih =>
      rw [ofSized_concat, add, Array.toList_push, ih, List.length_append, List.length_singleton,
        List.range_succ, List.map_append, List.map_singleton, startOf_concat (Nat.le_refl _),
        startOf_length]
      congr 1
      apply List.map_congr_left
      intro index inside
      rw [startOf_concat (Nat.le_of_lt (List.mem_range.mp inside))]

@[simp]
theorem size_positions (entries : List SizedItem) :
    (ofSized entries).positions.size = entries.length := by
  rw [← Array.length_toList, toList_positions, List.length_map, List.length_range]

/-- The label of a part, if it is one. -/
def isLabel (label : Label) (item : CodeItem) : Bool :=
  decide (item = .label label)

theorem labels_add (offsets : CodeOffsets) (entry : SizedItem) (label : Label) :
    (offsets.add entry).labels[label]? =
      offsets.labels[label]?.or (if isLabel label entry.1 then some offsets.stop else none) := by
  rcases entry with ⟨item, width⟩
  cases item with
  | label place =>
      simp only [add, Std.HashMap.getElem?_insertIfNew, isLabel, CodeItem.label.injEq,
        decide_eq_true_eq, beq_iff_eq]
      by_cases same : place = label
      · subst same
        cases known : offsets.labels[place]? with
        | none =>
            have fresh : place ∉ offsets.labels := by
              simpa using known
            simp [fresh]
        | some position =>
            have present : place ∈ offsets.labels :=
              Std.HashMap.mem_iff_isSome_getElem?.mpr (by simp [known])
            simp [present]
      · simp [same]
  | _ => simp [add, isLabel]

theorem labels_ofSized (entries : List SizedItem) (label : Label) :
    (ofSized entries).labels[label]? =
      ((entries.map Prod.fst).findIdx? (isLabel label)).map (startOf entries) := by
  induction entries using List.reverseRecOn with
  | nil => simp [ofSized]
  | append_singleton entries entry ih =>
      rw [ofSized_concat, labels_add, ih, List.map_append, List.findIdx?_append,
        List.map_singleton]
      cases found : (entries.map Prod.fst).findIdx? (isLabel label) with
      | some index =>
          have inside := (List.findIdx?_eq_some_iff_getElem.mp found).1
          rw [List.length_map] at inside
          simp [startOf_concat (Nat.le_of_lt inside)]
      | none =>
          by_cases here : isLabel label entry.1
          · simp [List.findIdx?_cons, here, startOf_concat (Nat.le_refl _), startOf_length]
          · simp [List.findIdx?_cons, here]

theorem labels_le_stop {entries : List SizedItem} {label : Label} {place : Nat}
    (known : (ofSized entries).labels[label]? = some place) : place ≤ (ofSized entries).stop := by
  rw [labels_ofSized, Option.map_eq_some_iff] at known
  rcases known with ⟨index, found, rfl⟩
  have inside := (List.findIdx?_eq_some_iff_getElem.mp found).1
  rw [List.length_map] at inside
  rw [← startOf_length]
  exact startOf_mono entries (Nat.le_of_lt inside) (Nat.le_refl _)

end CodeOffsets

end ClassFile
