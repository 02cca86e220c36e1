import ClassFile.Proofs.Code.Offsets

/-!
# Widths of jumps

Rounds end when no width changes any more.  The widths are settled then: every jump has the width
that its own distance asks for, measured with these very widths.  Nothing else about the way there
matters to the code that is written.
-/

namespace ClassFile

namespace CodeLayout

/-- Whether no jump asks for another width. -/
def Settled (method : Text) (entries : List SizedItem) : Prop :=
  round method entries = .ok entries

theorem round_eq_ok {method : Text} {entries next : List SizedItem} :
    round method entries = .ok next ↔
      List.Forall₂
        (fun part resized =>
          (CodeOffsets.ofSized entries).resize method part.1 part.2 = .ok resized)
        (entries.zip (CodeOffsets.ofSized entries).positions.toList) next :=
  mapM_eq_ok

end CodeLayout

namespace CodeOffsets

theorem resolve_eq_ok {offsets : CodeOffsets} {method : Text} {label : Label} {place : Nat} :
    offsets.resolve method label = .ok place ↔ offsets.labels[label]? = some place := by
  unfold resolve
  cases offsets.labels[label]? <;> simp

theorem resolve_ofSized (entries : List SizedItem) (method : Text) (label : Label) :
    (ofSized entries).resolve method label =
      match (entries.map Prod.fst).findIdx? (isLabel label) with
      | some index => .ok (startOf entries index)
      | none => .error (.unresolvedLabel method label) := by
  rw [resolve, labels_ofSized]
  cases (entries.map Prod.fst).findIdx? (isLabel label) <;> rfl

theorem distance_eq_ok {offsets : CodeOffsets} {method : Text} {position : Nat} {label : Label}
    {distance : Int} :
    offsets.distance method position label = .ok distance ↔
      ∃ place, offsets.labels[label]? = some place ∧ (place : Int) - position = distance := by
  unfold CodeOffsets.distance
  simp only [map_eq_ok, bind_eq_ok, pure_eq_ok, resolve_eq_ok]
  simp

theorem resize_eq_ok {offsets : CodeOffsets} {method : Text} {entry resized : SizedItem}
    {position : Nat} (sized : offsets.resize method entry position = .ok resized) :
    resized.1 = entry.1 ∧
      ∀ opcode target, entry.1 = .jump opcode target →
        ∃ distance, offsets.distance method position target = .ok distance ∧
          resized.2 = entry.2.next opcode distance := by
  rcases entry with ⟨item, width⟩
  cases item with
  | jump opcode target =>
      simp only [resize, map_eq_ok] at sized
      rcases sized with ⟨distance, measured, rfl⟩
      refine ⟨rfl, ?_⟩
      intro otherOpcode otherTarget same
      cases same
      exact ⟨distance, measured, rfl⟩
  | _ =>
      simp only [resize, Except.ok.injEq] at sized
      subst sized
      simp

theorem getElem?_zip_positions {entries : List SizedItem} {index : Nat} {part : SizedItem × Nat}
    (found : (entries.zip (ofSized entries).positions.toList)[index]? = some part) :
    entries[index]? = some part.1 ∧ part.2 = startOf entries index := by
  rw [List.getElem?_zip_eq_some, toList_positions] at found
  rcases found with ⟨entry, position⟩
  refine ⟨entry, ?_⟩
  rw [List.getElem?_map, Option.map_eq_some_iff] at position
  rcases position with ⟨number, inRange, start⟩
  rw [List.getElem?_range (by
    have := (List.getElem?_eq_some_iff.mp inRange).1
    simpa using this), Option.some.injEq] at inRange
  rw [← start, inRange]

end CodeOffsets

namespace CodeLayout

open CodeOffsets

theorem map_fst_round {method : Text} {entries next : List SizedItem}
    (rounded : round method entries = .ok next) :
    next.map Prod.fst = entries.map Prod.fst := by
  have parts : (entries.zip (ofSized entries).positions.toList).map Prod.fst = entries :=
    List.map_fst_zip (by simp)
  have sizes := round_eq_ok.mp rounded
  clear rounded
  rw [← parts]
  generalize entries.zip (ofSized entries).positions.toList = positioned at sizes
  induction sizes with
  | nil => rfl
  | cons sized _ ih => simp [ih, (resize_eq_ok sized).1]

/-- The rounds keep the parts and end with settled widths. -/
theorem settle_eq_ok {method : Text} {rounds : Nat} {entries final : List SizedItem}
    (settled : settle method entries rounds = .ok final) :
    Settled method final ∧ final.map Prod.fst = entries.map Prod.fst := by
  induction rounds generalizing entries with
  | zero =>
      simp only [settle, bind_eq_ok] at settled
      rcases settled with ⟨next, rounded, decided⟩
      split at decided
      · rename_i unchanged
        cases decided
        exact ⟨unchanged ▸ rounded, rfl⟩
      · simp at decided
  | succ rounds ih =>
      simp only [settle, bind_eq_ok] at settled
      rcases settled with ⟨next, rounded, decided⟩
      split at decided
      · rename_i unchanged
        cases decided
        exact ⟨unchanged ▸ rounded, rfl⟩
      · rcases ih decided with ⟨nextSettled, sameParts⟩
        exact ⟨nextSettled, sameParts.trans (map_fst_round rounded)⟩

/-- With settled widths every jump has a distance, and it asks for the width that the jump has. -/
theorem Settled.jump {method : Text} {entries : List SizedItem} (settled : Settled method entries)
    {index : Nat} {opcode : Opcode} {target : Label} {width : JumpWidth}
    (found : entries[index]? = some (.jump opcode target, width)) :
    ∃ place, (ofSized entries).labels[target]? = some place ∧
      width.next opcode ((place : Int) - startOf entries index) = width := by
  have sizes := round_eq_ok.mp settled
  rcases List.getElem?_eq_some_iff.mp found with ⟨inside, isJump⟩
  have insideZip : index < (entries.zip (ofSized entries).positions.toList).length := by
    simpa using inside
  have sized := sizes.get insideZip inside
  rcases getElem?_zip_positions (List.getElem?_eq_getElem insideZip) with ⟨partHere, positionHere⟩
  rw [found, Option.some.injEq] at partHere
  have isJumpHere : ((entries.zip (ofSized entries).positions.toList).get
      ⟨index, insideZip⟩).1.1 = .jump opcode target := by
    rw [List.get_eq_getElem, ← partHere]
  rcases (resize_eq_ok sized).2 opcode target isJumpHere with ⟨distance, measured, width⟩
  rcases distance_eq_ok.mp measured with ⟨place, known, rfl⟩
  refine ⟨place, known, ?_⟩
  simp only [List.get_eq_getElem, isJump, ← partHere, positionHere] at width
  exact width.symm

/-- With settled widths every narrow jump reaches its target. -/
theorem Settled.fits {method : Text} {entries : List SizedItem} (settled : Settled method entries)
    {index : Nat} {opcode : Opcode} {target : Label}
    (found : entries[index]? = some (.jump opcode target, .narrow)) {distance : Int}
    (measured :
      (ofSized entries).distance method (startOf entries index) target = .ok distance) :
    JumpWidth.fits distance := by
  rcases settled.jump found with ⟨place, known, asked⟩
  rcases distance_eq_ok.mp measured with ⟨other, otherKnown, equal⟩
  rw [known, Option.some.injEq] at otherKnown
  rw [otherKnown, equal] at asked
  by_contra unfit
  simp [JumpWidth.next, unfit] at asked

end CodeLayout

end ClassFile
