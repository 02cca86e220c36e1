import ClassFile.Event

/-!
# Line numbers in the order of their places

Line numbers that are told place by place are told in the order of their places, and those of one place in
the order in which they were (`flatMap_linesAt`).
-/

namespace ClassFile

/-- Whether the place of a line number is not behind that of another one. -/
def notBehind (first second : Label × UInt16) : Bool :=
  first.1 ≤ second.1

theorem notBehind_iff {first second : Label × UInt16} : notBehind first second = true ↔ first.1 ≤ second.1 :=
  decide_eq_true_iff

theorem notBehind_trans (first second third : Label × UInt16) (left : notBehind first second = true)
    (right : notBehind second third = true) : notBehind first third = true :=
  notBehind_iff.mpr (Nat.le_trans (notBehind_iff.mp left) (notBehind_iff.mp right))

theorem notBehind_total (first second : Label × UInt16) :
    (notBehind first second || notBehind second first) = true := by
  rw [Bool.or_eq_true, notBehind_iff, notBehind_iff]
  exact Nat.le_total _ _

/-- Line numbers in the order of their places, those of one place in the order in which they were. -/
def linesByPlace (lines : List (Label × UInt16)) : List (Label × UInt16) :=
  lines.mergeSort notBehind

/-- The line numbers of a place. -/
def linesAt (place : Label) (lines : List (Label × UInt16)) : List (Label × UInt16) :=
  lines.filter fun line => line.1 = place

variable {lines others : List (Label × UInt16)}

theorem mem_linesAt {place : Label} {line : Label × UInt16} :
    line ∈ linesAt place lines ↔ line ∈ lines ∧ line.1 = place := by
  rw [linesAt, List.mem_filter, decide_eq_true_iff]

theorem linesAt_cons (place : Label) (line : Label × UInt16) (lines : List (Label × UInt16)) :
    linesAt place (line :: lines) =
      if line.1 = place then line :: linesAt place lines else linesAt place lines := by
  rw [linesAt, List.filter_cons]
  simp only [decide_eq_true_eq]
  rfl

theorem pairwise_linesByPlace (lines : List (Label × UInt16)) :
    (linesByPlace lines).Pairwise fun first second => first.1 ≤ second.1 :=
  (List.pairwise_mergeSort notBehind_trans notBehind_total lines).imp notBehind_iff.mp

/-- The line numbers of a place stay in their order. -/
theorem linesAt_linesByPlace (place : Label) (lines : List (Label × UInt16)) :
    linesAt place (linesByPlace lines) = linesAt place lines := by
  have ordered : (linesAt place lines).Pairwise fun first second => notBehind first second = true := by
    refine List.pairwise_of_forall_mem_list fun first isFirst second isSecond => notBehind_iff.mpr ?_
    exact Nat.le_of_eq ((mem_linesAt.mp isFirst).2.trans (mem_linesAt.mp isSecond).2.symm)
  have within : (linesAt place lines).Sublist (linesByPlace lines) :=
    List.sublist_mergeSort notBehind_trans notBehind_total ordered List.filter_sublist
  have both := within.filter fun line => decide (line.1 = place)
  rw [List.filter_eq_self.mpr fun line member => decide_eq_true (mem_linesAt.mp member).2] at both
  exact (both.eq_of_length ((List.mergeSort_perm lines notBehind).filter _).length_eq.symm).symm

/-- Line numbers in the order of their places are known by those of each place. -/
theorem eq_of_linesAt (sorted : lines.Pairwise fun first second => first.1 ≤ second.1)
    (sortedToo : others.Pairwise fun first second => first.1 ≤ second.1)
    (same : ∀ place, linesAt place lines = linesAt place others) : lines = others := by
  induction lines generalizing others with
  | nil =>
      cases others with
      | nil => rfl
      | cons other others =>
          have here := same other.1
          rw [linesAt_cons, if_pos rfl] at here
          cases here
  | cons line lines ih =>
      have isIn : line ∈ linesAt line.1 others :=
        same line.1 ▸ mem_linesAt.mpr ⟨List.mem_cons_self, rfl⟩
      cases others with
      | nil => cases isIn
      | cons other others =>
          have isInToo : other ∈ linesAt other.1 (line :: lines) :=
            same other.1 ▸ mem_linesAt.mpr ⟨List.mem_cons_self, rfl⟩
          have samePlace : line.1 = other.1 := by
            refine Nat.le_antisymm ?_ ?_
            · rcases List.mem_cons.mp (mem_linesAt.mp isInToo).1 with rfl | behind
              · exact Nat.le_refl _
              · exact (List.pairwise_cons.mp sorted).1 other behind
            · rcases List.mem_cons.mp (mem_linesAt.mp isIn).1 with rfl | behind
              · exact Nat.le_refl _
              · exact (List.pairwise_cons.mp sortedToo).1 line behind
          have first := same line.1
          rw [linesAt_cons, if_pos rfl, linesAt_cons, if_pos samePlace.symm, List.cons.injEq] at first
          rcases first with ⟨rfl, -⟩
          rw [ih (List.pairwise_cons.mp sorted).2 (List.pairwise_cons.mp sortedToo).2 fun place => ?_]
          have here := same place
          rw [linesAt_cons, linesAt_cons] at here
          split at here
          · exact List.cons.inj here |>.2
          · exact here

theorem linesAt_flatMap {places : List Label} (once : places.Nodup) (place : Label) :
    linesAt place (places.flatMap fun other => linesAt other lines) =
      if place ∈ places then linesAt place lines else [] := by
  have again (other : Label) :
      linesAt place (linesAt other lines) = if other = place then linesAt place lines else [] := by
    split
    · rename_i same
      subst same
      exact List.filter_eq_self.mpr fun line member => decide_eq_true (mem_linesAt.mp member).2
    · rename_i apart
      refine List.filter_eq_nil_iff.mpr fun line member same => apart ?_
      exact (mem_linesAt.mp member).2.symm.trans (of_decide_eq_true same)
  induction places with
  | nil => rfl
  | cons other places ih =>
      rw [List.nodup_cons] at once
      have split : linesAt place ((other :: places).flatMap fun other => linesAt other lines) =
          linesAt place (linesAt other lines) ++
            linesAt place (places.flatMap fun other => linesAt other lines) := by
        rw [List.flatMap_cons]
        exact List.filter_append _ _
      rw [split, again, ih once.2]
      by_cases same : other = place
      · subst same
        simp [once.1]
      · simp [same, Ne.symm same]

/-- What is told place by place is told in the order of the places. -/
theorem flatMap_linesAt {places : List Label} (ascend : places.Pairwise (· < ·))
    (inside : ∀ line ∈ lines, line.1 ∈ places) :
    places.flatMap (fun place => linesAt place lines) = linesByPlace lines := by
  refine eq_of_linesAt ?_ (pairwise_linesByPlace lines) fun place => ?_
  · rw [List.pairwise_flatMap]
    refine ⟨fun place _ => ?_, ascend.imp fun {first second} before line isFirst other isSecond => ?_⟩
    · refine List.pairwise_of_forall_mem_list fun line isLine other isOther => ?_
      exact Nat.le_of_eq ((mem_linesAt.mp isLine).2.trans (mem_linesAt.mp isOther).2.symm)
    · rw [(mem_linesAt.mp isFirst).2, (mem_linesAt.mp isSecond).2]
      exact Nat.le_of_lt before
  · rw [linesAt_flatMap (ascend.imp Nat.ne_of_lt), linesAt_linesByPlace]
    split
    · rfl
    · rename_i notThere
      refine (List.filter_eq_nil_iff.mpr fun line member same => notThere ?_).symm
      exact of_decide_eq_true same ▸ inside line member

end ClassFile
