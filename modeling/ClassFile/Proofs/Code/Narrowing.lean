import ClassFile.Proofs.Code.Faithful
import ClassFile.Proofs.Code.Rounds

/-!
# Which jumps are narrow

A jump that does not fit the narrow form has the wide one.  A jump that fits is narrow, but for one
case: once it was narrow and missed its target, it is wide for good, even if later rounds bring the target
back (`CodeLayout.bytesOf_jump`).  That case does occur (`CodeLayout.exists_wide_fits`).
-/

namespace ClassFile

namespace JumpWidth

theorem fits_iff {distance : Int} : fits distance = true ↔ -32768 ≤ distance ∧ distance ≤ 32767 := by
  simp [fits]

/-- What fits as it is fits once it is narrowed. -/
theorem fitsNarrowed_of_fits {distance : Int} (opcode : Opcode) (reached : fits distance = true) :
    fitsNarrowed opcode distance = true := by
  rw [fits_iff] at reached
  rw [fitsNarrowed, fits_iff]
  by_cases isShort : opcode = .goto ∨ opcode = .jsr
  · simp only [size, isShort, if_true]
    split <;> omega
  · simp only [size, isShort, if_false]
    split <;> omega

end JumpWidth

namespace CodeLayout

open CodeOffsets

variable {method : Text} {start entries next last : List SizedItem} {rounds index : Nat}

/-! ### One jump through the rounds -/

/-- What a round does with a jump. -/
theorem getElem?_round (rounded : round method entries = .ok next) {opcode : Opcode} {target : Label}
    {width : JumpWidth} (found : entries[index]? = some (.jump opcode target, width)) :
    ∃ distance, (ofSized entries).distance method (startOf entries index) target = .ok distance ∧
      next[index]? = some (.jump opcode target, width.next opcode distance) := by
  have sizes := round_eq_ok.mp rounded
  rcases getElem?_of_forall₂ sizes index with ⟨none, -⟩ | ⟨part, resized, partHere, here, sized⟩
  · have inside := (List.getElem?_eq_some_iff.mp found).1
    rw [List.getElem?_eq_none_iff, List.length_zip] at none
    simp at none
    omega
  · rcases getElem?_zip_positions partHere with ⟨entryHere, position⟩
    rw [found, Option.some.injEq] at entryHere
    rw [← entryHere, position] at sized
    simp only [resize, map_eq_ok] at sized
    rcases sized with ⟨distance, measured, rfl⟩
    exact ⟨distance, measured, here⟩

/-- Whether in some round a jump is narrow and does not reach its target. -/
def Misses (method : Text) (items : List CodeItem) (index : Nat) : Prop :=
  ∃ rounds entries opcode target distance,
    ChangingRounds method (items.map fun item => (item, .wide)) rounds entries ∧
      entries[index]? = some (.jump opcode target, .narrow) ∧
      (ofSized entries).distance method (startOf entries index) target = .ok distance ∧
      JumpWidth.fits distance = false

namespace ChangingRounds

theorem unique (one : ChangingRounds method start rounds entries)
    (two : ChangingRounds method start rounds next) : entries = next := by
  induction one generalizing next with
  | none =>
      cases two
      rfl
  | more front rounded _ ih =>
      cases two with
      | more otherFront otherRounded =>
          rw [← ih otherFront, rounded] at otherRounded
          exact Except.ok.inj otherRounded

/-- Nothing changes once the widths are settled. -/
theorem le_of_settled (changing : ChangingRounds method start rounds last)
    (settled : Settled method last) {other : Nat}
    (others : ChangingRounds method start other entries) : other ≤ rounds := by
  induction others with
  | none => exact Nat.zero_le _
  | @more other before next front rounded changed ih =>
      refine Nat.lt_of_le_of_ne ih ?_
      rintro rfl
      obtain rfl := changing.unique front
      rw [Settled, rounded, Except.ok.injEq] at settled
      exact changed settled

/-- There is one way to settled widths. -/
theorem eq_of_settled (changing : ChangingRounds method start rounds last)
    (settled : Settled method last) {other : Nat} (others : ChangingRounds method start other entries)
    (othersSettled : Settled method entries) : last = entries := by
  obtain rfl := Nat.le_antisymm (others.le_of_settled othersSettled changing)
    (changing.le_of_settled settled others)
  exact changing.unique others

/-- What comes before the last round goes on. -/
theorem exists_round {early : Nat} (changing : ChangingRounds method start rounds last)
    (earlier : ChangingRounds method start early entries) (before : early < rounds) :
    ∃ next, round method entries = .ok next ∧ ChangingRounds method start (early + 1) next := by
  induction changing with
  | none => exact absurd before (Nat.not_lt_zero _)
  | more front rounded changed ih =>
      rcases Nat.lt_or_eq_of_le (Nat.le_of_lt_succ before) with earlierStill | rfl
      · exact ih earlierStill
      · obtain rfl := earlier.unique front
        exact ⟨_, rounded, front.more rounded changed⟩

/-- The rounds are enough to get to settled widths. -/
theorem settle_eq {items : List CodeItem}
    (changing : ChangingRounds method (items.map fun item => (item, .wide)) rounds last)
    (settled : Settled method last) :
    settle method (items.map fun item => (item, .wide)) (maxRounds items) = .ok last := by
  rcases settle_start_ends method items with
    ⟨other, entries, others, ⟨othersSettled, ends⟩ | ⟨label, stuck, -⟩⟩
  · rw [ends, others.eq_of_settled othersSettled changing settled]
  · rcases Nat.lt_or_eq_of_le (changing.le_of_settled settled others) with before | rfl
    · rcases changing.exists_round others before with ⟨next, rounded, -⟩
      rw [rounded] at stuck
      cases stuck
    · rw [others.unique changing, settled] at stuck
      cases stuck

/-- A jump that is wide for good stays so. -/
theorem pinned_of_le {opcode : Opcode} {target : Label} {early : Nat}
    (earlier : ChangingRounds method start early entries)
    (pinned : entries[index]? = some (.jump opcode target, .pinned))
    (changing : ChangingRounds method start rounds last) (ordered : early ≤ rounds) :
    last[index]? = some (.jump opcode target, .pinned) := by
  induction changing with
  | none =>
      cases Nat.le_zero.mp ordered
      rwa [← earlier.unique .none]
  | @more rounds before next front rounded changed ih =>
      rcases Nat.lt_or_eq_of_le ordered with before | rfl
      · rcases getElem?_round rounded (ih (Nat.le_of_lt_succ before)) with ⟨distance, -, here⟩
        exact here
      · rwa [← earlier.unique (front.more rounded changed)]

end ChangingRounds

/-! ### The widths in the end -/

section Start

variable {items : List CodeItem} {opcode : Opcode} {target : Label} {width : JumpWidth}
  (changing : ChangingRounds method (items.map fun item => (item, .wide)) rounds last)
include changing

/-- A jump that misses its target is wide in the end. -/
theorem pinned_of_misses (settled : Settled method last)
    (found : last[index]? = some (.jump opcode target, width)) (misses : Misses method items index) :
    width = .pinned := by
  rcases misses with ⟨early, entries, opcode', target', distance, earlier, narrow, measured, far⟩
  -- The jump does not fit, so its round is not the last.
  have before : early < rounds := by
    refine Nat.lt_of_le_of_ne (changing.le_of_settled settled earlier) ?_
    rintro rfl
    obtain rfl := changing.unique earlier
    rcases getElem?_round settled narrow with ⟨other, measuredToo, same⟩
    rw [measured, Except.ok.injEq] at measuredToo
    subst measuredToo
    simp [narrow, JumpWidth.next, far] at same
  rcases changing.exists_round earlier before with ⟨next, rounded, further⟩
  rcases getElem?_round rounded narrow with ⟨other, measuredToo, pinned⟩
  rw [measured, Except.ok.injEq] at measuredToo
  subst measuredToo
  rw [JumpWidth.next, if_neg (Bool.eq_false_iff.mp far)] at pinned
  rw [further.pinned_of_le pinned changing before, Option.some.injEq, Prod.mk.injEq] at found
  exact found.2.symm

/-- A jump that is wide for good has missed its target. -/
theorem misses_of_pinned (found : last[index]? = some (.jump opcode target, .pinned)) :
    Misses method items index := by
  induction changing with
  | none =>
      rw [List.getElem?_map, Option.map_eq_some_iff] at found
      rcases found with ⟨item, -, same⟩
      simp at same
  | @more rounds before next front rounded _ ih =>
      have parts := congrArg (fun items => items[index]?) (map_fst_round rounded)
      simp only [List.getElem?_map, found, Option.map_some] at parts
      rcases Option.map_eq_some_iff.mp parts.symm with ⟨⟨item, width⟩, here, isJump⟩
      dsimp only at isJump
      subst isJump
      rcases getElem?_round rounded here with ⟨distance, measured, later⟩
      rw [found, Option.some.injEq, Prod.mk.injEq] at later
      have became := later.2.symm
      cases width with
      | pinned => exact ih here
      | wide =>
          rw [JumpWidth.next] at became
          split at became <;> cases became
      | narrow =>
          refine ⟨rounds, before, opcode, target, distance, front, here, measured, ?_⟩
          rw [JumpWidth.next] at became
          split at became
          · cases became
          · rename_i far
            exact Bool.eq_false_iff.mpr far

end Start

/-- What `ofItems` writes: the parts in the widths that the rounds end with. -/
theorem exists_cut {items : List CodeItem} {layout : CodeLayout}
    (laidOut : ofItems method items = .ok layout) :
    ∃ rounds entries pieces,
      ChangingRounds method (items.map fun item => (item, .wide)) rounds entries ∧
        Settled method entries ∧ (ofSized entries).stop ≤ maxCodeLength ∧
        Cut layout entries pieces ∧
        ∀ (index : Nat) (entry : SizedItem) (piece : List UInt8), entries[index]? = some entry →
          pieces[index]? = some piece →
            IsPiece (ofSized entries) method entry (startOf entries index) piece := by
  unfold ofItems at laidOut
  simp only [bind_eq_ok] at laidOut
  rcases laidOut with ⟨entries, settles, laidOut⟩
  split at laidOut
  · simp at laidOut
  · rename_i notLarge
    simp only [bind_eq_ok, pure_eq_ok] at laidOut
    rcases laidOut with ⟨code, emitted, rfl⟩
    rcases settle_start_ends method items with
      ⟨rounds, last, changing, ⟨settled, ends⟩ | ⟨label, -, ends⟩⟩
    · rw [settles, Except.ok.injEq] at ends
      subst ends
      rcases @exists_pieces method entries code (IsPiece (ofSized entries) method)
        (fun _ _ _ _ _ put => putItem_isPiece put) emitted with ⟨pieces, bytes, lengths, arePieces⟩
      exact ⟨rounds, entries, pieces, changing, settled, Nat.le_of_not_lt notLarge,
        ⟨rfl, bytes, lengths, fun index entry piece here found =>
          (arePieces index entry piece here found).1⟩, arePieces⟩
    · rw [settles] at ends
      cases ends

/-- A jump is narrow if its distance in the laid out code fits and it has not missed its target as a
narrow jump in an earlier round, and else it is wide. -/
theorem bytesOf_jump {items : List CodeItem} {layout : CodeLayout}
    (laidOut : ofItems method items = .ok layout) {opcode : Opcode} {target : Label}
    (found : items[index]? = some (.jump opcode target)) :
    ∃ place distance, layout.offsets.place? target = some place ∧
      distance = (place : Int) - layout.position index ∧
      (JumpWidth.fits distance = true ∧ ¬Misses method items index →
        layout.bytesOf index = opcode.narrowForm distance) ∧
      (JumpWidth.fits distance = false ∨ Misses method items index →
        layout.bytesOf index = opcode.wideForm distance) := by
  rcases exists_cut laidOut with
    ⟨rounds, entries, pieces, changing, settled, -, cut, arePieces⟩
  have parts : entries.map Prod.fst = items := by
    rw [changing.map_fst, List.map_map]
    exact List.map_id items
  rw [← parts, List.getElem?_map, Option.map_eq_some_iff] at found
  rcases found with ⟨⟨item, width⟩, here, isJump⟩
  dsimp only at isJump
  subst isJump
  have inside := (List.getElem?_eq_some_iff.mp here).1
  have piece := List.getElem?_eq_getElem (l := pieces) (i := index) (by rw [cut.length_eq]; exact inside)
  rcases (arePieces index _ _ here piece).2 opcode target rfl with ⟨distance, measured, isForm⟩
  rcases settled.jump here with ⟨place, known, asked⟩
  rcases distance_eq_ok.mp measured with ⟨other, knownToo, rfl⟩
  rw [known, Option.some.injEq] at knownToo
  subst knownToo
  refine ⟨place, _, by rw [CodeOffsets.place?, cut.offsets_eq, known], rfl, ?_⟩
  rw [cut.bytesOf_eq piece, cut.position_eq (Nat.le_of_lt inside), isForm]
  cases width with
  | narrow =>
      have fits := settled.fits here measured
      have reaches : ¬Misses method items index := fun misses => by
        have := pinned_of_misses changing settled here misses
        cases this
      exact ⟨fun _ => rfl, fun far => by simp [fits, reaches] at far⟩
  | wide =>
      have unreached : JumpWidth.fits ((place : Int) - startOf entries index) = false := by
        by_contra reached
        rw [Bool.not_eq_false] at reached
        rw [JumpWidth.next, if_pos (JumpWidth.fitsNarrowed_of_fits opcode reached)] at asked
        cases asked
      exact ⟨fun reached => by simp [unreached] at reached, fun _ => rfl⟩
  | pinned =>
      have misses : Misses method items index := misses_of_pinned changing here
      exact ⟨fun reached => absurd misses reached.2, fun _ => rfl⟩

theorem bytesOf_jump_switchBody :
    switchBody[1]? = some (.jump .ifeq 1) ∧
      ∃ layout, ofItems .empty switchBody = .ok layout ∧
        ∃ place distance, layout.offsets.place? 1 = some place ∧
          distance = (place : Int) - layout.position 1 ∧
          (JumpWidth.fits distance = true ∧ ¬Misses .empty switchBody 1 →
            layout.bytesOf 1 = Opcode.ifeq.narrowForm distance) ∧
          (JumpWidth.fits distance = false ∨ Misses .empty switchBody 1 →
            layout.bytesOf 1 = Opcode.ifeq.wideForm distance) := by
  rcases ofItems_switchBody with ⟨layout, laidOut⟩
  exact ⟨rfl, layout, laidOut, bytesOf_jump laidOut rfl⟩

/-! ### A jump that is brought back -/

/-- A jump ahead over a switch and a jump back to its own front, with bytes in between.  In front of them is
a jump that moves the switch. -/
def crowdedBody (between : List UInt8) : List CodeItem :=
  [.label 0, .jump .ifeq 0, .jump .goto 1, .fixed [0, 0], .lookupSwitch 0 [], .fixed between,
    .jump .ifeq 0, .label 1, .fixed [Opcode.returnVoid.code]]

/-- The parts of that body with given widths of its three jumps. -/
def crowded (between : List UInt8) (front ahead back : JumpWidth) : List SizedItem :=
  (crowdedBody between).zip [.wide, front, ahead, .wide, .wide, .wide, back, .wide, .wide]

/-- The number of bytes in front of those in between. -/
def lead (front ahead : JumpWidth) : Nat :=
  let switch := front.size .ifeq + ahead.size .goto + 2
  switch + (1 + Layout.switchPadding switch + 8)

section Crowded

variable {between : List UInt8} (many : between.length = 32745)
include many

theorem startOf_crowded (front ahead back : JumpWidth) :
    let start := startOf (crowded between front ahead back)
    start 0 = 0 ∧ start 1 = 0 ∧ start 2 = front.size .ifeq ∧ start 6 = lead front ahead + 32745 ∧
      start 7 = lead front ahead + 32745 + back.size .ifeq ∧
      (ofSized (crowded between front ahead back)).stop =
        lead front ahead + 32745 + back.size .ifeq + 1 := by
  simp [startOf, ofSized, crowded, crowdedBody, add, CodeItem.size, lead, many]

theorem round_crowded (front ahead back : JumpWidth) :
    round .empty (crowded between front ahead back) =
      .ok (crowded between (front.next .ifeq 0)
        (ahead.next .goto
          ((lead front ahead + 32745 + back.size .ifeq : Nat) - (front.size .ifeq : Nat) : Int))
        (back.next .ifeq (0 - (lead front ahead + 32745 : Nat)))) := by
  rcases startOf_crowded many front ahead back with ⟨zero, one, two, six, seven, -⟩
  rw [← two, ← seven, ← six]
  have rounded : round .empty (crowded between front ahead back) =
      .ok (crowded between
        (front.next .ifeq (startOf (crowded between front ahead back) 0 -
          startOf (crowded between front ahead back) 1))
        (ahead.next .goto (startOf (crowded between front ahead back) 7 -
          startOf (crowded between front ahead back) 2))
        (back.next .ifeq (startOf (crowded between front ahead back) 0 -
          startOf (crowded between front ahead back) 6))) := by
    simp only [round, toList_positions, resize, distance, resolve_ofSized]
    rfl
  rw [rounded, zero, one]
  rfl

theorem changingRounds_crowded :
    ChangingRounds .empty ((crowdedBody between).map fun item => (item, .wide)) 2
      (crowded between .narrow .pinned .narrow) := by
  have narrowed : round .empty (crowded between .wide .wide .wide) =
      .ok (crowded between .narrow .narrow .wide) := round_crowded many ..
  have missed : round .empty (crowded between .narrow .narrow .wide) =
      .ok (crowded between .narrow .pinned .narrow) := round_crowded many ..
  exact (ChangingRounds.none.more narrowed (by simp [crowded, crowdedBody])).more missed
    (by simp [crowded, crowdedBody])

theorem settled_crowded : Settled .empty (crowded between .narrow .pinned .narrow) :=
  round_crowded many ..

theorem ofItems_crowdedBody : ∃ layout, ofItems .empty (crowdedBody between) = .ok layout := by
  have settled := (changingRounds_crowded many).settle_eq (settled_crowded many)
  have stop := (startOf_crowded many .narrow .pinned .narrow).2.2.2.2.2
  simp only [ofItems, settled, ok_bind]
  rw [stop, if_neg (by decide)]
  simp only [toList_positions, putItem, distance, resolve_ofSized]
  exact ⟨_, rfl⟩

end Crowded

/-- The body with so many bytes in between that the jump ahead, made narrow, misses its target by three
bytes; then the jump back is narrowed by five.  So the jump ahead stays wide in code in which it fits. -/
theorem exists_wide_fits :
    ∃ layout place distance, ofItems .empty (crowdedBody (List.replicate 32745 0)) = .ok layout ∧
      (crowdedBody (List.replicate 32745 0))[2]? = some (.jump .goto 1) ∧
      layout.offsets.place? 1 = some place ∧ distance = (place : Int) - layout.position 2 ∧
      JumpWidth.fits distance = true ∧ layout.bytesOf 2 = Opcode.goto.wideForm distance ∧
      layout.bytesOf 2 ≠ Opcode.goto.narrowForm distance := by
  have many : (List.replicate 32745 (0 : UInt8)).length = 32745 := List.length_replicate
  generalize List.replicate 32745 (0 : UInt8) = between at many
  rcases ofItems_crowdedBody many with ⟨layout, laidOut⟩
  rcases exists_cut laidOut with ⟨rounds, entries, pieces, changing, settled, -, cut, arePieces⟩
  obtain rfl := changing.eq_of_settled settled (changingRounds_crowded many) (settled_crowded many)
  have here : (crowded between .narrow .pinned .narrow)[2]? = some (.jump .goto 1, .pinned) := rfl
  have inside := (List.getElem?_eq_some_iff.mp here).1
  have piece := List.getElem?_eq_getElem (l := pieces) (i := 2) (by rw [cut.length_eq]; exact inside)
  rcases (arePieces 2 _ _ here piece).2 .goto 1 rfl with ⟨distance, measured, isForm⟩
  rcases distance_eq_ok.mp measured with ⟨place, known, rfl⟩
  rcases startOf_crowded many .narrow .pinned .narrow with ⟨-, -, two, -, seven, -⟩
  have end_eq : place = startOf (crowded between .narrow .pinned .narrow) 7 := by
    rw [labels_ofSized] at known
    exact (Option.some.inj known).symm
  refine ⟨layout, place, _, laidOut, rfl, by rw [CodeOffsets.place?, cut.offsets_eq, known],
    by rw [cut.position_eq (Nat.le_of_lt inside)], ?_, ?_, ?_⟩
  · rw [end_eq, two, seven]
    rfl
  · rw [cut.bytesOf_eq piece, isForm]
    rfl
  · rw [cut.bytesOf_eq piece, isForm]
    intro same
    have lengths := congrArg List.length same
    rw [JumpWidth.length_form] at lengths
    cases lengths

end CodeLayout

end ClassFile
