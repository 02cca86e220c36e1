import ClassFile.Proofs.Code.Control
import ClassFile.Proofs.Code.Pieces

/-!
# Laid out code is faithful

If a body can be laid out, the code array is as long as its offsets say and not too long, every
label has the place of its first occurrence, the bytes between the start of a part and the start of
the next stand for that part without loss, and jumps lead where the body says
(`CodeLayout.faithful_ofItems`).
-/

namespace ClassFile

namespace CodeLayout

open CodeOffsets

/-- What laid out code has to do with the parts of a body. -/
structure Faithful (layout : CodeLayout) (items : List CodeItem) : Prop where
  size_eq : layout.code.size = layout.position items.length
  size_le : layout.position items.length ≤ maxCodeLength
  place_eq : ∀ label, layout.offsets.place? label =
    (items.findIdx? (isLabel label)).map layout.position
  position_succ : ∀ index < items.length,
    layout.position (index + 1) = layout.position index + (layout.bytesOf index).length
  encoded : ∀ (index : Nat) (inside : index < items.length),
    items[index].Encoded layout.offsets.place? (layout.position index) (layout.bytesOf index)
  /-- Control leaves a jump for the place of its target if it is taken, else for the next part. -/
  leaves_iff : ∀ (index : Nat) (opcode : Opcode) (target : Label),
    items[index]? = some (.jump opcode target) →
      ∃ place, layout.offsets.place? target = some place ∧
        ∀ operands : JumpOperands, ∃ taken, opcode.isTaken? operands = some taken ∧
          ∀ destination : Nat,
            Input.Leaves ⟨layout.code.data⟩ operands (layout.position index)
                (layout.position (index + 1)) (layout.position index) destination ↔
              destination = if taken then place else layout.position (index + 1)

/-- The parts of a body with settled widths, and the bytes that were written for each. -/
structure Written (method : Text) (items : List CodeItem) (layout : CodeLayout)
    (entries : List SizedItem) (pieces : List (List UInt8)) : Prop where
  settled : Settled method entries
  parts : entries.map Prod.fst = items
  offsets_eq : layout.offsets = ofSized entries
  stop_le : (ofSized entries).stop ≤ maxCodeLength
  code_eq : layout.code.toList = pieces.flatten
  length_eq : pieces.length = entries.length
  encoded : ∀ (index : Nat) (entry : SizedItem) (piece : List UInt8),
    entries[index]? = some entry → pieces[index]? = some piece →
      entry.1.Encoded (ofSized entries).place? (startOf entries index) piece ∧
        piece.length = entry.1.size entry.2 (startOf entries index)

section Written

variable {method : Text} {items : List CodeItem} {layout : CodeLayout}
  {entries : List SizedItem} {pieces : List (List UInt8)}

theorem Written.length_items (written : Written method items layout entries pieces) :
    items.length = entries.length := by
  rw [← written.parts, List.length_map]

theorem Written.cut (written : Written method items layout entries pieces) :
    Cut layout entries pieces where
  offsets_eq := written.offsets_eq
  code_eq := written.code_eq
  length_eq := written.length_eq
  length_piece index entry piece here found := (written.encoded index entry piece here found).2

theorem Written.position_eq (written : Written method items layout entries pieces) {index : Nat}
    (inside : index ≤ items.length) : layout.position index = startOf entries index :=
  written.cut.position_eq (written.length_items ▸ inside)

end Written

/-- With settled widths every part is written as bytes that stand for it. -/
theorem Settled.putItem_encoded {method : Text} {entries : List SizedItem}
    (settled : Settled method entries) (stopBound : (ofSized entries).stop ≤ maxCodeLength)
    {index : Nat} {entry : SizedItem} (found : entries[index]? = some entry)
    (isJump : ∀ opcode target, entry.1 = .jump opcode target → opcode.layout = .jump)
    {output next : Output}
    (put : putItem (ofSized entries) method output entry (startOf entries index) = .ok next) :
    ∃ piece, (entry.1.Encoded (ofSized entries).place? (startOf entries index) piece ∧
        piece.length = entry.1.size entry.2 (startOf entries index)) ∧
      next.toList = output.toList ++ piece := by
  rcases entry with ⟨item, width⟩
  have sized := startOf_succ_of_getElem? found
  have inside := (List.getElem?_eq_some_iff.mp found).1
  have ends := startOf_mono entries (Nat.succ_le_of_lt inside) (Nat.le_refl _)
  rw [startOf_length, Nat.succ_eq_add_one, sized] at ends
  have placed : Placed (ofSized entries) (startOf entries index) := by
    refine ⟨by omega, ?_⟩
    intro label place known
    exact Nat.le_trans (labels_le_stop known) stopBound
  have narrowFits (opcode : Opcode) (target : Label) (distance : Int)
      (isPart : item = .jump opcode target)
      (measured : (ofSized entries).distance method (startOf entries index) target = .ok distance)
      (narrow : width = .narrow) : JumpWidth.fits distance := by
    subst isPart narrow
    exact settled.fits found measured
  have small : item.size width (startOf entries index) ≤ maxCodeLength :=
    Nat.le_trans (Nat.le_add_left _ _) (Nat.le_trans ends stopBound)
  rcases CodeLayout.putItem_encoded placed isJump narrowFits small put with
    ⟨piece, stands, bytes, length⟩
  exact ⟨piece, ⟨stands, length⟩, bytes⟩

/-- A body that can be laid out has settled widths, and each of its parts is written. -/
theorem ofItems_eq_ok {method : Text} {items : List CodeItem} {layout : CodeLayout}
    (jumps : ∀ opcode target, .jump opcode target ∈ items → opcode.layout = .jump)
    (laidOut : ofItems method items = .ok layout) :
    ∃ entries pieces, Written method items layout entries pieces := by
  unfold ofItems at laidOut
  simp only [bind_eq_ok] at laidOut
  rcases laidOut with ⟨entries, settled, laidOut⟩
  rcases settle_eq_ok settled with ⟨settled, parts⟩
  rw [List.map_map, show Prod.fst ∘ (fun item : CodeItem => (item, JumpWidth.wide)) = id from rfl,
    List.map_id] at parts
  split at laidOut
  · simp at laidOut
  · rename_i notLarge
    simp only [bind_eq_ok, pure_eq_ok] at laidOut
    rcases laidOut with ⟨code, emitted, rfl⟩
    have stopBound := Nat.le_of_not_lt notLarge
    have each (index : Nat) (entry : SizedItem) (found : entries[index]? = some entry)
        (output next : Output)
        (put : putItem (ofSized entries) method output entry (startOf entries index) = .ok next) :=
      settled.putItem_encoded stopBound found (fun opcode target isPart => by
        apply jumps opcode target
        rw [← parts, ← isPart]
        exact List.mem_map_of_mem (List.mem_of_getElem? found)) put
    rcases @exists_pieces method entries code (fun entry start piece =>
      entry.1.Encoded (ofSized entries).place? start piece ∧
        piece.length = entry.1.size entry.2 start) each emitted with
      ⟨pieces, codeBytes, lengths, encoded⟩
    exact ⟨entries, pieces, settled, parts, rfl, stopBound, codeBytes, lengths, encoded⟩

theorem Written.place_eq {method : Text} {items : List CodeItem} {layout : CodeLayout}
    {entries : List SizedItem} {pieces : List (List UInt8)}
    (written : Written method items layout entries pieces) (label : Label) :
    layout.offsets.place? label = (items.findIdx? (isLabel label)).map layout.position := by
  rw [place?, written.offsets_eq, labels_ofSized, written.parts]
  apply Option.map_congr
  intro index found
  rw [written.position_eq (Nat.le_of_lt (List.findIdx?_eq_some_iff_getElem.mp found).1)]

/-- A label does not lie between the start of a part and the start of the next. -/
theorem Written.place_outside {method : Text} {items : List CodeItem} {layout : CodeLayout}
    {entries : List SizedItem} {pieces : List (List UInt8)}
    (written : Written method items layout entries pieces) {label : Label} {place index : Nat}
    (known : layout.offsets.place? label = some place) (inside : index < items.length) :
    ¬(layout.position index < place ∧ place < layout.position (index + 1)) := by
  rw [written.place_eq, Option.map_eq_some_iff] at known
  rcases known with ⟨other, found, rfl⟩
  have otherInside := (List.findIdx?_eq_some_iff_getElem.mp found).1
  have lengths := written.length_items
  rw [written.position_eq (by omega), written.position_eq (by omega),
    written.position_eq (by omega)]
  rintro ⟨behind, before⟩
  rcases Nat.lt_or_ge index other with later | earlier
  · have := startOf_mono entries (Nat.succ_le_of_lt later) (by omega)
    rw [Nat.succ_eq_add_one] at this
    omega
  · have := startOf_mono entries earlier (by omega)
    omega

theorem Written.jump {method : Text} {items : List CodeItem} {layout : CodeLayout}
    {entries : List SizedItem} {pieces : List (List UInt8)}
    (written : Written method items layout entries pieces) {index : Nat} {opcode : Opcode}
    {target : Label} (found : items[index]? = some (.jump opcode target)) :
    ∃ place, layout.offsets.place? target = some place := by
  rw [← written.parts, List.getElem?_map, Option.map_eq_some_iff] at found
  rcases found with ⟨⟨item, width⟩, entry, isJump⟩
  dsimp only at isJump
  subst isJump
  rcases written.settled.jump entry with ⟨place, known, _⟩
  exact ⟨place, by rw [place?, written.offsets_eq, known]⟩

/-- Laid out code is faithful to the body. -/
theorem faithful_ofItems {method : Text} {items : List CodeItem} {layout : CodeLayout}
    (jumps : ∀ opcode target, .jump opcode target ∈ items → opcode.layout = .jump)
    (laidOut : ofItems method items = .ok layout) : layout.Faithful items := by
  rcases ofItems_eq_ok jumps laidOut with ⟨entries, pieces, written⟩
  have lengths := written.length_items
  have piecesLength := written.length_eq
  have size : layout.code.size = layout.position items.length := by
    rw [written.cut.size_eq, written.position_eq (Nat.le_refl _), lengths]
  have successive (index : Nat) (inside : index < items.length) :
      layout.position (index + 1) = layout.position index + (layout.bytesOf index).length := by
    have piece := List.getElem?_eq_getElem (l := pieces) (i := index) (by omega)
    rw [written.position_eq (by omega), written.position_eq (by omega),
      written.cut.startOf_succ piece, written.cut.bytesOf_eq piece]
  have encoded (index : Nat) (inside : index < items.length) :
      items[index].Encoded layout.offsets.place? (layout.position index)
        (layout.bytesOf index) := by
    have entry := List.getElem?_eq_getElem (l := entries) (i := index) (by omega)
    have piece := List.getElem?_eq_getElem (l := pieces) (i := index) (by omega)
    have part : items[index] = entries[index].1 := by
      simp [← written.parts]
    rw [part, written.cut.bytesOf_eq piece, written.position_eq (by omega), written.offsets_eq]
    exact (written.encoded index _ _ entry piece).1
  refine ⟨size, ?_, written.place_eq, successive, encoded, ?_⟩
  · rw [written.position_eq (Nat.le_refl _), lengths, startOf_length]
    exact written.stop_le
  · intro index opcode target found
    rcases List.getElem?_eq_some_iff.mp found with ⟨inside, isJump⟩
    have layoutJump := jumps opcode target (isJump ▸ List.getElem_mem inside)
    have here := encoded index inside
    rw [isJump] at here
    rcases written.jump found with ⟨place, known⟩
    refine ⟨place, known, ?_⟩
    intro operands
    rcases Opcode.isTaken?_of_jump layoutJump operands with ⟨taken, isTaken⟩
    have held : Input.HasAt ⟨layout.code.data⟩ (layout.position index) (layout.bytesOf index) :=
      List.take_prefix _ _
    have leaves := here.leaves layoutJump held (successive index inside).symm known
      (written.place_outside known inside) isTaken
    refine ⟨taken, isTaken, ?_⟩
    intro destination
    constructor
    · intro other
      exact other.unique leaves
    · rintro rfl
      exact leaves

theorem position_zero {method : Text} {items : List CodeItem} {layout : CodeLayout}
    (jumps : ∀ opcode target, .jump opcode target ∈ items → opcode.layout = .jump)
    (laidOut : ofItems method items = .ok layout) : layout.position 0 = 0 := by
  rcases ofItems_eq_ok jumps laidOut with ⟨entries, pieces, written⟩
  rw [written.position_eq (Nat.zero_le _), startOf_zero]

/-- A body with a conditional jump over a switch that leads back to its start. -/
def switchBody : List CodeItem :=
  [.label 0, .jump .ifeq 1, .tableSwitch 0 0 1 [0], .label 1, .fixed [Opcode.returnVoid.code]]

theorem ofItems_switchBody : ∃ layout, ofItems .empty switchBody = .ok layout := by
  -- The jump becomes narrow in the first round, and the second round changes nothing.
  let sized : List SizedItem :=
    [(.label 0, .wide), (.jump .ifeq 1, .narrow), (.tableSwitch 0 0 1 [0], .wide),
      (.label 1, .wide), (.fixed [Opcode.returnVoid.code], .wide)]
  have narrowed : round .empty (switchBody.map fun item => (item, .wide)) = .ok sized := by
    simp only [round, toList_positions, resize, distance, resolve_ofSized]
    rfl
  have unchanged : round .empty sized = .ok sized := by
    simp only [round, toList_positions, resize, distance, resolve_ofSized]
    rfl
  have settled : settle .empty (switchBody.map fun item => (item, .wide))
      (maxRounds switchBody) = .ok sized := by
    rw [show maxRounds switchBody = 4 from rfl, settle, narrowed, ok_bind, if_neg (by decide),
      settle, unchanged, ok_bind, if_pos rfl]
    rfl
  simp only [ofItems, settled, ok_bind]
  rw [if_neg (by decide)]
  simp only [toList_positions, putItem, distance, resolve_ofSized]
  exact ⟨_, rfl⟩

theorem faithful_ofItems_switchBody :
    (∀ opcode target, .jump opcode target ∈ switchBody → opcode.layout = .jump) ∧
      ∃ layout, ofItems .empty switchBody = .ok layout ∧ layout.Faithful switchBody := by
  have jumps (opcode : Opcode) (target : Label) (isPart : .jump opcode target ∈ switchBody) :
      opcode.layout = .jump := by
    simp only [switchBody, List.mem_cons, CodeItem.jump.injEq, reduceCtorEq, false_or,
      List.not_mem_nil, or_false] at isPart
    rw [isPart.1]
    decide
  rcases ofItems_switchBody with ⟨layout, laidOut⟩
  exact ⟨jumps, layout, laidOut, faithful_ofItems jumps laidOut⟩

end CodeLayout

end ClassFile
