import ClassFile.Proofs.Code.Encoding
import Mathlib.Algebra.BigOperators.Group.List.Lemmas
import Mathlib.Algebra.Ring.Nat

/-!
# Code in pieces

Laid out code is the bytes of its parts, one after the other.  As many bytes are written for a part as
its size says, so the bytes between the start of a part and the start of the next are those that were
written for it (`CodeLayout.Cut.bytesOf_eq`).  This holds of all parts, those that no method can have
included.
-/

namespace ClassFile

/-- The short form of a jump. -/
def Opcode.narrowForm (opcode : Opcode) (distance : Int) : List UInt8 :=
  opcode.code :: bigEndian16 (Int16.ofInt distance).toUInt16

/-- The long form of a jump; that of a condition is the opposite condition over a jump that counts from
its own place. -/
def Opcode.wideForm (opcode : Opcode) (distance : Int) : List UInt8 :=
  match opcode with
  | .goto => Layout.gotoWide :: bigEndian32 (Int32.ofInt distance).toUInt32
  | .jsr => Layout.jsrWide :: bigEndian32 (Int32.ofInt distance).toUInt32
  | _ =>
      (opcode.invertedCondition.getD opcode).code :: bigEndian16 8 ++
        Layout.gotoWide :: bigEndian32 (Int32.ofInt (distance - 3)).toUInt32

/-- The form that a jump of the given width has. -/
def JumpWidth.form (width : JumpWidth) (opcode : Opcode) (distance : Int) : List UInt8 :=
  match width with
  | .narrow => opcode.narrowForm distance
  | .wide | .pinned => opcode.wideForm distance

theorem Opcode.length_wideForm (opcode : Opcode) (distance : Int) :
    (opcode.wideForm distance).length = JumpWidth.wide.size opcode := by
  unfold wideForm
  split
  · rfl
  · rfl
  · rename_i notGoto notJsr
    have conditional : ¬(opcode = .goto ∨ opcode = .jsr) := not_or.mpr ⟨notGoto, notJsr⟩
    simp [JumpWidth.size, conditional]

theorem JumpWidth.length_form (width : JumpWidth) (opcode : Opcode) (distance : Int) :
    (width.form opcode distance).length = width.size opcode := by
  cases width with
  | narrow => rfl
  | wide | pinned => exact opcode.length_wideForm distance

namespace CodeLayout

open CodeOffsets

theorem toList_putJump (output : Output) (opcode : Opcode) (width : JumpWidth) (distance : Int) :
    (putJump output opcode width distance).toList = output.toList ++ width.form opcode distance := by
  cases width with
  | narrow => simp [putJump, JumpWidth.form, Opcode.narrowForm]
  | wide | pinned =>
      simp only [putJump, JumpWidth.form, Opcode.wideForm]
      split <;> simp
      rfl

/-- What is written for a part: as many bytes as its size says, for a jump the form of its width. -/
def IsPiece (offsets : CodeOffsets) (method : Text) (entry : SizedItem) (start : Nat)
    (piece : List UInt8) : Prop :=
  piece.length = entry.1.size entry.2 start ∧
    ∀ opcode target, entry.1 = .jump opcode target → ∃ distance,
      offsets.distance method start target = .ok distance ∧ piece = entry.2.form opcode distance

/-- A loop that appends the same number of bytes for every element. -/
theorem foldlM_lengthens {ε α : Type} {append : Output → α → Except ε Output} {size : Nat}
    {list : List α}
    (appends : ∀ value ∈ list, ∀ output next, append output value = .ok next →
      ∃ piece : List UInt8, piece.length = size ∧ next.toList = output.toList ++ piece)
    {output final : Output} (written : list.foldlM append output = .ok final) :
    ∃ piece : List UInt8, piece.length = size * list.length ∧
      final.toList = output.toList ++ piece := by
  rcases @foldlM_appends _ _ (List UInt8) append (fun piece _ => piece.length = size) id list appends
    _ _ written with ⟨pieces, lengths, bytes⟩
  refine ⟨pieces.flatMap id, ?_, bytes⟩
  clear written appends bytes
  induction lengths with
  | nil => rfl
  | cons here _ ih =>
      rw [List.flatMap_cons, List.length_append, ih, id, here, List.length_cons,
        Nat.mul_succ, Nat.add_comm]

theorem putItem_isPiece {offsets : CodeOffsets} {method : Text} {output next : Output}
    {entry : SizedItem} {start : Nat} (put : putItem offsets method output entry start = .ok next) :
    ∃ piece, IsPiece offsets method entry start piece ∧ next.toList = output.toList ++ piece := by
  rcases entry with ⟨item, width⟩
  cases item with
  | fixed bytes =>
      simp only [putItem, pure_eq_ok] at put
      subst put
      exact ⟨bytes, ⟨rfl, by rintro _ _ ⟨⟩⟩, by simp⟩
  | label place =>
      simp only [putItem, pure_eq_ok] at put
      subst put
      exact ⟨[], ⟨rfl, by rintro _ _ ⟨⟩⟩, by simp⟩
  | jump opcode target =>
      simp only [putItem, bind_eq_ok, pure_eq_ok] at put
      rcases put with ⟨distance, measured, rfl⟩
      refine ⟨_, ⟨width.length_form opcode distance, ?_⟩, toList_putJump output opcode width distance⟩
      rintro _ _ ⟨⟩
      exact ⟨distance, measured, rfl⟩
  | tableSwitch low high default targets =>
      simp only [putItem, bind_eq_ok] at put
      rcases put with ⟨distance, -, others⟩
      rcases @foldlM_lengthens _ _ _ 4 _ (fun target _ output next put => by
          simp only [bind_eq_ok, pure_eq_ok] at put
          rcases put with ⟨_, -, rfl⟩
          exact ⟨_, length_bigEndian32 _, toList_putInt _ _⟩) _ _ others with ⟨piece, length, bytes⟩
      refine ⟨Opcode.tableswitch.code :: (List.replicate (Layout.switchPadding start) 0 ++
        (bigEndian32 (Int32.ofInt distance).toUInt32 ++ (bigEndian32 low.toUInt32 ++
          (bigEndian32 high.toUInt32 ++ piece)))), ⟨?_, by rintro _ _ ⟨⟩⟩, by simp [bytes]⟩
      simp [length, CodeItem.size]
      omega
  | lookupSwitch default cases =>
      simp only [putItem, bind_eq_ok] at put
      rcases put with ⟨distance, -, others⟩
      rcases @foldlM_lengthens _ _ _ 8 _ (fun entry _ output next put => by
          simp only [bind_eq_ok, pure_eq_ok] at put
          rcases put with ⟨_, -, rfl⟩
          refine ⟨_, ?_, by simp only [toList_putInt, Output.toList_u32, List.append_assoc]; rfl⟩
          simp) _ _ others with ⟨piece, length, bytes⟩
      refine ⟨Opcode.lookupswitch.code :: (List.replicate (Layout.switchPadding start) 0 ++
        (bigEndian32 (Int32.ofInt distance).toUInt32 ++
          (bigEndian32 (Int32.ofInt cases.length).toUInt32 ++ piece))),
        ⟨?_, by rintro _ _ ⟨⟩⟩, by simp [bytes]⟩
      simp [length, CodeItem.size]
      omega

/-- A loop that writes every part of a body writes them one after the other. -/
theorem exists_pieces {method : Text} {entries : List SizedItem} {code : Output}
    {StandsFor : SizedItem → Nat → List UInt8 → Prop}
    (each : ∀ (index : Nat) (entry : SizedItem), entries[index]? = some entry → ∀ output next,
      putItem (ofSized entries) method output entry (startOf entries index) = .ok next →
        ∃ piece, StandsFor entry (startOf entries index) piece ∧
          next.toList = output.toList ++ piece)
    (emitted : (entries.zip (ofSized entries).positions.toList).foldlM
      (fun output (entry, position) => putItem (ofSized entries) method output entry position)
      .empty = .ok code) :
    ∃ pieces : List (List UInt8), code.toList = pieces.flatten ∧ pieces.length = entries.length ∧
      ∀ (index : Nat) (entry : SizedItem) (piece : List UInt8), entries[index]? = some entry →
        pieces[index]? = some piece → StandsFor entry (startOf entries index) piece := by
  have appends : ∀ part ∈ entries.zip (ofSized entries).positions.toList, ∀ output next,
      putItem (ofSized entries) method output part.1 part.2 = .ok next →
        ∃ piece, StandsFor part.1 part.2 piece ∧ next.toList = output.toList ++ id piece := by
    intro part partMem output next put
    rcases List.getElem?_of_mem partMem with ⟨index, found⟩
    rcases getElem?_zip_positions found with ⟨entryHere, start⟩
    rw [start] at put ⊢
    exact each index part.1 entryHere output next put
  rcases foldlM_appends appends emitted with ⟨pieces, stands, bytes⟩
  refine ⟨pieces, by simpa using bytes, by simpa using stands.length_eq.symm, ?_⟩
  intro index entry piece entryFound pieceFound
  rcases List.getElem?_eq_some_iff.mp pieceFound with ⟨inside, rfl⟩
  have insideZip : index < (entries.zip (ofSized entries).positions.toList).length := by
    rw [stands.length_eq]
    exact inside
  have standsHere := stands.get insideZip inside
  rcases getElem?_zip_positions (List.getElem?_eq_getElem insideZip) with ⟨entryHere, start⟩
  rw [entryFound, Option.some.injEq] at entryHere
  simp only [List.get_eq_getElem, ← entryHere, start] at standsHere
  exact standsHere

/-- The bytes from the start of a part to the start of the next. -/
def bytesOf (layout : CodeLayout) (index : Nat) : List UInt8 :=
  (layout.code.toList.drop (layout.position index)).take
    (layout.position (index + 1) - layout.position index)

/-- Whether code is the given pieces, one for each part. -/
structure Cut (layout : CodeLayout) (entries : List SizedItem) (pieces : List (List UInt8)) :
    Prop where
  offsets_eq : layout.offsets = ofSized entries
  code_eq : layout.code.toList = pieces.flatten
  length_eq : pieces.length = entries.length
  length_piece : ∀ (index : Nat) (entry : SizedItem) (piece : List UInt8),
    entries[index]? = some entry → pieces[index]? = some piece →
      piece.length = entry.1.size entry.2 (startOf entries index)

namespace Cut

variable {layout : CodeLayout} {entries : List SizedItem} {pieces : List (List UInt8)}
  (cut : Cut layout entries pieces)
include cut

theorem position_eq {index : Nat} (inside : index ≤ entries.length) :
    layout.position index = startOf entries index := by
  rw [position, cut.offsets_eq, Array.getD_eq_getD_getElem?, ← Array.getElem?_toList,
    toList_positions, List.getElem?_map]
  rcases Nat.lt_or_eq_of_le inside with before | rfl
  · simp [before]
  · simp [startOf_length]

/-- Where there are no parts any more the code ends. -/
theorem position_of_le {index : Nat} (outside : entries.length ≤ index) :
    layout.position index = (ofSized entries).stop := by
  rw [position, cut.offsets_eq, Array.getD_eq_getD_getElem?, Array.getElem?_eq_none]
  · rfl
  · rwa [size_positions]

theorem position_mono {first second : Nat} (ordered : first ≤ second) :
    layout.position first ≤ layout.position second := by
  rcases Nat.le_total second entries.length with inside | outside
  · rw [cut.position_eq inside, cut.position_eq (Nat.le_trans ordered inside)]
    exact startOf_mono entries ordered inside
  · rw [cut.position_of_le outside]
    rcases Nat.le_total first entries.length with inside | outside
    · rw [cut.position_eq inside, ← startOf_length]
      exact startOf_mono entries inside (Nat.le_refl _)
    · exact Nat.le_of_eq (cut.position_of_le outside)

theorem startOf_succ {index : Nat} {piece : List UInt8} (found : pieces[index]? = some piece) :
    startOf entries (index + 1) = startOf entries index + piece.length := by
  have inside : index < entries.length := by
    rw [← cut.length_eq]
    exact (List.getElem?_eq_some_iff.mp found).1
  rw [CodeOffsets.startOf_succ inside,
    cut.length_piece index _ piece (List.getElem?_eq_getElem inside) found]

theorem sum_lengths {index : Nat} (inside : index ≤ pieces.length) :
    ((pieces.map List.length).take index).sum = startOf entries index := by
  induction index with
  | zero => rfl
  | succ index ih =>
      have before : index < pieces.length := by omega
      rw [List.sum_take_succ _ _ (by simpa using before), ih (by omega), List.getElem_map,
        cut.startOf_succ (List.getElem?_eq_getElem before)]

theorem size_eq : layout.code.size = startOf entries entries.length := by
  have all := cut.sum_lengths (Nat.le_refl _)
  rw [List.take_of_length_le (by simp), cut.length_eq] at all
  rw [Output.size_eq_length, cut.code_eq, List.length_flatten, all]

theorem bytesOf_eq {index : Nat} {piece : List UInt8} (found : pieces[index]? = some piece) :
    layout.bytesOf index = piece := by
  rcases List.getElem?_eq_some_iff.mp found with ⟨inside, rfl⟩
  have lengths := cut.length_eq
  rw [bytesOf, cut.position_eq (by omega), cut.position_eq (by omega), cut.code_eq,
    List.take_drop,
    Nat.add_sub_cancel' (startOf_mono entries (Nat.le_succ index) (by omega)),
    ← cut.sum_lengths (show index ≤ pieces.length by omega),
    ← cut.sum_lengths (show index + 1 ≤ pieces.length from inside)]
  exact List.drop_take_succ_flatten_eq_getElem pieces index inside

end Cut

end CodeLayout

end ClassFile
