import ClassFile.Proofs.Frames.Spelling

/-!
# Places of stack map frames

A table stores how far each frame is from the one before, less one, and of the first frame where it is.
The reader adds the distances up (`ClassImage.FramesAt`).  Frames whose places ascend are read at these
places if they are stored with their distances (`CodeLayout.IsBounded.framesAt_of_spells`).

What is recorded in ascending order need not ascend strictly; of frames at one place the first is kept
(`Frame.firstAtEach`).
-/

namespace ClassFile

namespace Frame

/-! ### Distances -/

/-- The distance that is stored for a frame at a place behind another frame. -/
def gap (previous? : Option Nat) (place : Nat) : Nat :=
  match previous? with
  | none => place
  | some previous => place - previous - 1

/-- The place of a frame that is stored with a distance. -/
def placeBehind (previous? : Option Nat) (distance : Nat) : Nat :=
  match previous? with
  | none => distance
  | some previous => previous + distance + 1

theorem placeBehind_gap {previous? : Option Nat} {place : Nat}
    (behind : ∀ previous ∈ previous?, previous < place) :
    placeBehind previous? (gap previous? place) = place := by
  cases previous? with
  | none => rfl
  | some previous =>
      have less := behind previous rfl
      simp only [placeBehind, gap]
      omega

theorem gap_le (previous? : Option Nat) (place : Nat) : gap previous? place ≤ place := by
  cases previous? with
  | none => exact Nat.le_refl _
  | some previous =>
      simp only [gap]
      omega

/-- Frames with their distances instead of their places. -/
def withGaps (previous? : Option Nat) : List (Nat × Frame) → List (Nat × Frame)
  | [] => []
  | (place, frame) :: rest => (gap previous? place, frame) :: withGaps (some place) rest

theorem map_snd_withGaps (previous? : Option Nat) (frames : List (Nat × Frame)) :
    (withGaps previous? frames).map Prod.snd = frames.map Prod.snd := by
  induction frames generalizing previous? with
  | nil => rfl
  | cons entry rest ih => rw [withGaps, List.map_cons, ih, List.map_cons]

theorem length_withGaps (previous? : Option Nat) (frames : List (Nat × Frame)) :
    (withGaps previous? frames).length = frames.length := by
  simpa using congrArg List.length (map_snd_withGaps previous? frames)

/-- Whether bytes are a frame with its distance. -/
def SpellsWithGap (pool : Pool) (places : Label → Option Nat) (entry : Nat × Frame)
    (bytes : List UInt8) : Prop :=
  entry.2.Spells pool places entry.1.toUInt16 bytes

/-- Whether places grow from frame to frame. -/
def Ascend (previous? : Option Nat) : List (Nat × Frame) → Prop
  | [] => True
  | (place, _) :: rest => (∀ previous ∈ previous?, previous < place) ∧ Ascend (some place) rest

/-! ### Frames at one place -/

/-- Of the frames at each place the first. -/
def firstAtEach : List (Nat × Frame) → List (Nat × Frame)
  | [] => []
  | entry :: rest => entry :: (firstAtEach rest).filter fun other => other.1 ≠ entry.1

theorem mem_of_mem_firstAtEach {frames : List (Nat × Frame)} {entry : Nat × Frame}
    (member : entry ∈ firstAtEach frames) : entry ∈ frames := by
  induction frames with
  | nil => exact member
  | cons first rest ih =>
      rw [firstAtEach, List.mem_cons] at member
      rcases member with rfl | behind
      · exact List.mem_cons_self
      · exact List.mem_cons_of_mem _ (ih (List.mem_of_mem_filter behind))

/-- No place of a frame is without its first frame. -/
theorem exists_mem_firstAtEach {frames : List (Nat × Frame)} {entry : Nat × Frame}
    (member : entry ∈ frames) : ∃ frame, (entry.1, frame) ∈ firstAtEach frames := by
  induction frames with
  | nil => cases member
  | cons first rest ih =>
      rw [firstAtEach]
      rcases List.mem_cons.mp member with rfl | behind
      · exact ⟨entry.2, List.mem_cons_self⟩
      · rcases ih behind with ⟨frame, found⟩
        by_cases same : entry.1 = first.1
        · exact ⟨first.2, by rw [same]; exact List.mem_cons_self⟩
        · exact ⟨frame, List.mem_cons_of_mem _ (List.mem_filter.mpr ⟨found, by simpa using same⟩)⟩

/-- The frames whose places lie behind those of all frames in front of them. -/
def keptBehind (previous? : Option Nat) : List (Nat × Frame) → List (Nat × Frame)
  | [] => []
  | (place, frame) :: rest =>
      if ∀ previous ∈ previous?, previous < place then
        (place, frame) :: keptBehind (some place) rest
      else keptBehind previous? rest

theorem ascend_keptBehind (previous? : Option Nat) (frames : List (Nat × Frame)) :
    Ascend previous? (keptBehind previous? frames) := by
  induction frames generalizing previous? with
  | nil => trivial
  | cons entry rest ih =>
      rw [keptBehind]
      split
      · rename_i behind
        exact ⟨behind, ih _⟩
      · exact ih _

theorem keptBehind_some {previous : Nat} {frames : List (Nat × Frame)}
    (ordered : (previous :: frames.map Prod.fst).Pairwise (· ≤ ·)) :
    keptBehind (some previous) frames =
      (firstAtEach frames).filter fun other => other.1 ≠ previous := by
  induction frames generalizing previous with
  | nil => rfl
  | cons entry rest ih =>
      rcases entry with ⟨place, frame⟩
      rw [List.map_cons, List.pairwise_cons] at ordered
      have further := ih ordered.2
      have notBefore : previous ≤ place := ordered.1 place List.mem_cons_self
      rw [keptBehind, firstAtEach]
      rcases Nat.lt_or_eq_of_le notBefore with before | rfl
      · -- Nothing behind has the earlier place.
        have others : ∀ other ∈ firstAtEach rest, other.1 ≠ previous := by
          intro other member
          have reached := (List.pairwise_cons.mp ordered.2).1 other.1
            (List.mem_map_of_mem (mem_of_mem_firstAtEach member))
          omega
        rw [if_pos (by simpa using before), further, List.filter_cons_of_pos (by simp; omega),
          List.filter_filter]
        congr 1
        refine List.filter_congr fun other member => ?_
        simp [others other member]
      · rw [if_neg (by simp), further, List.filter_cons_of_neg (by simp), List.filter_filter]
        simp

/-- If places never shrink, what stays is the first frame at each place. -/
theorem keptBehind_none {frames : List (Nat × Frame)}
    (ordered : (frames.map Prod.fst).Pairwise (· ≤ ·)) :
    keptBehind none frames = firstAtEach frames := by
  cases frames with
  | nil => rfl
  | cons entry rest =>
      rw [keptBehind, if_pos (by simp), keptBehind_some ordered, firstAtEach]

end Frame

/-! ### Reading a table -/

namespace ClassImage

open ClassFile.Frame

/-- Whether frames are read one after the other from an offset to a stop; the places are counted from
that of the frame in front. -/
inductive FramesAt (image : ClassImage) :
    Option Nat → CodeBody → Nat → List (Label × Frame) → CodeBody → Nat → Prop where
  | none {previous? : Option Nat} {body : CodeBody} {offset : Nat} :
      FramesAt image previous? body offset [] body offset
  | more {previous? : Option Nat} {body next later : CodeBody} {offset stop place : Nat}
      {entry : FrameEntry} {rest : List (Label × Frame)}
      (read : image.frameEntry offset body = .ok entry)
      (counted : placeBehind previous? entry.delta = place)
      (inside : place < entry.body.code.length) (marked : entry.body.mark place offset = .ok next)
      (others : FramesAt image (some place) next entry.next rest later stop) :
      FramesAt image previous? body offset ((place, entry.frame) :: rest) later stop

variable {image : ClassImage} {body later : CodeBody} {offset : Nat}

theorem readFrames_succ (previous? : Option Nat) (found : List (Label × Frame)) (count : Nat) :
    image.readFrames offset previous? found body (count + 1) = (do
      let entry ← image.frameEntry offset body
      let place := placeBehind previous? entry.delta
      if entry.body.code.length ≤ place then
        throw ((ClassError.badBranchTarget place offset).orOverflow Input.maxOffset place)
      let next ← entry.body.mark place offset
      image.readFrames entry.next (some place) ((place, entry.frame) :: found) next count) := by
  cases previous? <;> rfl

/-- A table is read if its frames are, one after the other. -/
theorem readFrames_eq_ok {previous? : Option Nat} {found frames : List (Label × Frame)} {count : Nat} :
    image.readFrames offset previous? found body count = .ok (frames, later) ↔
      ∃ read stop, read.length = count ∧ frames = found.reverse ++ read ∧
        image.FramesAt previous? body offset read later stop := by
  induction count generalizing offset previous? found body with
  | zero =>
      simp only [readFrames, Except.ok.injEq, Prod.mk.injEq]
      constructor
      · rintro ⟨rfl, rfl⟩
        exact ⟨[], offset, rfl, by simp, .none⟩
      · rintro ⟨read, stop, empty, rfl, stands⟩
        obtain rfl := List.length_eq_zero_iff.mp empty
        cases stands
        simp
  | succ count ih =>
      simp only [readFrames_succ, bind_eq_ok]
      constructor
      · rintro ⟨entry, readEntry, rest⟩
        split at rest
        · cases rest
        · rename_i notOutside
          simp only [bind_eq_ok] at rest
          rcases rest with ⟨next, marked, others⟩
          rcases ih.mp others with ⟨read, stop, rfl, rfl, stands⟩
          exact ⟨_, stop, rfl, by simp, .more readEntry rfl (Nat.lt_of_not_le notOutside) marked stands⟩
      · rintro ⟨read, stop, counted, rfl, stands⟩
        cases stands with
        | none => cases counted
        | @more _ _ next _ _ _ _ entry rest readEntry here inside marked others =>
            subst here
            refine ⟨entry, readEntry, ?_⟩
            rw [if_neg (Nat.not_le.mpr inside)]
            simp only [bind_eq_ok]
            exact ⟨next, marked, ih.mpr ⟨rest, stop, Nat.succ.inj counted, by simp, others⟩⟩

end ClassImage

namespace CodeLayout.IsBounded

open ClassFile.Frame ClassImage

variable {image : ClassImage} {layout : CodeLayout} {body : CodeBody} {offset : Nat} {bytes : List UInt8}

/-- Frames that are stored with their distances are read at their places. -/
theorem framesAt_of_spells (bounded : layout.IsBounded) (fits : body.code.length = layout.code.size)
    {previous? : Option Nat} {frames : List (Nat × Frame)} (ascend : Ascend previous? frames)
    (inside : ∀ entry ∈ frames, entry.1 < layout.code.size)
    (spelled : SpellsAll (SpellsWithGap image.pool layout.offsets.place?)
      (withGaps previous? frames) bytes)
    (held : image.input.HasAt offset bytes) :
    ∃ later, image.FramesAt previous? body offset
      (frames.map fun entry => (entry.1, entry.2.mapValues (FrameValue.relabel layout.placeOf))) later
        (offset + bytes.length) := by
  induction frames generalizing previous? body offset bytes with
  | nil =>
      rcases spelled with ⟨chunks, ⟨⟩, rfl⟩
      exact ⟨body, .none⟩
  | cons entry rest ih =>
      rcases entry with ⟨place, frame⟩
      rcases spellsAll_cons.mp spelled with ⟨first, others, spelledFirst, spelledRest, rfl⟩
      rw [List.forall_mem_cons] at inside
      have small : (gap previous? place).toUInt16.toNat = gap previous? place := by
        have size := bounded.size_le
        have less := gap_le previous? place
        have before := inside.1
        rw [maxCodeLength] at size
        rw [Nat.toUInt16_eq, UInt16.toNat_ofNat']
        dsimp only at before
        omega
      have here := placeBehind_gap ascend.1
      rcases bounded.frameEntry_of_spells fits spelledFirst held.left with ⟨marked, read⟩
      dsimp only at read
      rw [small] at read
      have fitsMarked : marked.code.length = layout.code.size := by
        rw [(marks_of_frameEntry read).1.code, fits]
      rcases marked.mark_of_le (fitsMarked ▸ Nat.le_of_lt inside.1) offset with ⟨next, marks⟩
      have fitsNext : next.code.length = layout.code.size := by
        rw [(CodeBody.marks_of_mark marks).1.code, fitsMarked]
      rcases ih fitsNext ascend.2 inside.2 spelledRest held.right with ⟨later, readRest⟩
      refine ⟨later, ?_⟩
      rw [List.length_append, ← Nat.add_assoc]
      exact .more read here (fitsMarked ▸ inside.1) marks readRest

end CodeLayout.IsBounded

end ClassFile
