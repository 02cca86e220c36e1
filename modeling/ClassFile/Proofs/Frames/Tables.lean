import ClassFile.Proofs.Frames.Places
import ClassFile.Proofs.Image.Marks

/-!
# Tables of stack map frames

The frames of a body are those of the last table among its attributes
(`ClassImage.areLastFrames_of_codeBody`).  Their places ascend and lie in the code, but an
instruction need not start there.
-/

namespace ClassFile

namespace Frame

theorem Ascend.pairwise {previous? : Option Nat} {frames : List (Nat × Frame)}
    (ascend : Ascend previous? frames) :
    (∀ previous ∈ previous?, ∀ entry ∈ frames, previous < entry.1) ∧
      frames.Pairwise fun first second => first.1 < second.1 := by
  induction frames generalizing previous? with
  | nil => simp
  | cons entry rest ih =>
      rcases ih ascend.2 with ⟨behind, others⟩
      have later := behind entry.1 rfl
      refine ⟨fun previous isPrevious => ?_, List.pairwise_cons.mpr ⟨later, others⟩⟩
      have before := ascend.1 previous isPrevious
      exact List.forall_mem_cons.mpr
        ⟨before, fun other member => Nat.lt_trans before (later other member)⟩

end Frame

namespace ClassImage

open CodeBody ClassFile.Frame

variable {image : ClassImage} {options : ReadOptions} {body later : CodeBody} {offset : Nat}
  {frames : List (Label × Frame)}

theorem FramesAt.ascend {previous? : Option Nat} {stop : Nat}
    (stand : image.FramesAt previous? body offset frames later stop) : Ascend previous? frames := by
  induction stand with
  | none => trivial
  | @more previous? _ _ _ _ _ place entry _ _ counted _ _ _ ih =>
      refine ⟨fun previous isPrevious => ?_, ih⟩
      rw [isPrevious, placeBehind] at counted
      omega

theorem FramesAt.lt_length {previous? : Option Nat} {stop : Nat}
    (stand : image.FramesAt previous? body offset frames later stop) :
    ∀ entry ∈ frames, entry.1 < body.code.length := by
  induction stand with
  | none => simp
  | more read _ inside marked _ ih =>
      have first := (marks_of_frameEntry read).1.code
      have second := (marks_of_mark marked).1.code
      rw [second, first] at ih
      rw [first] at inside
      exact List.forall_mem_cons.mpr ⟨inside, ih⟩

/-- Whether frames are read from a table, at their places in a code array. -/
def HasTable (image : ClassImage) (code : CodeArray) (offset : Nat) (frames : List (Label × Frame)) :
    Prop :=
  ∃ count body later stop, image.input.u16 offset = .ok count ∧ frames.length = count.toNat ∧
    body.code = code ∧ image.FramesAt none body (offset + 2) frames later stop

/-- The last table of frames among attributes. -/
def lastTable? (attributes : List RawAttribute) : Option RawAttribute :=
  (attributes.filter fun entry => entry.kind? = some .stackMapTable).getLast?

/-- Whether frames are those of the last table among attributes.  Without a table there are none. -/
def AreLastFrames (image : ClassImage) (code : CodeArray) (attributes : List RawAttribute)
    (frames : List (Label × Frame)) : Prop :=
  match lastTable? attributes with
  | none => frames = []
  | some table => image.HasTable code table.offset frames

/-- The places of frames ascend, and lie in the code. -/
theorem AreLastFrames.places {code : CodeArray} {attributes : List RawAttribute}
    (last : image.AreLastFrames code attributes frames) :
    (frames.Pairwise fun first second => first.1 < second.1) ∧
      ∀ entry ∈ frames, entry.1 < code.length := by
  unfold AreLastFrames at last
  split at last
  · simp [last]
  · rcases last with ⟨_, _, _, _, -, -, rfl, stand⟩
    exact ⟨stand.ascend.pairwise.2, stand.lt_length⟩

theorem frames_of_markAnnotations {visible : Bool} {count : Nat}
    (marked : image.markAnnotations visible offset body count = .ok later) :
    later.frames = body.frames := by
  induction count generalizing offset body with
  | zero =>
      cases marked
      rfl
  | succ count ih =>
      simp only [markAnnotations, bind_eq_ok] at marked
      rcases marked with ⟨head, -, next, -, one, markedRanges, others⟩
      exact (ih others).trans (marks_of_markRanges markedRanges).1.frames

/-- A table brings its frames, and no other attribute changes them. -/
theorem frames_of_markAttribute {entry : RawAttribute} (asked : options.skipFrames = false)
    (marked : image.markAttribute options body entry = .ok later) :
    if entry.kind? = some .stackMapTable then image.HasTable body.code entry.offset later.frames
    else later.frames = body.frames := by
  unfold markAttribute at marked
  split at marked
  case h_4 isTable =>
      rw [asked] at marked
      simp only [Bool.false_eq_true, if_false, bind_eq_ok, pure_eq_ok] at marked
      rcases marked with ⟨count, counted, ⟨frames, one⟩, read, rfl⟩
      rcases readFrames_eq_ok.mp read with ⟨entries, stop, length, rfl, stand⟩
      rw [if_pos isTable]
      exact ⟨count, body, one, stop, counted, length, rfl, stand⟩
  case h_7 isOther _ _ =>
      rw [if_neg (by simpa using isOther)]
      cases marked
      rfl
  all_goals
    rename_i kind
    rw [if_neg (by simp [kind])]
    split at marked
    · cases marked
      rfl
  · simp only [bind_eq_ok] at marked
    rcases marked with ⟨count, -, marked⟩
    exact (marks_of_markLines marked).frames
  · simp only [bind_eq_ok, pure_eq_ok] at marked
    rcases marked with ⟨count, -, one, marked, rfl⟩
    exact (marks_of_markVariables marked).1.frames
  · cases marked
    rfl
  all_goals
    simp only [bind_eq_ok] at marked
    rcases marked with ⟨count, -, marked⟩
    exact frames_of_markAnnotations marked

/-- The frames that the first pass finds are those of the last table. -/
theorem areLastFrames_of_markAttributes {attributes : List RawAttribute}
    (asked : options.skipFrames = false) (isMarked : body.IsMarked image) (none : body.frames = [])
    (marked : attributes.foldlM (image.markAttribute options) body = .ok later) :
    image.AreLastFrames body.code attributes later.frames := by
  induction attributes using List.reverseRecOn generalizing later with
  | nil =>
      cases marked
      exact none
  | append_singleton rest entry ih =>
      simp only [List.foldlM_append, List.foldlM_cons, List.foldlM_nil, bind_eq_ok, pure_eq_ok]
        at marked
      rcases marked with ⟨between, markedRest, _, markedEntry, rfl⟩
      have before := ih markedRest
      have here := frames_of_markAttribute asked markedEntry
      rw [(continues_of_markAttributes isMarked markedRest).1.code] at here
      unfold AreLastFrames lastTable? at before ⊢
      rw [List.filter_append]
      by_cases isTable : entry.kind? = some .stackMapTable
      · rw [if_pos isTable] at here
        simpa [isTable] using here
      · rw [if_neg isTable] at here
        simpa [isTable, here] using before

theorem areLastFrames_of_codeBody {entry : RawAttribute} (asked : options.skipFrames = false)
    (found : image.codeBody options entry = .ok body) :
    ∃ attributes stop, rawAttributes image.pool (body.handlersOffset + body.handlers * 8) =
        .ok (attributes, stop) ∧ image.AreLastFrames body.code attributes body.frames := by
  simp only [codeBody, bind_eq_ok] at found
  rcases found with ⟨maxStack, -, maxLocals, -, length, -, found⟩
  split at found
  · cases found
  simp only [bind_eq_ok] at found
  rcases found with ⟨⟨labels, last⟩, -, found⟩
  split at found
  · cases found
  simp only [bind_eq_ok] at found
  rcases found with ⟨handlers, -, one, marksHandlers, ⟨attributes, stop⟩, listed, marked⟩
  have start : CodeBody.IsMarked image
      { maxStack, maxLocals, code := ⟨entry.offset + 8, length.toNat⟩, labels,
        handlers := handlers.toNat } :=
    ⟨by simp [FramesMarked], by simp, by simp⟩
  have marks := (marks_of_markHandlers marksHandlers).1
  have isMarked := marks.isMarked start
  have continues := (continues_of_markAttributes isMarked marked).1
  have lastFrames := areLastFrames_of_markAttributes asked isMarked marks.frames marked
  refine ⟨attributes, stop, ?_, ?_⟩
  · rw [handlersOffset, continues.code, continues.handlers, marks.handlers]
    exact listed
  · rwa [continues.code]

end ClassImage

end ClassFile
