import ClassFile.Proofs.Frames.Steps
import ClassFile.Proofs.Frames.Tables
import Mathlib.Data.List.TakeWhile

/-!
# Frames in the story of a method

The second pass over a body goes along the instructions and tells the next frame when it comes by its
place.  A frame at a place where no instruction starts is never told, nor is any frame behind it; the
frames in front of it are told right before the instructions at their places
(`ClassImage.codeSteps_of_mem_script`).
-/

namespace ClassFile

namespace ClassImage

open Emit Item

/-! ### Frames between instructions -/

section Placing

/-- Instructions with the frames of their places in front of them. -/
def withFrames (frames : List (Label × Frame)) (entries : List (Label × Instruction)) :
    List Instruction :=
  entries.flatMap fun entry =>
    (frames.filter fun frame => frame.1 = entry.1).map (fun frame => .frame frame.2) ++ [entry.2]

/-- The frames in front of the first that stands where no instruction starts. -/
def reached (frames : List (Label × Frame)) (entries : List (Label × Instruction)) :
    List (Label × Frame) :=
  frames.takeWhile fun frame => frame.1 ∈ entries.map Prod.fst

variable {frames : List (Label × Frame)} {entry : Label × Instruction}
  {rest : List (Label × Instruction)}

theorem reached_cons_of_lt (above : ∀ frame ∈ frames, entry.1 < frame.1) :
    reached frames (entry :: rest) = reached frames rest := by
  induction frames with
  | nil => rfl
  | cons frame frames ih =>
      rw [List.forall_mem_cons] at above
      have others := ih above.2
      have elsewhere : frame.1 ≠ entry.1 := Nat.ne_of_gt above.1
      simp only [reached, List.map_cons, List.mem_cons] at others ⊢
      rw [List.takeWhile_cons, List.takeWhile_cons, others]
      simp only [elsewhere, false_or]

theorem withFrames_cons_of_lt (above : ∀ frame ∈ frames, entry.1 < frame.1) :
    withFrames frames (entry :: rest) = entry.2 :: withFrames frames rest := by
  have none : (frames.filter fun frame => frame.1 = entry.1) = [] := by
    rw [List.filter_eq_nil_iff]
    intro frame member
    simpa using Nat.ne_of_gt (above frame member)
  rw [withFrames, List.flatMap_cons, none]
  rfl

theorem withFrames_cons_of_eq {frame : Label × Frame} (here : frame.1 = entry.1)
    (behind : ∀ other ∈ rest, entry.1 < other.1) :
    withFrames (frame :: frames) (entry :: rest) =
      .frame frame.2 :: withFrames frames (entry :: rest) := by
  have others : withFrames (frame :: frames) rest = withFrames frames rest := by
    refine List.flatMap_congr fun other member => ?_
    have elsewhere : frame.1 ≠ other.1 := here ▸ Nat.ne_of_lt (behind other member)
    rw [List.filter_cons_of_neg (by simpa using elsewhere)]
  unfold withFrames at others ⊢
  rw [List.flatMap_cons, List.flatMap_cons, others, List.filter_cons_of_pos (by simpa using here)]
  rfl

theorem reached_eq_nil {frame : Label × Frame} (elsewhere : ∀ other ∈ rest, frame.1 ≠ other.1) :
    reached (frame :: frames) rest = [] := by
  have notIn : frame.1 ∉ rest.map Prod.fst := by
    rw [List.mem_map]
    rintro ⟨other, member, same⟩
    exact elsewhere other member same.symm
  rw [reached, List.takeWhile_cons_of_neg (by simpa using notIn)]

/-- Going by an instruction, the frame of its place is taken from the front of the list.  A frame that
was left behind stays there. -/
theorem withFrames_reached_cons (ordered : frames.Pairwise fun first second => first.1 < second.1)
    (behind : ∀ other ∈ rest, entry.1 < other.1) :
    withFrames (reached frames (entry :: rest)) (entry :: rest) =
      (frames.takeWhile fun frame => frame.1 = entry.1).map (fun frame => .frame frame.2) ++
        entry.2 :: withFrames (reached (frames.dropWhile fun frame => frame.1 = entry.1) rest) rest := by
  have passed {others : List (Label × Frame)} (above : ∀ frame ∈ others, entry.1 < frame.1) :
      withFrames (reached others (entry :: rest)) (entry :: rest) =
        entry.2 :: withFrames (reached others rest) rest := by
    rw [reached_cons_of_lt above, withFrames_cons_of_lt]
    exact fun frame member => above frame ((List.takeWhile_prefix _).subset member)
  cases frames with
  | nil => exact passed (by simp)
  | cons frame others =>
      have above : ∀ other ∈ others, frame.1 < other.1 := (List.pairwise_cons.mp ordered).1
      rcases Nat.lt_trichotomy frame.1 entry.1 with left | here | before
      · have never : ∀ other ∈ entry :: rest, frame.1 ≠ other.1 :=
          List.forall_mem_cons.mpr ⟨Nat.ne_of_lt left, fun other member =>
            Nat.ne_of_lt (Nat.lt_trans left (behind other member))⟩
        rw [List.takeWhile_cons_of_neg (by simpa using Nat.ne_of_lt left),
          List.dropWhile_cons_of_neg (by simpa using Nat.ne_of_lt left), reached_eq_nil never,
          reached_eq_nil (List.forall_mem_cons.mp never).2]
        exact withFrames_cons_of_lt (by simp)
      · rw [here] at above
        have first : reached (frame :: others) (entry :: rest) = frame :: reached others (entry :: rest) := by
          simp [reached, here]
        have none : (others.takeWhile fun other => other.1 = entry.1) = [] ∧
            (others.dropWhile fun other => other.1 = entry.1) = others := by
          cases others with
          | nil => exact ⟨rfl, rfl⟩
          | cons other others =>
              have elsewhere : other.1 ≠ entry.1 := Nat.ne_of_gt (above other List.mem_cons_self)
              simp [elsewhere]
        rw [first, withFrames_cons_of_eq here behind, passed above]
        simp [here, none]
      · have all : ∀ other ∈ frame :: others, entry.1 < other.1 :=
          List.forall_mem_cons.mpr ⟨before, fun other member => Nat.lt_trans before (above other member)⟩
        rw [passed all, List.takeWhile_cons_of_neg (by simpa using Nat.ne_of_gt before),
          List.dropWhile_cons_of_neg (by simpa using Nat.ne_of_gt before)]
        rfl

end Placing

/-! ### The second pass -/

section Passes

variable {image : ClassImage} {options : ReadOptions} {body : CodeBody}

/-- The second pass tells the instructions that it reads, and the frames that it reaches. -/
theorem Reads.givesSteps_tellInstructions {api : Api} {pc : Nat} {entries : List (Label × Instruction)}
    {annotations : Std.HashMap Label (Array CodeAnnotation)} {frames : List (Label × Frame)}
    (reads : Reads image api body.code body.code.stop pc entries) (begun : body.code.start ≤ pc)
    (ordered : frames.Pairwise fun first second => first.1 < second.1) (fuel : Nat) :
    GivesSteps (withFrames (reached frames entries) entries)
      (image.tellInstructions api body annotations pc frames fuel) := by
  induction fuel generalizing pc entries frames with
  | zero =>
      unfold ClassImage.tellInstructions
      split
      · exact Gives.throw _
      · rename_i outside
        cases reads with
        | done => exact GivesSteps.pure _
        | step inside => exact absurd inside outside
  | succ fuel ih =>
      unfold ClassImage.tellInstructions
      cases reads with
      | done =>
          rw [if_neg (Nat.lt_irrefl _)]
          exact GivesSteps.pure _
      | @step _ next instruction rest inside wellFormed read others =>
          rw [if_pos inside]
          have longer := lt_of_readInstruction read
          have behind : ∀ other ∈ rest, pc - body.code.start < other.1 := by
            intro other member
            have later := others.le_place (by omega) other member
            omega
          have laterFrames := ordered.sublist
            (List.dropWhile_sublist fun frame : Label × Frame => decide (frame.1 = pc - body.code.start))
          have here : GivesSteps [instruction] (tellInstruction instruction) :=
            Gives.tell (codeSteps_instruction (fits_of_readInstruction read).1)
          rw [withFrames_reached_cons ordered behind, ← codeSteps_frames]
          refine Gives.bind_lift fun position found => ?_
          obtain rfl := (CodeArray.position_eq_ok.mp found).2
          refine IsSilent.then (silent_tellLabel _) fun _ => ?_
          refine GivesSteps.bind_emits (emits_tellFrames _ frames) ?_
          refine Gives.bind_lift fun both readAgain => ?_
          cases read.symm.trans readAgain
          refine here.bind fun _ => ?_
          refine IsSilent.then (GivesEach.forM fun note _ => silent_tellCodeNote _ note) fun _ => ?_
          exact ih others (by omega) laterFrames

/-- The body of a method is told with the instructions that are read and the frames that are reached. -/
theorem Reads.givesSteps_tellCode {entry : RawAttribute} {entries : List (Label × Instruction)}
    (found : image.codeBody options entry = .ok body)
    (reads : Reads image options.api body.code body.code.stop body.code.start entries)
    (ordered : body.frames.Pairwise fun first second => first.1 < second.1) :
    GivesSteps (withFrames (reached body.frames entries) entries) (image.tellCode options entry) := by
  have isMarked := (codeBody_marks found).1
  have rest : GivesSteps [] (do
      image.tellVariableTable body
      image.tellVariableAnnotations body entry.offset
      image.tellOthers options true body.common
      tellItem (.maxs body.maxStack body.maxLocals)) := by
    refine IsSilent.then (silent_atTurn gives_tellVariableTable (by decide)) fun _ => ?_
    refine IsSilent.then (silent_atTurn (gives_tellVariableAnnotations isMarked _) (by decide)) fun _ => ?_
    exact IsSilent.then (silent_tellOthers true body.common) fun _ => Gives.tell rfl
  refine Gives.bind_lift fun other foundAgain => ?_
  cases found.symm.trans foundAgain
  refine IsSilent.then (GivesEach.tell rfl) fun _ => ?_
  refine IsSilent.then (silent_atTurn (gives_tellHandlers _ _ _) (by decide)) fun _ => ?_
  refine IsSilent.then (silent_atTurn (gives_tellHandlerAnnotations isMarked) (by decide)) fun _ => ?_
  rw [← List.append_nil (withFrames _ _)]
  refine (reads.givesSteps_tellInstructions (Nat.le_refl _) ordered _).bind fun _ => ?_
  dsimp only
  split
  · exact IsSilent.then (GivesEach.tell rfl) fun _ => rest
  · exact rest

/-- Whether a story tells the instructions of a body, and in front of each the frame of its place in the
last table, up to the first frame at a place where no instruction starts. -/
structure TellsFrames (image : ClassImage) (options : ReadOptions) (body : CodeBody)
    (attributes : List RawAttribute) (entries : List (Label × Instruction)) (script : Script) : Prop where
  listed : ∃ stop, rawAttributes image.pool (body.handlersOffset + body.handlers * 8) =
    .ok (attributes, stop)
  last : image.AreLastFrames body.code attributes body.frames
  reads : Reads image options.api body.code body.code.stop body.code.start entries
  steps : codeSteps script = withFrames (reached body.frames entries) entries

/-- If an instruction starts at the place of every frame, all frames are told. -/
theorem TellsFrames.steps_of_boundaries {attributes : List RawAttribute}
    {entries : List (Label × Instruction)} {script : Script}
    (tells : image.TellsFrames options body attributes entries script)
    (boundaries : ∀ frame ∈ body.frames, image.IsBoundary body.code (body.code.start + frame.1)) :
    codeSteps script = withFrames body.frames entries := by
  have all : reached body.frames entries = body.frames := by
    refine List.takeWhile_eq_self_iff.mpr fun frame member => decide_eq_true ?_
    have inside := tells.last.places.2 frame member
    have known := tells.reads.isBoundary_iff.mp (boundaries frame member)
    rw [List.mem_append, List.mem_singleton] at known
    exact known.resolve_right (Nat.ne_of_lt inside)
  rw [tells.steps, all]

theorem codeSteps_of_tellMethodBody {attributes : MethodAttributes} {script : Script}
    (asked : options.skipFrames = false)
    (told : (image.tellMethodBody options attributes).collect = (script, .ok ())) :
    (codeSteps script = [] ∧ (options.skipCode = true ∨ attributes.code? = none)) ∨
      ∃ entry found others entries, attributes.code? = some entry ∧
        image.codeBody options entry = .ok found ∧
        image.TellsFrames options found others entries script := by
  rw [tellMethodBody_eq] at told
  have front : IsSilent (image.tellMethodFront options attributes) := silent_tellMethodFront attributes
  have bodiless (nothing : (if options.skipCode then pure () else
      attributes.code?.elim (pure ()) (image.tellCode options)) = (pure () : Emit Unit)) :
      codeSteps script = [] := by
    rw [nothing] at told
    exact (front.then fun _ => GivesSteps.pure ()).collect told
  cases skips : options.skipCode with
  | true => exact .inl ⟨bodiless (by rw [skips]; rfl), .inl rfl⟩
  | false =>
      cases isCode : attributes.code? with
      | none => exact .inl ⟨bodiless (by rw [skips, isCode]; rfl), .inr rfl⟩
      | some entry =>
          rw [skips, isCode] at told
          rcases tells_bind.mp (collect_eq_ok.mp told) with ⟨_, _, _, toldCode⟩
          rcases told_of_tellCode toldCode with ⟨found, entries, _, read, reads, -⟩
          rcases areLastFrames_of_codeBody asked read with ⟨others, stop, listed, last⟩
          have steps := reads.givesSteps_tellCode read last.places.1
          exact .inr ⟨entry, found, others, entries, rfl, read, ⟨stop, listed⟩, last, reads,
            (front.then fun _ => steps).collect told⟩

/-- Every method that is told whole tells its instructions with the frames of its last table, up to the
first frame at a place where no instruction starts.  That frame and all behind it are left out. -/
theorem codeSteps_of_mem_script {header : MethodHeader} {body : Script}
    (asked : options.skipFrames = false) (member : .scope (.method header) body ∈ image.script options)
    (whole : ∀ cause, .fault cause ∉ body) :
    ∃ attributes, body = (image.tellMethodBody options attributes).script ∧
      ((codeSteps body = [] ∧ (options.skipCode = true ∨ attributes.code? = none)) ∨
        ∃ entry found others entries, attributes.code? = some entry ∧
          image.codeBody options entry = .ok found ∧
          image.TellsFrames options found others entries body ∧
          ((∀ frame ∈ found.frames, image.IsBoundary found.code (found.code.start + frame.1)) →
            codeSteps body = withFrames found.frames entries)) := by
  have only : Only (image.IsMethodStory options) (image.tell options) :=
    only_tell allows_isMethodStory isMethodStory_method
  rcases only.collect _ member with isStory | ⟨cause, ⟨⟩⟩
  rcases isStory header body rfl with ⟨attributes, rfl⟩
  refine ⟨attributes, rfl, ?_⟩
  rcases codeSteps_of_tellMethodBody asked (collect_of_no_fault whole) with
    none | ⟨entry, found, others, entries, isCode, read, tells⟩
  · exact .inl none
  · exact .inr ⟨entry, found, others, entries, isCode, read, tells, tells.steps_of_boundaries⟩

/-! ### Frames that are left out -/

theorem exists_emits_tellLabel (body : CodeBody) (position : Label) :
    ∃ told : List Instruction, Emits (tellLabel body position) () (told.map instructionItem) := by
  unfold tellLabel
  split
  · refine ⟨.label position :: (body.lines.getD position #[]).toList.map (.line · position), ?_⟩
    rw [List.map_cons, List.map_map]
    exact (emits_tell _).bind (emits_forM fun line _ => emits_tell _)
  · exact ⟨[], emits_pure ()⟩

/-- Instructions, line numbers and frames are told, if there are no annotations. -/
theorem Reads.exists_emits {api : Api} {pc fuel : Nat} {entries : List (Label × Instruction)}
    {frames : List (Label × Frame)}
    (reads : Reads image api body.code body.code.stop pc entries) (begun : body.code.start ≤ pc)
    (enough : entries.length ≤ fuel) :
    ∃ told : List Instruction, Emits (image.tellInstructions api body ∅ pc frames fuel) ()
      (told.map instructionItem) := by
  induction fuel generalizing pc entries frames with
  | zero =>
      cases reads with
      | done =>
          rw [ClassImage.tellInstructions, if_neg (Nat.lt_irrefl _)]
          exact ⟨[], emits_pure ()⟩
      | step => simp at enough
  | succ fuel ih =>
      cases reads with
      | done =>
          rw [ClassImage.tellInstructions, if_neg (Nat.lt_irrefl _)]
          exact ⟨[], emits_pure ()⟩
      | @step _ next instruction rest inside wellFormed read others =>
          have longer := lt_of_readInstruction read
          rw [ClassImage.tellInstructions, if_pos inside]
          rcases @ih next rest (frames.dropWhile fun frame => decide (frame.1 = pc - body.code.start))
            others (by omega) (Nat.le_of_succ_le_succ enough) with ⟨told, emits⟩
          rcases exists_emits_tellLabel body (pc - body.code.start) with ⟨front, emitsFront⟩
          refine ⟨front ++ ((frames.takeWhile fun frame => decide (frame.1 = pc - body.code.start)).map
            (fun frame => .frame frame.2) ++ instruction :: told), ?_⟩
          refine Emits.bind_lift (CodeArray.position_eq_ok.mpr ⟨begun, rfl⟩) ?_
          rw [List.map_append, List.map_append, List.map_cons, List.map_map]
          refine emitsFront.bind ((emits_tellFrames _ frames).bind ?_)
          refine Emits.bind_lift read ((emits_tell _).bind ?_)
          rw [Std.HashMap.getD_empty]
          exact (emits_pure ()).bind emits

/-- A body without annotations and without attributes of no known kind is told, if its handlers and its
local variables are. -/
theorem Reads.exists_emits_tellCode {entry : RawAttribute} {entries : List (Label × Instruction)}
    {handlers locals : List Item} (found : image.codeBody options entry = .ok body)
    (reads : Reads image options.api body.code body.code.stop body.code.start entries)
    (plain : body.annotations = #[] ∧ body.common = {})
    (tellsHandlers : Emits (image.tellHandlers body.code body.handlersOffset body.handlers) () handlers)
    (tellsLocals : Emits (image.tellVariableTable body) () locals) :
    ∃ told : List Instruction, Emits (image.tellCode options entry) () (.event (.methodItem .code) ::
      (handlers ++ (told.map instructionItem ++
        (locals ++ [.event (.methodItem (.maxs body.maxStack body.maxLocals))])))) := by
  have enough : entries.length ≤ body.code.length := by
    have before := reads.length_le
    rw [CodeArray.stop] at before
    omega
  rcases @Reads.exists_emits image body options.api body.code.start body.code.length entries body.frames
    reads (Nat.le_refl _) enough with ⟨told, emits⟩
  let last : List Instruction :=
    if body.labels.contains body.code.length then [.label body.code.length] else []
  have noNotes : instructionAnnotations body = ∅ := by
    rw [instructionAnnotations, plain.1]
    rfl
  have handlerNotes : Emits (image.tellHandlerAnnotations body) () [] := by
    rw [tellHandlerAnnotations, plain.1]
    exact emits_pure ()
  have localNotes : Emits (image.tellVariableAnnotations body entry.offset) () [] := by
    rw [tellVariableAnnotations, plain.1]
    exact emits_pure ()
  have others : Emits (image.tellOthers options true body.common) () [] := by
    rw [plain.2]
    exact emits_pure ()
  have ends : Emits (do
      image.tellVariableTable body
      image.tellVariableAnnotations body entry.offset
      image.tellOthers options true body.common
      tellItem (.maxs body.maxStack body.maxLocals)) ()
      (locals ++ [.event (.methodItem (.maxs body.maxStack body.maxLocals))]) :=
    tellsLocals.bind (localNotes.bind (others.bind (emits_tell _)))
  refine ⟨told ++ last, ?_⟩
  rw [List.map_append, List.append_assoc]
  refine Emits.bind_lift found ((emits_tell _).bind (tellsHandlers.bind ?_))
  rw [noNotes]
  refine handlerNotes.bind (emits.bind ?_)
  dsimp only [last]
  split
  · exact (emits_tell _).bind ends
  · exact ends

/-- The first pass finds a body where its parts are read. -/
theorem codeBody_eq_ok {maxStack maxLocals count : UInt16} {length : UInt32} {code : CodeArray}
    {entry : RawAttribute} {labels : LabelSet} {one : CodeBody} {attributes : List RawAttribute} {stop : Nat}
    (stack : image.input.u16 entry.offset = .ok maxStack)
    (locals : image.input.u16 (entry.offset + 2) = .ok maxLocals)
    (read : image.input.u32 (entry.offset + 4) = .ok length)
    (isCode : code = ⟨entry.offset + 8, length.toNat⟩) (filled : length.toNat ≠ 0)
    (inside : code.stop ≤ entry.offset + entry.length)
    (marks : image.markInstructions code code.start ∅ length.toNat = .ok (labels, code.stop))
    (counted : image.input.u16 code.stop = .ok count)
    (handlers : image.markHandlers (code.stop + 2)
      { maxStack, maxLocals, code, labels, handlers := count.toNat } count.toNat = .ok one)
    (listed : rawAttributes image.pool (one.code.stop + 2 + count.toNat * 8) = .ok (attributes, stop))
    (marked : attributes.foldlM (image.markAttribute options) one = .ok body) :
    image.codeBody options entry = .ok body := by
  subst isCode
  unfold codeBody
  rw [stack, ok_bind, locals, ok_bind, read, ok_bind]
  dsimp only
  rw [if_neg (not_or.mpr ⟨filled, Nat.not_lt.mpr inside⟩), marks, ok_bind]
  dsimp only
  rw [if_neg (not_not.mpr rfl), counted, ok_bind]
  dsimp only [CodeBody.handlersOffset]
  rw [handlers, ok_bind, listed, ok_bind]
  exact marked

end Passes

/-- A class file whose method has frames at 3, 5 and 8.  No instruction starts at 5. -/
def strayFrame : Input :=
  ⟨⟨#[0xCA, 0xFE, 0xBA, 0xBE, 0, 0, 0, 52,
    -- the pool: the name and the class A, the names of the attributes, the descriptor
    0, 6, 1, 0, 1, 65, 7, 0, 1, 1, 0, 4, 67, 111, 100, 101, 1, 0, 3, 40, 41, 86,
    1, 0, 13, 83, 116, 97, 99, 107, 77, 97, 112, 84, 97, 98, 108, 101,
    0, 33, 0, 2, 0, 0, 0, 0, 0, 0,
    0, 1, 0, 9, 0, 1, 0, 4, 0, 1, 0, 3, 0, 0, 0, 32,
    0, 1, 0, 0, 0, 0, 0, 9, 17, 0, 0, 87, 17, 0, 0, 87, 177, 0, 0, 0, 1,
    0, 5, 0, 0, 0, 5, 0, 3, 3, 1, 2,
    0, 0]⟩⟩

def strayFrameImage : ClassImage where
  input := strayFrame
  pool := ⟨strayFrame, #[0, 10, 14, 17, 24, 30], 46, #[]⟩
  version := .standard
  headerOffset := 46
  attributesOffset := 104

def strayFrameHeader : MethodHeader :=
  ⟨9, .ofString "A", .ofString "()V", none, []⟩

def strayFrameEntry : RawAttribute :=
  ⟨3, some .code, 72, 32⟩

def strayFrameCode : CodeBody where
  maxStack := 1
  maxLocals := 0
  code := ⟨80, 9⟩
  labels := ((∅ : LabelSet).insert 3 |>.insert 5).insert 8
  frames := [(3, .same), (5, .same), (8, .same)]

def strayFrameSteps : List (Label × Instruction) :=
  [(0, .int (.short 0)), (3, .simple .pop), (4, .int (.short 0)), (7, .simple .pop),
    (8, .simple .returnVoid)]

theorem reads_strayFrame :
    Reads strayFrameImage .latest strayFrameCode.code strayFrameCode.code.stop 80 strayFrameSteps := by
  have last : Reads strayFrameImage .latest ⟨80, 9⟩ 89 88 [(8, .simple .returnVoid)] :=
    .step (by decide) trivial (show _ = Except.ok (_, 89) from rfl) .done
  have fourth : Reads strayFrameImage .latest ⟨80, 9⟩ 89 87 [(7, .simple .pop), (8, .simple .returnVoid)] :=
    .step (by decide) trivial (show _ = Except.ok (_, 88) from rfl) last
  have third : Reads strayFrameImage .latest ⟨80, 9⟩ 89 84
      [(4, .int (.short 0)), (7, .simple .pop), (8, .simple .returnVoid)] :=
    .step (by decide) trivial (show _ = Except.ok (_, 87) from rfl) fourth
  have second : Reads strayFrameImage .latest ⟨80, 9⟩ 89 83
      [(3, .simple .pop), (4, .int (.short 0)), (7, .simple .pop), (8, .simple .returnVoid)] :=
    .step (by decide) trivial (show _ = Except.ok (_, 84) from rfl) third
  exact .step (by decide) trivial (show _ = Except.ok (_, 83) from rfl) second

theorem rawAttributes_strayFrame :
    rawAttributes strayFrameImage.pool 91 = .ok ([⟨5, some .stackMapTable, 99, 5⟩], 104) := by
  decide +kernel

theorem codeBody_strayFrame : strayFrameImage.codeBody {} strayFrameEntry = .ok strayFrameCode := by
  have marks := @Reads.markInstructions _ _ _ 80 9 _ reads_strayFrame (by decide) (Nat.le_refl _) ∅
  rw [show labelsOf strayFrameSteps = [] from rfl, Std.HashSet.insertMany_nil] at marks
  exact codeBody_eq_ok rfl rfl rfl rfl (by decide) (by decide) marks rfl rfl rawAttributes_strayFrame rfl

theorem exists_script_strayFrame : ∃ told : List Instruction,
    (strayFrameImage.tellMethodBody {} { code? := some strayFrameEntry }).script =
      plainScript 1 0 told := by
  rcases Reads.exists_emits_tellCode codeBody_strayFrame reads_strayFrame ⟨rfl, rfl⟩ (emits_pure ())
    (emits_pure ()) with ⟨told, emits⟩
  have same (image : ClassImage) (entry : RawAttribute) :
      (image.tellMethodBody {} { code? := some entry }).collect = (image.tellCode {} entry).collect := rfl
  refine ⟨told, ?_⟩
  rw [Emit.script, same, emits.collect]
  simp [plainScript, strayFrameCode]

theorem ofInput?_strayFrame : ofInput? strayFrame = .ok strayFrameImage := by
  have step {tag : PoolTag} {index offset size : Nat} {offsets : Array Nat} (inside : index < 6)
      (tagged : Pool.tagAt strayFrame offset = .ok tag) (narrow : tag.isWide = false)
      (sized : Pool.bodySize strayFrame tag (offset + 1) = .ok size) :
      Pool.findEntries strayFrame 6 index offset offsets =
        Pool.findEntries strayFrame 6 (index + 1) (offset + 1 + size) (offsets.push offset) := by
    rw [Pool.findEntries, if_pos inside, tagged, ok_bind, sized]
    simp only [narrow, Bool.false_and]
    rfl
  have found : Pool.findEntries strayFrame 6 1 10 #[0] = .ok (#[0, 10, 14, 17, 24, 30], 46) := by
    rw [step (by decide) rfl rfl rfl, step (by decide) rfl rfl rfl, step (by decide) rfl rfl rfl,
      step (by decide) rfl rfl rfl, step (by decide) rfl rfl rfl, Pool.findEntries]
    rfl
  have pool : Pool.ofInput? strayFrame = .ok strayFrameImage.pool := by
    rw [Pool.ofInput?, show strayFrame.u16 8 = .ok 6 from rfl, ok_bind]
    show (Pool.findEntries strayFrame 6 1 10 #[0] >>= _) = _
    rw [found]
    rfl
  rw [ofInput?, pool]
  rfl

theorem script_strayFrame : strayFrameImage.script {} =
    [.event (.classItem (.header ⟨.standard, 33, .ofString "A", none, none, []⟩)),
      .scope (.method strayFrameHeader)
        (strayFrameImage.tellMethodBody {} { code? := some strayFrameEntry }).script,
      .event .finish] := rfl

theorem strayFrame_mem_script : .scope (.method strayFrameHeader)
    (strayFrameImage.tellMethodBody {} { code? := some strayFrameEntry }).script ∈
      strayFrameImage.script {} := by
  rw [script_strayFrame]
  simp

theorem fault_not_mem_strayFrame (cause : ClassError) : .fault cause ∉
    (strayFrameImage.tellMethodBody {} { code? := some strayFrameEntry }).script := by
  rcases exists_script_strayFrame with ⟨told, script⟩
  rw [script]
  simp [plainScript, instructionItem]

/-- The frames at 5 and 8 are left out. -/
theorem codeSteps_strayFrame :
    codeSteps (strayFrameImage.tellMethodBody {} { code? := some strayFrameEntry }).script =
      [.int (.short 0), .frame .same, .simple .pop, .int (.short 0), .simple .pop,
        .simple .returnVoid] := by
  have told := collect_of_no_fault fault_not_mem_strayFrame
  rcases codeSteps_of_tellMethodBody rfl told with
    ⟨-, skips | bodiless⟩ | ⟨entry, found, others, entries, isCode, read, tells⟩
  · cases skips
  · cases bodiless
  · cases isCode
    rw [codeBody_strayFrame, Except.ok.injEq] at read
    subst read
    rw [tells.steps, tells.reads.unique reads_strayFrame]
    rfl

theorem codeSteps_of_mem_script_strayFrame : ∃ image header body, ofInput? strayFrame = .ok image ∧
    .scope (.method header) body ∈ image.script {} ∧ (∀ cause, .fault cause ∉ body) ∧
      ∃ attributes entry found others entries, body = (image.tellMethodBody {} attributes).script ∧
        attributes.code? = some entry ∧ image.codeBody {} entry = .ok found ∧
          image.TellsFrames {} found others entries body := by
  refine ⟨_, _, _, ofInput?_strayFrame, strayFrame_mem_script, fault_not_mem_strayFrame, ?_⟩
  rcases codeSteps_of_mem_script rfl strayFrame_mem_script fault_not_mem_strayFrame with
    ⟨attributes, same, bodiless | ⟨entry, found, others, entries, isCode, read, tells, -⟩⟩
  · rw [codeSteps_strayFrame] at bodiless
    cases bodiless.1
  · exact ⟨attributes, entry, found, others, entries, same, isCode, read, tells⟩

/-- A table can have more frames than are told of it, and nothing fails. -/
theorem exists_dropped_frame : ∃ image header body attributes entry found,
    ofInput? strayFrame = .ok image ∧ .scope (.method header) body ∈ image.script {} ∧
      (∀ cause, .fault cause ∉ body) ∧ body = (image.tellMethodBody {} attributes).script ∧
        attributes.code? = some entry ∧ image.codeBody {} entry = .ok found ∧
          found.frames = [(3, .same), (5, .same), (8, .same)] ∧
            codeSteps body = [.int (.short 0), .frame .same, .simple .pop, .int (.short 0),
              .simple .pop, .simple .returnVoid] :=
  ⟨_, _, _, _, _, _, ofInput?_strayFrame, strayFrame_mem_script, fault_not_mem_strayFrame, rfl, rfl,
    codeBody_strayFrame, rfl, codeSteps_strayFrame⟩

end ClassImage

end ClassFile
