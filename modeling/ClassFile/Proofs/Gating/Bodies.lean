import ClassFile.Proofs.Gating.FirstPass
import ClassFile.Proofs.Gating.Following
import ClassFile.Proofs.Gating.Pruning
import ClassFile.Proofs.Image.Methods
import ClassFile.Proofs.Story.Bodies

/-!
# The story of a method for less
-/

namespace ClassFile

namespace ClassImage

variable {image : ClassImage} {code : CodeArray} {pc next : Nat} {instruction : Instruction}

/-! ### Instructions -/

theorem requireDynamicConstants_bind {α : Type} (api : Api) (used : Bool) (value : α) :
    (requireDynamicConstants api used >>= fun _ => pure value) =
      if used && ! api.supports .v7 then .error api.refusal else .ok value := by
  rw [requireDynamicConstants, Api.requireFor]
  split <;> rfl

/-- A dynamic constant is the only thing for which an instruction is refused. -/
theorem readInstruction_of_readInstruction {strong : Api}
    (read : image.readInstruction strong code pc = .ok (instruction, next)) (api : Api) :
    image.readInstruction api code pc =
      if instruction.usesDynamicConstant && ! api.supports .v7 then .error api.refusal
      else .ok (instruction, next) := by
  have whole := read
  unfold readInstruction at read
  simp only [bind_eq_ok] at read
  rcases read with ⟨byte, readByte, read⟩
  cases known : Layout.ofByte? byte with
  | none => simp [known] at read
  | some layout =>
      simp only [known] at read
      have plain (none : instruction.usesDynamicConstant = false)
          (same : image.readInstruction api code pc = image.readInstruction strong code pc) :
          image.readInstruction api code pc =
            if instruction.usesDynamicConstant && ! api.supports .v7 then .error api.refusal
            else .ok (instruction, next) := by
        rw [same, whole, none]
        rfl
      cases layout
      case loadConstant | loadConstantWide | loadConstantTwoSlot =>
        simp only [bind_eq_ok, pure_eq_ok] at read
        rcases read with ⟨index, readIndex, constant, found, -, -, same⟩
        cases same
        simp only [readInstruction, readByte, ok_bind, known, readIndex, found,
          requireDynamicConstants_bind, Instruction.usesDynamicConstant]
        rfl
      case invokeDynamic =>
        simp only [bind_eq_ok, pure_eq_ok] at read
        rcases read with ⟨index, readIndex, reference, referred, ⟨bootstrap, arguments⟩, found, -, -, same⟩
        cases same
        simp only [readInstruction, readByte, ok_bind, known, readIndex, referred, found,
          requireDynamicConstants_bind, Instruction.usesDynamicConstant]
        rfl
      case newArray =>
        simp only [bind_eq_ok] at read
        rcases read with ⟨element, -, read⟩
        refine plain ?_ (by simp only [readInstruction, readByte, ok_bind, known])
        split at read
        · cases read
          rfl
        · cases read
      case wide =>
        simp only [bind_eq_ok] at read
        rcases read with ⟨second, -, slot, -, read⟩
        refine plain ?_ (by simp only [readInstruction, readByte, ok_bind, known])
        split at read
        all_goals
          simp only [bind_eq_ok, pure_eq_ok] at read
          rcases read with ⟨_, -, same⟩
          cases same
          rfl
      all_goals
        refine plain ?_ (by simp only [readInstruction, readByte, ok_bind, known])
        simp only [bind_eq_ok, pure_eq_ok] at read
      case noOperand | bytePush | shortPush | implicitVariable =>
        rcases read with ⟨_, -, same⟩
        cases same
        rfl
      case «variable» | increment | invokeInterface | jumpWide =>
        rcases read with ⟨_, -, _, -, same⟩
        cases same
        rfl
      case jump | field | method | type | multiArray | tableSwitch | lookupSwitch =>
        rcases read with ⟨_, -, _, -, _, -, same⟩
        cases same
        rfl

end ClassImage

/-! ### What corresponds to what in a method -/

namespace ReadOptions

variable {options : ReadOptions} {labels : LabelSet} {item : Item} {items kept back : List Item}

/-- What is told of items in a body whose known places have labels. -/
def keptOf (options : ReadOptions) (labels : LabelSet) (items : List Item) : List Item :=
  (items.flatMap options.prune).filter fun item => item.visit?.all labels.contains

/-- Whether items of a method are passed, and what is told in their place mentions known places alone. -/
structure Keeps (options : ReadOptions) (labels : LabelSet) (items kept : List Item) : Prop where
  passes : ∀ item ∈ items, options.passes item = true
  same : kept = options.keptOf labels items
  known : ∀ label ∈ Script.mentioned kept, label ∈ labels

theorem keeps_nil : options.Keeps labels [] [] :=
  ⟨by simp, rfl, by simp [Script.mentioned]⟩

theorem Keeps.append {others more : List Item} (keeps : options.Keeps labels items kept)
    (keepsMore : options.Keeps labels others more) :
    options.Keeps labels (items ++ others) (kept ++ more) where
  passes := List.forall_mem_append.mpr ⟨keeps.passes, keepsMore.passes⟩
  same := by rw [keeps.same, keepsMore.same, keptOf, keptOf, keptOf, List.flatMap_append, List.filter_append]
  known := by
    rw [Script.mentioned_append]
    exact List.forall_mem_append.mpr ⟨keeps.known, keepsMore.known⟩

/-- What corresponds to what in the story of a method, where a reader that is asked for less gives labels
to the given places. -/
def inMethod (options : ReadOptions) (labels : LabelSet) : Correspondence where
  keeps := options.Keeps labels
  stops items kept := ∃ front refused back, items = front ++ refused :: back ∧
    options.Keeps labels front kept ∧ options.refuses refused = true
  keeps_nil := keeps_nil
  keeps_append := Keeps.append
  stops_append := by
    rintro items kept others ⟨front, refused, back, rfl, keeps, isRefused⟩
    exact ⟨front, refused, back ++ others, by simp, keeps, isRefused⟩
  append_stops := by
    rintro items kept others more keeps ⟨front, refused, back, rfl, keepsFront, isRefused⟩
    exact ⟨items ++ front, refused, back, by simp, keeps.append keepsFront, isRefused⟩

/-- A script that goes on is settled as the longer one without what is left out. -/
theorem Keeps.settled_append (keeps : options.Keeps labels items kept) {rest : List Item}
    (plain : ∀ item ∈ rest, item.visit? = none ∧ ∀ label, ¬item.Mentions label) :
    Script.settled (kept ++ rest) = Script.settled (items.flatMap options.prune ++ rest) := by
  have silent : Script.mentioned rest = [] := by
    rw [List.eq_nil_iff_forall_not_mem]
    intro label member
    rcases Script.mem_mentioned.mp member with ⟨item, inside, -, mentions⟩
    exact (plain item inside).2 label mentions
  have whole : kept ++ rest = (items.flatMap options.prune ++ rest).filter
      fun item => item.visit?.all labels.contains := by
    rw [List.filter_append, keeps.same, keptOf, List.append_cancel_left_eq, eq_comm,
      List.filter_eq_self]
    intro item member
    rw [(plain item member).1]
    rfl
  rw [whole]
  refine Script.settled_filter fun label member => ?_
  rw [Script.mentioned_append, silent, List.append_nil, ← Script.mentioned_filter labels.contains,
    ← keptOf, ← keeps.same] at member
  exact Std.HashSet.contains_iff_mem.mpr (keeps.known label member)

theorem Keeps.settled (keeps : options.Keeps labels items kept) :
    Script.settled kept = Script.settled (options.pruneAll items) := by
  have whole : Script.settled (kept ++ []) = Script.settled (items.flatMap options.prune ++ []) :=
    keeps.settled_append (by simp)
  rwa [List.append_nil, List.append_nil, ← pruneAll_eq_flatMap keeps.passes] at whole

theorem Keeps.settled_endsAt (keeps : options.Keeps labels items kept)
    (ends : options.endsAt item = true) :
    Script.settled kept = Script.settled (options.pruneAll (items ++ item :: back)) := by
  have whole : Script.settled (kept ++ []) = Script.settled (items.flatMap options.prune ++ []) :=
    keeps.settled_append (by simp)
  rwa [List.append_nil, List.append_nil, ← pruneAll_endsAt keeps.passes ends] at whole

theorem settled_of_stops (stops : (options.inMethod labels).stops items kept) :
    Script.settled (kept ++ [.fault options.api.refusal]) =
      Script.settled (options.pruneAll items) := by
  rcases stops with ⟨front, refused, back, rfl, keeps, isRefused⟩
  rw [pruneAll_refuses keeps.passes isRefused]
  refine keeps.settled_append fun item member => ?_
  rw [List.mem_singleton] at member
  subst member
  exact ⟨rfl, fun label mentions => by cases mentions⟩

/-! ### Single items -/

/-- Whether an item of a method is told by a reader that is asked for less as it is, with labels at the
given places alone. -/
structure IsKept (options : ReadOptions) (labels : LabelSet) (item : Item) : Prop
    extends IsUntouched options item where
  visit : item.visit?.all labels.contains = true
  known : ∀ label, item.Mentions label → label ∈ labels

theorem IsKept.keeps (kept : options.IsKept labels item) : options.Keeps labels [item] [item] where
  passes := by simpa using kept.passes
  same := by
    rw [keptOf, List.flatMap_singleton, kept.same, List.filter_cons, kept.visit, if_pos rfl,
      List.filter_nil]
  known := by
    intro label member
    rcases Script.mem_mentioned.mp member with ⟨other, inside, -, mentions⟩
    rw [List.mem_singleton] at inside
    subst inside
    exact kept.known label mentions

theorem IsDropped.keeps (dropped : options.IsDropped item) : options.Keeps labels [item] [] where
  passes := by simpa using dropped.passes
  same := by rw [keptOf, List.flatMap_singleton, dropped.nothing, List.filter_nil]
  known := by simp [Script.mentioned]

theorem allows_isKept (options : ReadOptions) (labels : LabelSet) :
    Item.Allows options (· ∈ labels) (options.IsKept labels) where
  event := fun event noVisit inside told =>
    { toIsUntouched := isUntouched_event told
      visit := by rw [noVisit, Option.all_none]
      known := fun label mentions => by
        cases mentions with
        | event mentioned => exact inside label mentioned }
  scope := fun opening body _ inside told kept =>
    { toIsUntouched := isUntouched_scope told fun item member => (kept item member).toIsUntouched
      visit := rfl
      known := fun label mentions => by
        cases mentions with
        | opening mentioned => exact inside label mentioned
        | inside member mentions => exact (kept _ member).known label mentions }
  fault := fun cause =>
    { toIsUntouched := isUntouched_fault cause
      visit := rfl
      known := fun label mentions => by cases mentions }

/-- A label is told if it stands at a known place, and never refused. -/
theorem keeps_label (label : Label) : options.Keeps labels
    [ClassImage.instructionItem (.label label)]
    (if labels.contains label then [ClassImage.instructionItem (.label label)] else []) := by
  have told : options.tells (.methodItem (.instruction (.label label))) = true := tells_first rfl rfl
  refine ⟨fun item member => List.mem_singleton.mp member ▸ passes_of_tells told, ?_, ?_⟩
  · rw [keptOf, List.flatMap_singleton, ClassImage.instructionItem, prune, told, if_pos rfl,
      List.filter_cons, List.filter_nil]
    rfl
  · split
    · simp [Script.mentioned, ClassImage.instructionItem, Item.visit?]
    · simp [Script.mentioned]

end ReadOptions

/-- Whether single items that are told as they are, or left out, correspond to what is told in their
place. -/
structure Correspondence.Admits (correspondence : Correspondence) (options : ReadOptions)
    (labels : LabelSet) : Prop where
  kept : ∀ item, options.IsKept labels item → correspondence.keeps [item] [item]
  dropped : ∀ item, options.IsDropped item → correspondence.keeps [item] []

theorem ReadOptions.admits_inMethod (options : ReadOptions) (labels : LabelSet) :
    (options.inMethod labels).Admits options labels :=
  ⟨fun _ => IsKept.keeps, fun _ => IsDropped.keeps⟩

namespace ClassImage

open Emit ReadOptions

variable {image : ClassImage} {weak strong : ReadOptions} {labels : LabelSet}

theorem follows_of_kept {α : Type} {emit : Emit α} (only : Only (weak.IsKept labels) emit) :
    Follows (weak.inMethod labels) weak.api.refusal emit emit :=
  (only.weaken (weak.admits_inMethod labels).kept).follows

theorem follows_of_dropped {emit : Emit Unit} (only : Only weak.IsDropped emit) :
    Follows (weak.inMethod labels) weak.api.refusal (pure ()) emit :=
  (only.weaken (weak.admits_inMethod labels).dropped).dropped

/-- A scope is left out where the version that it came with is not known. -/
theorem isDropped_of_opening {opening : Opening} {required : Api} (came : opening.since = required)
    (unknown : weak.api.supports required = false) (body : List Item) :
    weak.IsDropped (.scope opening body) := by
  refine isDropped_scope ?_ body
  rw [tells, Event.since, came, unknown, Bool.false_and]

/-! ### The parts of a body -/

theorem emits_tellFrames (position : Label) (frames : List (Label × Frame)) :
    Emits (tellFrames position frames) (frames.dropWhile fun entry => decide (entry.1 = position))
      ((frames.takeWhile fun entry => decide (entry.1 = position)).map fun entry =>
        instructionItem (.frame entry.2)) := by
  induction frames with
  | nil => exact emits_pure _
  | cons entry rest ih =>
      unfold tellFrames
      by_cases here : entry.1 = position
      · rw [if_pos here]
        simp only [List.takeWhile_cons, List.dropWhile_cons, here, decide_true, if_true, List.map_cons]
        exact (emits_tell _).bind ih
      · rw [if_neg here]
        simp only [List.takeWhile_cons, List.dropWhile_cons, here, decide_false, if_false,
          Bool.false_eq_true, List.map_nil]
        exact emits_pure _

/-- The frames that are asked for. -/
def framesFor (options : ReadOptions) (frames : List (Label × Frame)) : List (Label × Frame) :=
  if options.skipFrames then [] else frames

theorem isKept_frame (asked : weak.skipFrames = false) {frame : Frame}
    (known : ∀ label ∈ frame.values.flatMap FrameValue.labels, label ∈ labels) :
    weak.IsKept labels (instructionItem (.frame frame)) :=
  (allows_isKept weak labels).event (.methodItem (.instruction (.frame frame))) rfl known
    (tells_first rfl asked)

theorem isDropped_frame (asked : weak.skipFrames = true) (frame : Frame) :
    weak.IsDropped (instructionItem (.frame frame)) := by
  refine isDropped_event rfl ?_
  rw [tells, skips, asked, Bool.not_true, Bool.and_false]

/-- The frames at a place are told, or left out with all others. -/
theorem follows_tellFrames {position : Label} {frames : List (Label × Frame)}
    {lessNext moreNext : List (Label × Frame) → Emit Unit}
    (marked : FramesMarked labels (framesFor weak frames))
    (next : ∀ rest, FramesMarked labels (framesFor weak rest) →
      Follows (weak.inMethod labels) weak.api.refusal (lessNext (framesFor weak rest)) (moreNext rest)) :
    Follows (weak.inMethod labels) weak.api.refusal
      (tellFrames position (framesFor weak frames) >>= lessNext)
      (tellFrames position frames >>= moreNext) := by
  have rest := next (frames.dropWhile fun entry => decide (entry.1 = position))
  cases asked : weak.skipFrames with
  | true =>
      simp only [framesFor, asked, if_true] at rest ⊢
      refine Follows.bind_emits (emits_tellFrames position frames) (emits_pure []) ?_
        (rest (by simp [FramesMarked]))
      refine (weak.inMethod labels).keeps_nil_of_forall fun item member => ?_
      rcases List.mem_map.mp member with ⟨entry, -, rfl⟩
      exact (isDropped_frame asked entry.2).keeps
  | false =>
      simp only [framesFor, asked, Bool.false_eq_true, if_false] at marked rest ⊢
      refine Follows.bind_emits (emits_tellFrames position frames) (emits_tellFrames position frames) ?_
        (rest fun entry member => marked entry ((List.dropWhile_suffix _).subset member))
      refine (weak.inMethod labels).keeps_of_forall fun item member => ?_
      rcases List.mem_map.mp member with ⟨entry, inside, rfl⟩
      refine (isKept_frame asked fun label mentioned => ?_).keeps
      rcases List.mem_flatMap.mp mentioned with ⟨value, isValue, mentioned⟩
      exact (marked entry ((List.takeWhile_prefix _).subset inside) value isValue).2 label mentioned

section Code

variable {more less : CodeBody} (left : more.IsLeft weak less)
include left

theorem follows_tellHandlers
    (marked : image.HandlersMarked less.labels less.handlersOffset less.handlers) :
    Follows (weak.inMethod less.labels) weak.api.refusal
      (image.tellHandlers less.code less.handlersOffset less.handlers)
      (image.tellHandlers more.code more.handlersOffset more.handlers) := by
  have same : more.handlersOffset = less.handlersOffset := by
    rw [CodeBody.handlersOffset, CodeBody.handlersOffset, left.code]
  rw [same, ← left.code, ← left.handlers]
  exact follows_of_kept (only_tellHandlers (allows_isKept weak less.labels) marked)

theorem follows_tellHandlerAnnotations :
    Follows (weak.inMethod less.labels) weak.api.refusal
      (image.tellHandlerAnnotations less) (image.tellHandlerAnnotations more) := by
  have annotations := left.annotations
  cases known : weak.api.supports .v5 with
  | true =>
      rw [known, if_pos rfl] at annotations
      have same : image.tellHandlerAnnotations more = image.tellHandlerAnnotations less := by
        rw [tellHandlerAnnotations, tellHandlerAnnotations, annotations]
      rw [same]
      refine follows_of_kept (only_tellHandlerAnnotations fun note _ => ?_)
      exact allows_values (allows_isKept weak less.labels) rfl (by simp [Opening.labels])
        (tells_of_supports known rfl rfl) _
  | false =>
      rw [known, if_neg Bool.false_ne_true] at annotations
      have nothing : image.tellHandlerAnnotations less = pure () := by
        rw [tellHandlerAnnotations, annotations]
        rfl
      rw [nothing]
      exact follows_of_dropped (only_tellHandlerAnnotations fun note _ =>
        isDropped_of_opening rfl known _)

theorem follows_tellLines (position : Label) :
    Follows (weak.inMethod less.labels) weak.api.refusal
      ((less.lines.getD position #[]).toList.forM fun line => tellInstruction (.line line position))
      ((more.lines.getD position #[]).toList.forM fun line =>
        tellInstruction (.line line position)) := by
  have lines := left.lines
  cases asked : weak.skipDebug with
  | true =>
      rw [asked, if_pos rfl] at lines
      rw [lines, Std.HashMap.getD_empty]
      refine follows_of_dropped (Only.forM fun line _ => Only.tell (isDropped_event rfl ?_))
      rw [tells, skips, asked, Bool.not_true, Bool.and_false]
  | false =>
      rw [asked, if_neg Bool.false_ne_true] at lines
      rw [← lines]
      refine follows_of_kept (Only.forM fun line member => Only.tell ?_)
      have inside : position ∈ less.labels := by
        by_contra absent
        rw [Std.HashMap.getD_eq_getD_getElem?, left.lined position absent] at member
        simp at member
      exact (allows_isKept weak less.labels).event _ rfl
        (by simpa [Event.labels, MethodItem.labels, Instruction.labels] using inside)
        (tells_first rfl asked)

theorem follows_tellLabel (position : Label) :
    Follows (weak.inMethod less.labels) weak.api.refusal
      (tellLabel less position) (tellLabel more position) := by
  have lines := follows_tellLines left position
  have told := @keeps_label weak less.labels position
  unfold tellLabel
  cases marked : less.labels.contains position with
  | true =>
      have markedMore : more.labels.contains position = true :=
        Std.HashSet.contains_iff_mem.mpr (left.labels _ (Std.HashSet.contains_iff_mem.mp marked))
      rw [marked, if_pos rfl] at told
      rw [markedMore, if_pos rfl, if_pos rfl]
      exact Follows.bind_emits (emits_tell _) (emits_tell _) told lines
  | false =>
      rw [marked, if_neg Bool.false_ne_true] at told
      have absent : position ∉ less.labels := by
        rw [← Std.HashSet.contains_iff_mem, marked]
        exact Bool.false_ne_true
      rw [if_neg Bool.false_ne_true]
      split
      · rw [Std.HashMap.getD_eq_getD_getElem?, left.lined position absent] at lines
        have both : Follows (weak.inMethod less.labels) weak.api.refusal (pure () >>= fun _ => pure ())
            (tellInstruction (.label position) >>= fun _ =>
              (more.lines.getD position #[]).toList.forM fun line =>
                tellInstruction (.line line position)) :=
          Follows.bind_emits (emits_tell _) (emits_pure ()) told lines
        rwa [pure_bind] at both
      · exact Follows.pure ()

theorem follows_tellVariableTable (isMarked : less.IsMarked image) (isMarkedMore : more.IsMarked image) :
    Follows (weak.inMethod less.labels) weak.api.refusal
      (image.tellVariableTable less) (image.tellVariableTable more) := by
  have locals := left.localVariables?
  have types := left.variableTypes?
  cases asked : weak.skipDebug with
  | true =>
      rw [asked, if_pos rfl] at locals
      have nothing : image.tellVariableTable less = pure () := by
        rw [tellVariableTable, locals]
      rw [nothing]
      refine follows_of_dropped (only_tellVariableTable (fun _ entry _ => ?_) isMarkedMore)
      refine isDropped_event rfl ?_
      rw [tells, skips, asked, Bool.not_true, Bool.and_false]
  | false =>
      rw [asked, if_neg Bool.false_ne_true] at locals types
      have same : image.tellVariableTable more = image.tellVariableTable less := by
        rw [tellVariableTable, tellVariableTable, locals, types, left.code]
      rw [same]
      exact follows_of_kept (only_tellVariableTable (fun _ =>
        allows_localVariable (allows_isKept weak less.labels) asked) isMarked)

theorem follows_tellVariableAnnotations (isMarked : less.IsMarked image)
    (isMarkedMore : more.IsMarked image) (source : Nat) :
    Follows (weak.inMethod less.labels) weak.api.refusal
      (image.tellVariableAnnotations less source) (image.tellVariableAnnotations more source) := by
  have annotations := left.annotations
  cases known : weak.api.supports .v5 with
  | true =>
      rw [known, if_pos rfl] at annotations
      have same : image.tellVariableAnnotations more source = image.tellVariableAnnotations less source := by
        simp only [tellVariableAnnotations, annotations, left.code]
      rw [same]
      exact follows_of_kept (only_tellVariableAnnotations (fun _ _ places inside =>
        allows_localAnnotation (allows_isKept weak less.labels) known _ places inside _) isMarked _)
  | false =>
      rw [known, if_neg Bool.false_ne_true] at annotations
      have nothing : image.tellVariableAnnotations less source = pure () := by
        rw [tellVariableAnnotations, annotations]
        rfl
      rw [nothing]
      exact follows_of_dropped (only_tellVariableAnnotations (fun _ _ _ _ =>
        isDropped_of_opening rfl known _) isMarkedMore _)

theorem follows_instructionAnnotations (position : Label) :
    Follows (weak.inMethod less.labels) weak.api.refusal
      (((instructionAnnotations less).getD position #[]).toList.forM fun note =>
        image.tellCodeAnnotation (.annotateInstruction note.use) note)
      (((instructionAnnotations more).getD position #[]).toList.forM fun note =>
        image.tellCodeAnnotation (.annotateInstruction note.use) note) := by
  have annotations := left.annotations
  cases known : weak.api.supports .v5 with
  | true =>
      rw [known, if_pos rfl] at annotations
      have same : instructionAnnotations more = instructionAnnotations less := by
        rw [instructionAnnotations, instructionAnnotations, annotations]
      rw [same]
      refine follows_of_kept (Only.forM fun note _ => only_tellCodeNote ?_)
      exact allows_values (allows_isKept weak less.labels) rfl (by simp [Opening.labels])
        (tells_of_supports known rfl rfl) _
  | false =>
      rw [known, if_neg Bool.false_ne_true] at annotations
      have nothing : instructionAnnotations less = ∅ := by
        rw [instructionAnnotations, annotations]
        rfl
      rw [nothing, Std.HashMap.getD_empty]
      exact follows_of_dropped (Only.forM fun note _ => only_tellCodeNote
        (isDropped_of_opening rfl known _))

end Code

/-! ### The instructions -/

theorem skips_of_isReal (options : ReadOptions) {instruction : Instruction}
    (real : instruction.isReal = true) :
    options.skips (.methodItem (.instruction instruction)) = false := by
  cases instruction <;> first | rfl | cases real

/-- An instruction that is read is asked for, unless it needs a dynamic constant that is not known. -/
theorem tells_of_readInstruction {strong : Api} {code : CodeArray} {pc next : Nat}
    {instruction : Instruction} (found : image.readInstruction strong code pc = .ok (instruction, next))
    (accepted : (instruction.usesDynamicConstant && ! weak.api.supports .v7) = false) :
    weak.tells (.methodItem (.instruction instruction)) = true := by
  have isKnown : weak.api.supports (Event.methodItem (.instruction instruction)).since = true := by
    refine Event.isKnownTo_instruction fun uses => ?_
    rw [uses, Bool.true_and, Bool.not_eq_false'] at accepted
    exact accepted
  exact tells_of_supports isKnown rfl (skips_of_isReal weak (fits_of_readInstruction found).1)

/-- An instruction is told, unless a listener that asks for less is too old for its dynamic constant. -/
theorem follows_instruction {code : CodeArray} {pc : Nat}
    {lessRest moreRest : Instruction × Nat → Emit Unit}
    (rest : ∀ found, image.readInstruction strong.api code pc = .ok found →
      (∀ label ∈ found.1.labels, label ∈ labels) ∧
        Follows (weak.inMethod labels) weak.api.refusal (lessRest found) (moreRest found)) :
    Follows (weak.inMethod labels) weak.api.refusal
      (liftM (image.readInstruction weak.api code pc) >>= fun found =>
        tellInstruction found.1 >>= fun _ => lessRest found)
      (liftM (image.readInstruction strong.api code pc) >>= fun found =>
        tellInstruction found.1 >>= fun _ => moreRest found) := by
  refine Follows.bind_computed ?_
  rintro ⟨instruction, next⟩ found
  rcases rest _ found with ⟨inside, follows⟩
  have read := readInstruction_of_readInstruction found weak.api
  cases refused : (instruction.usesDynamicConstant && ! weak.api.supports .v7) with
  | false =>
      rw [refused, if_neg Bool.false_ne_true] at read
      have kept := (allows_isKept weak labels).event _ (visit?_of_readInstruction found) inside
        (tells_of_readInstruction found refused)
      exact .inl ⟨_, read, (follows_of_kept (Only.tell kept)).bind fun _ => follows⟩
  | true =>
      rw [refused, if_pos rfl] at read
      have one : Gives (· = [instructionItem instruction]) (tellInstruction instruction) := Gives.tell rfl
      refine .inr ⟨read, one.bind (fun _ => follows.gives) ?_⟩
      rintro _ others rfl -
      exact ⟨[], instructionItem instruction, others, rfl, keeps_nil, refused⟩

theorem mem_of_markTargets {code : CodeArray} {pc stride offset count : Nat} {marked found : LabelSet}
    (marks : image.markTargets code pc stride offset marked count = .ok found) :
    ∀ label ∈ marked, label ∈ found := by
  induction count generalizing offset marked with
  | zero =>
      cases marks
      exact fun _ => id
  | succ count ih =>
      simp only [markTargets, bind_eq_ok] at marks
      rcases marks with ⟨delta, -, target, -, marks⟩
      exact fun label member => ih marks label (Std.HashSet.mem_insert.mpr (.inr member))

theorem mem_of_markInstruction {code : CodeArray} {pc next : Nat} {marked found : LabelSet}
    (marks : image.markInstruction code pc marked = .ok (found, next)) :
    ∀ label ∈ marked, label ∈ found := by
  have insert (target : Label) : ∀ label ∈ marked, label ∈ marked.insert target :=
    fun label member => Std.HashSet.mem_insert.mpr (.inr member)
  simp only [markInstruction, bind_eq_ok] at marks
  rcases marks with ⟨position, -, byte, -, marks⟩
  split at marks
  case h_1 => cases marks
  case h_2 | h_3 =>
    simp only [bind_eq_ok, pure_eq_ok] at marks
    rcases marks with ⟨delta, -, target, -, same⟩
    cases same
    exact insert target
  case h_4 | h_5 =>
    simp only [bind_eq_ok, pure_eq_ok] at marks
    rcases marks with ⟨head, -, target, -, last, marked, same⟩
    cases same
    exact fun label member => mem_of_markTargets marked label (insert target label member)
  case h_6 =>
    simp only [bind_eq_ok] at marks
    rcases marks with ⟨second, -, marks⟩
    split at marks
    all_goals
      cases marks
      try exact fun _ => id
  case h_7 =>
    cases marks
    exact fun _ => id

theorem mem_of_markInstructions {code : CodeArray} {pc stop fuel : Nat} {marked found : LabelSet}
    (marks : image.markInstructions code pc marked fuel = .ok (found, stop)) :
    ∀ label ∈ marked, label ∈ found := by
  induction fuel generalizing pc marked with
  | zero =>
      unfold markInstructions at marks
      split at marks
      all_goals
        cases marks
        try exact fun _ => id
  | succ fuel ih =>
      unfold markInstructions at marks
      split at marks
      · rcases bind_eq_ok.mp marks with ⟨⟨one, next⟩, accepted, others⟩
        exact fun label member => ih others label (mem_of_markInstruction accepted label member)
      · cases marks
        exact fun _ => id

/-- The second pass for less tells the same instructions, up to the first that is refused. -/
theorem follows_tellInstructions {more less : CodeBody} (left : more.IsLeft weak less)
    {pc fuel : Nat} {frames : List (Label × Frame)} {marked found : LabelSet}
    (marks : image.markInstructions more.code pc marked fuel = .ok (found, more.code.stop))
    (grows : ∀ label ∈ found, label ∈ less.labels)
    (framesMarked : FramesMarked less.labels (framesFor weak frames)) :
    Follows (weak.inMethod less.labels) weak.api.refusal
      (image.tellInstructions weak.api less (instructionAnnotations less) pc (framesFor weak frames) fuel)
      (image.tellInstructions strong.api more (instructionAnnotations more) pc frames fuel) := by
  induction fuel generalizing pc frames marked with
  | zero =>
      unfold tellInstructions
      rw [left.code]
      split
      · exact Follows.throw _
      · exact Follows.pure _
  | succ fuel ih =>
      unfold markInstructions at marks
      unfold tellInstructions
      rw [left.code]
      split
      case isFalse => exact Follows.pure _
      case isTrue inside =>
        rw [if_pos inside] at marks
        rcases bind_eq_ok.mp marks with ⟨⟨one, other⟩, accepted, marksRest⟩
        refine Follows.bind_lift fun position _ => (follows_tellLabel left position).bind fun _ => ?_
        refine follows_tellFrames framesMarked fun rest restMarked => ?_
        refine follows_instruction fun found read => ?_
        have same := markInstruction_eq read accepted
        rw [Prod.mk.injEq] at same
        rcases same with ⟨rfl, rfl⟩
        refine ⟨fun label mentioned => grows label (mem_of_markInstructions marksRest label ?_), ?_⟩
        · exact Std.HashSet.mem_insertMany_list.mpr (.inr (by simpa using mentioned))
        · refine (follows_instructionAnnotations left position).bind fun _ => ?_
          exact ih marksRest restMarked

/-! ### Bodies and methods -/

section Method

variable (within : weak.Within strong)
include within

theorem tellOthers_of_within (inCode : Bool) (common : CommonAttributes) :
    image.tellOthers weak inCode common = image.tellOthers strong inCode common := by
  simp only [tellOthers, attributeOf, within.decoder]

omit within in
theorem follows_tellItem {item : MethodItem} (noLabels : item.labels = [])
    (told : weak.tells (.methodItem item) = true) :
    Follows (weak.inMethod labels) weak.api.refusal (tellItem item) (tellItem item) :=
  follows_of_kept (Only.tell ((allows_isKept weak labels).plain noLabels told))

omit within in
/-- The end of the code has a label if it is marked. -/
theorem follows_tellEnd {more less : CodeBody} (left : more.IsLeft weak less) {lessNext moreNext : Unit → Emit Unit}
    (next : Follows (weak.inMethod less.labels) weak.api.refusal (lessNext ()) (moreNext ())) :
    Follows (weak.inMethod less.labels) weak.api.refusal
      (if less.labels.contains more.code.length then
        tellInstruction (.label more.code.length) >>= lessNext else lessNext ())
      (if more.labels.contains more.code.length then
        tellInstruction (.label more.code.length) >>= moreNext else moreNext ()) := by
  have ending := @keeps_label weak less.labels more.code.length
  refine Follows.guarded (fun inside => ?_) (fun inside => Only.follows (Only.tell ?_))
    (fun outside => Only.dropped (Only.tell ?_)) next
  · exact Std.HashSet.contains_iff_mem.mpr (left.labels _ (Std.HashSet.contains_iff_mem.mp inside))
  · rwa [if_pos inside] at ending
  · rwa [if_neg outside] at ending

/-- The body of a method is told for less. -/
theorem follows_tellCode {entry : RawAttribute} {more less : CodeBody} (asked : weak.skipCode = false)
    (found : image.codeBody strong entry = .ok more) (foundLess : image.codeBody weak entry = .ok less)
    (left : more.IsLeft weak less) :
    Follows (weak.inMethod less.labels) weak.api.refusal
      (image.tellCode weak entry) (image.tellCode strong entry) := by
  rcases codeBody_marks foundLess with ⟨isMarked, handlersMarked, marked, marks, grows⟩
  have isMarkedMore := (codeBody_marks found).1
  rw [left.code] at marks
  have frames : less.frames = framesFor weak more.frames := left.frames
  have start : weak.tells (.methodItem .code) = true := tells_first rfl asked
  refine Follows.bind_computed fun body foundBody => .inl ⟨less, foundLess, ?_⟩
  obtain rfl : more = body := Except.ok.inj (found.symm.trans foundBody)
  refine (follows_tellItem rfl start).bind fun _ => ?_
  refine (follows_tellHandlers left handlersMarked).bind fun _ => ?_
  refine (follows_tellHandlerAnnotations left).bind fun _ => ?_
  rw [frames, left.code]
  refine (follows_tellInstructions left marks grows (frames ▸ isMarked.frames)).bind fun _ => ?_
  refine follows_tellEnd left ?_
  refine (follows_tellVariableTable left isMarked isMarkedMore).bind fun _ => ?_
  refine (follows_tellVariableAnnotations left isMarked isMarkedMore _).bind fun _ => ?_
  rw [← tellOthers_of_within within, left.common, left.maxStack, left.maxLocals]
  have others : Only (weak.IsKept less.labels) (image.tellOthers weak true more.common) :=
    only_tellOthers (allows_isKept weak less.labels) true more.common
  exact (follows_of_kept others).bind fun _ => follows_tellItem rfl (tells_first rfl rfl)

/-- The annotations of a class or member, without the type annotations if they are not known. -/
theorem follows_tellAnnotations {correspondence : Correspondence} {cause : ClassError}
    (admits : correspondence.Admits weak labels) (common : CommonAttributes) :
    Follows correspondence cause
      (image.tellAnnotations weak common) (image.tellAnnotations strong common) := by
  have table (visible : Bool) (place? : Option Nat) : Only (weak.IsKept labels)
      (tellIfPresent place? fun offset =>
        discard (image.tellAnnotationTable (Opening.annotate · visible) offset)) :=
    only_tellIfPresent fun offset => (only_tellAnnotationTable (allows_isKept weak labels)
      (fun _ => rfl) (fun _ => rfl) (fun _ => rfl) offset).bind fun _ => Only.pure _
  refine ((table true _).weaken admits.kept).follows.bind fun _ => ?_
  refine ((table false _).weaken admits.kept).follows.bind fun _ => ?_
  have types {P : Item → Prop}
      (each : ∀ use offset, P (.scope (.annotateType use) (image.tellValues offset).collect.1)) :
      Only P (do
        tellIfPresent common.visibleTypeAnnotations? (image.tellTypeAnnotationTable true)
        tellIfPresent common.invisibleTypeAnnotations? (image.tellTypeAnnotationTable false)) :=
    (only_tellIfPresent (only_tellTypeAnnotationTable each)).bind fun _ =>
      only_tellIfPresent (only_tellTypeAnnotationTable each)
  cases known : weak.api.supports .v5 with
  | true =>
      rw [within.supports known, if_pos rfl]
      exact ((types (allows_annotateType (allows_isKept weak labels) known)).weaken
        admits.kept).follows
  | false =>
      rw [if_neg Bool.false_ne_true]
      split
      · exact ((types fun _ _ => isDropped_of_opening rfl known _).weaken admits.dropped).dropped
      · exact Follows.pure ()

/-- What is told of a method in front of its body. -/
def tellMethodFront (image : ClassImage) (options : ReadOptions) (attributes : MethodAttributes) :
    Emit Unit := do
  if ! options.skipDebug && options.api.supports .v5 then
    tellIfPresent attributes.parameters? fun offset => do
      let count ← image.input.u8 offset
      image.tellParameters (offset + 1) count.toNat
  tellIfPresent attributes.annotationDefault? fun offset =>
    discard (Emit.eager .annotationDefault
      (image.tellElement maxAnnotationLevels none offset))
  image.tellAnnotations options attributes.common
  tellIfPresent attributes.visibleParameters? (image.tellParameterAnnotations true)
  tellIfPresent attributes.invisibleParameters? (image.tellParameterAnnotations false)
  image.tellOthers options false attributes.common

omit within in
theorem tellMethodBody_eq (options : ReadOptions) (attributes : MethodAttributes) :
    image.tellMethodBody options attributes =
      image.tellMethodFront options attributes >>= fun _ =>
        if options.skipCode then pure ()
        else attributes.code?.elim (pure ()) (image.tellCode options) := by
  unfold tellMethodBody tellMethodFront
  cases ! options.skipDebug && options.api.supports .v5 <;> cases options.skipCode <;>
    cases attributes.code? <;>
      simp only [Bool.not_true, Bool.not_false, Bool.false_eq_true, if_true, if_false, bind_assoc,
        Option.elim]

theorem follows_tellMethodFront (attributes : MethodAttributes) :
    Follows (weak.inMethod labels) weak.api.refusal
      (image.tellMethodFront weak attributes) (image.tellMethodFront strong attributes) := by
  have kept := allows_isKept weak labels
  have parameters {P : Item → Prop} (each : ∀ parameter, P (.event (.methodItem (.parameter parameter)))) :
      Only P (tellIfPresent attributes.parameters? fun offset => do
        let count ← image.input.u8 offset
        image.tellParameters (offset + 1) count.toNat) :=
    only_tellIfPresent fun _ => (Only.lift _).bind fun _ => only_tellParameters each _ _
  unfold tellMethodFront
  refine Follows.guarded (fun asked => ?_) (fun asked => ?_) (fun unasked => ?_) ?_
  · rw [Bool.and_eq_true, Bool.not_eq_true'] at asked ⊢
    refine ⟨Bool.eq_false_iff.mpr (mt within.skipDebug ?_), within.supports asked.2⟩
    simp [asked.1]
  · rw [Bool.and_eq_true, Bool.not_eq_true'] at asked
    exact follows_of_kept (parameters (allows_parameter kept asked.1 asked.2))
  · refine follows_of_dropped (parameters fun parameter => isDropped_event rfl ?_)
    rw [Bool.not_eq_true, Bool.and_eq_false_iff, Bool.not_eq_false'] at unasked
    rcases unasked with asked | unknown
    · rw [tells, skips, asked, Bool.not_true, Bool.and_false]
    · rw [tells, show (Event.methodItem (.parameter parameter)).since = .v5 from rfl, unknown,
        Bool.false_and]
  refine (follows_of_kept (only_tellDefault kept _)).bind fun _ => ?_
  refine (follows_tellAnnotations within (weak.admits_inMethod labels) _).bind fun _ => ?_
  refine (follows_of_kept (only_tellIfPresent (only_tellParameterAnnotations kept true))).bind fun _ => ?_
  refine (follows_of_kept (only_tellIfPresent (only_tellParameterAnnotations kept false))).bind fun _ => ?_
  rw [← tellOthers_of_within within]
  exact follows_of_kept (only_tellOthers kept false attributes.common)

theorem follows_tellMemberBody (common : CommonAttributes) :
    Follows (weak.inMethod labels) weak.api.refusal
      (image.tellMemberBody weak common) (image.tellMemberBody strong common) := by
  refine (follows_tellAnnotations within (weak.admits_inMethod labels) _).bind fun _ => ?_
  rw [← tellOthers_of_within within]
  exact follows_of_kept (only_tellOthers (allows_isKept weak labels) false common)

omit within in
/-- What is told for less is the story without what is left out. -/
theorem settled_of_follows {less more : Emit Unit}
    (follows : Follows (weak.inMethod labels) weak.api.refusal less more) (whole : Item.AreWhole more.script) :
    Script.settled less.script = Script.settled (weak.pruneAll more.script) := by
  have told := collect_eq_ok.mp whole.collect
  rcases follows told with ⟨items, same, ⟨kept, emits, keeps⟩ | ⟨kept, runs, stops⟩⟩
  all_goals obtain rfl : more.script = items := by simpa using same
  · rw [Emit.script, emits.collect]
    exact keeps.settled
  · rw [Emit.script, runs.collect]
    exact settled_of_stops stops

omit within in
theorem gives_code_tellCode (entry : RawAttribute) :
    Gives (fun items => ∃ rest, items = .event (.methodItem .code) :: rest)
      (image.tellCode strong entry) := by
  intro before value after told
  rcases told_of_tellCode told with ⟨body, entries, last, -, -, ⟨inner, rfl, -, -⟩, rfl⟩
  exact ⟨.event (.methodItem .code) ::
    (inner.toList ++ [.event (.methodItem (.maxs body.maxStack body.maxLocals))]),
    Array.ext' (by simp), _, rfl⟩

omit within in
/-- Where no bodies are told, the story of a method ends in front of its body. -/
theorem settled_of_skipCode {less more : Emit Unit} {entry : RawAttribute} (asked : weak.skipCode = true)
    (front : Follows (weak.inMethod labels) weak.api.refusal less more)
    (whole : Item.AreWhole (more >>= fun _ => image.tellCode strong entry).script) :
    Script.settled (less >>= fun _ => pure ()).script =
      Script.settled (weak.pruneAll (more >>= fun _ => image.tellCode strong entry).script) := by
  have told := collect_eq_ok.mp whole.collect
  generalize (more >>= fun _ => image.tellCode strong entry).script = script at told
  rcases tells_bind.mp told with ⟨_, between, toldFront, toldCode⟩
  rcases gives_code_tellCode entry toldCode with ⟨_, same, rest, rfl⟩
  rcases front toldFront with ⟨items, rfl, ⟨kept, emits, keeps⟩ | ⟨kept, runs, stops⟩⟩
  all_goals
    obtain rfl : script = items ++ .event (.methodItem .code) :: rest := by simpa using same
  · rw [Emit.script, (emits.bind (emits_pure ())).collect, List.append_nil]
    exact keeps.settled_endsAt asked
  · rw [Emit.script, (runs.bind _).collect]
    exact settled_of_stops ((weak.inMethod labels).stops_append _ stops)

/-- The story of a method that is told for less. -/
theorem settled_tellMethodBody (attributes : MethodAttributes)
    (whole : Item.AreWhole (image.tellMethodBody strong attributes).script) :
    Script.settled (image.tellMethodBody weak attributes).script =
      Script.settled (weak.pruneAll (image.tellMethodBody strong attributes).script) := by
  have front {labels : LabelSet} : Follows (weak.inMethod labels) weak.api.refusal
      (image.tellMethodFront weak attributes) (image.tellMethodFront strong attributes) :=
    follows_tellMethodFront within attributes
  have nothing : Follows (weak.inMethod ∅) weak.api.refusal
      (image.tellMethodFront weak attributes >>= fun _ => pure ())
      (image.tellMethodFront strong attributes >>= fun _ => pure ()) :=
    front.bind fun _ => Follows.pure ()
  rw [tellMethodBody_eq] at whole
  rw [tellMethodBody_eq, tellMethodBody_eq]
  cases code : attributes.code? with
  | none =>
      simp only [code, Option.elim, ite_self] at whole ⊢
      exact settled_of_follows nothing whole
  | some entry =>
      simp only [code, Option.elim] at whole ⊢
      cases skipped : strong.skipCode with
      | true =>
          rw [skipped, if_pos rfl] at whole
          rw [within.skipCode skipped, if_pos rfl]
          exact settled_of_follows nothing whole
      | false =>
          rw [skipped, if_neg Bool.false_ne_true] at whole
          rw [if_neg Bool.false_ne_true]
          cases asked : weak.skipCode with
          | true =>
              rw [if_pos rfl]
              exact settled_of_skipCode asked (@front ∅) whole
          | false =>
              rw [if_neg Bool.false_ne_true]
              cases found : image.codeBody strong entry with
              | error cause =>
                  have stopped : Follows (weak.inMethod ∅) weak.api.refusal
                      (image.tellCode weak entry) (image.tellCode strong entry) := by
                    intro before value after told
                    rcases tells_bind_lift.mp told with ⟨body, foundBody, -⟩
                    cases found.symm.trans foundBody
                  exact settled_of_follows (front.bind fun _ => stopped) whole
              | ok more =>
                  rcases codeBody_of_within within found with ⟨less, foundLess, left⟩
                  exact settled_of_follows
                    (front.bind fun _ => follows_tellCode within asked found foundLess left) whole

end Method

end ClassImage

end ClassFile
