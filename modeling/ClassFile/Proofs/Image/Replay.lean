import ClassFile.Proofs.Image.Sparing

/-!
# The second pass, with the label map

`ClassImage.tellCode` checks the places that it tells and leaves the label map alone.  `Replay` is the
setting of a second pass that looks a place up as the first pass marks one: a place without a label
would get one.  It notes in order where the walk over the instructions comes by, which labels are looked
up and what is told, so a listener that stops the pass leaves the steps up to there.

`Replay.Agrees` says that a replay leaves a known label map as it is, ends as its producer does and
tells the same.  The rules follow the steps of a replay.
-/

namespace ClassFile

/-- A step of the second pass over a body. -/
inductive ReplayStep where
  /-- The walk over the instructions comes by an offset in the file. -/
  | reach (pc : Nat)
  | look (label : Label)
  | tell (item : Item)

namespace ReplayStep

def offset? : ReplayStep → Option Nat
  | .reach pc => some pc
  | _ => none

def label? : ReplayStep → Option Label
  | .look label => some label
  | _ => none

def item? : ReplayStep → Option Item
  | .tell item => some item
  | _ => none

end ReplayStep

/-- The label map, and the steps so far. -/
structure Trail where
  labels : LabelSet
  steps : Array ReplayStep := #[]

/-- The setting of a second pass that keeps the label map. -/
abbrev Replay := ExceptT ClassError (StateM Trail)

namespace Replay

variable {α β : Type}

/-- Notes where the walk over the instructions comes by. -/
def reach (pc : Nat) : Replay Unit :=
  modify fun trail => { trail with steps := trail.steps.push (.reach pc) }

/-- Looks up the label of a place, which gets one if it has none. -/
def look (place : Except ClassError Label) : Replay Label := do
  let label ← place
  modify fun trail =>
    { labels := if trail.labels.contains label then trail.labels else trail.labels.insert label
      steps := trail.steps.push (.look label) }
  return label

/-- The label map by now. -/
def labels : Replay LabelSet :=
  return (← get).labels

/-- Tells what a producer tells. -/
def tell (emit : Emit α) : Replay α := do
  let (outcome, items) := emit.run.run #[]
  modify fun trail => { trail with steps := trail.steps ++ items.map .tell }
  outcome

end Replay

/-! ### Agreement with a producer -/

theorem Emit.lift_ok_bind {α β : Type} (value : α) (next : α → Emit β) :
    ((liftM (.ok value : Except ClassError α) : Emit α) >>= next) = next value :=
  rfl

theorem Emit.lift_bind {α β : Type} (first : Except ClassError α) (second : α → Except ClassError β) :
    (liftM (first >>= second) : Emit β) = liftM first >>= fun value => liftM (second value) := by
  cases first <;> rfl

namespace Replay

variable {α β : Type} {labels : LabelSet} {offsets more : List Nat}

theorem lift_ok_bind (value : α) (next : α → Replay β) :
    ((liftM (.ok value : Except ClassError α) : Replay α) >>= next) = next value :=
  rfl

/-- Whether a replay from a label map ends with an outcome behind the given steps, and a producer with the
same outcome behind the same items, while all labels that are looked up are in the map, which stays. -/
structure Performs (labels : LabelSet) (replay : Replay α) (emit : Emit α)
    (outcome : Except ClassError α) (steps : List ReplayStep) : Prop where
  runs : ∀ before, replay.run.run ⟨labels, before⟩ = (outcome, ⟨labels, before ++ steps.toArray⟩)
  tells : ∀ before, emit.run.run before =
    (outcome, before ++ (steps.filterMap ReplayStep.item?).toArray)
  looks : ∀ label ∈ steps.filterMap ReplayStep.label?, label ∈ labels

/-- Whether a walk that should come by some offsets came by all of them if there is a value, and was on its
way if there is none, for an error that is not about the layout of code. -/
def Ends (offsets reached : List Nat) : Except ClassError α → Prop
  | .ok _ => reached = offsets
  | .error cause => reached <+: offsets ∧ cause.isAboutLayout = false

/-- Whether a replay does the same as a producer, with a label map that it leaves alone, and comes by the
given offsets. -/
def Agrees (labels : LabelSet) (offsets : List Nat) (replay : Replay α) (emit : Emit α) : Prop :=
  ∃ outcome steps, Performs labels replay emit outcome steps ∧
    Ends offsets (steps.filterMap ReplayStep.offset?) outcome

theorem ends_nil {outcome : Except ClassError α} (spares : SparesLayout outcome) : Ends [] [] outcome := by
  cases outcome with
  | ok value => exact rfl
  | error cause => exact ⟨List.nil_prefix, spares⟩

theorem agrees_lift {computed : Except ClassError α} (spares : SparesLayout computed) :
    Agrees labels [] (liftM computed) (liftM computed) := by
  refine ⟨computed, [], ⟨fun before => ?_, fun before => ?_, by simp⟩, ends_nil spares⟩
  · cases computed <;> simp <;> rfl
  · cases computed <;> simp <;> rfl

theorem agrees_pure (value : α) : Agrees labels [] (pure value) (pure value) :=
  agrees_lift (sparesLayout_ok value)

theorem agrees_reach (pc : Nat) : Agrees labels [pc] (reach pc) (pure ()) :=
  ⟨.ok (), [.reach pc], ⟨fun _ => by simp; rfl, fun _ => by simp [ReplayStep.item?]; rfl,
    by simp [ReplayStep.label?]⟩, rfl⟩

theorem Agrees.bind {replay : Replay α} {emit : Emit α} {later : α → Replay β} {behind : α → Emit β}
    (first : Agrees labels offsets replay emit)
    (next : ∀ before value after, Emit.Tells emit before value after →
      Agrees labels more (later value) (behind value)) :
    Agrees labels (offsets ++ more) (replay >>= later) (emit >>= behind) := by
  rcases first with ⟨outcome, steps, performs, ends⟩
  cases outcome with
  | error cause =>
      refine ⟨.error cause, steps, ⟨fun before => ?_, fun before => ?_, performs.looks⟩,
        ends.1.trans (List.prefix_append ..), ends.2⟩
      · rw [ExceptT.run_bind, StateT.run_bind, performs.runs]
        rfl
      · rw [ExceptT.run_bind, StateT.run_bind, performs.tells]
        rfl
  | ok value =>
      rcases next #[] value _ (performs.tells #[]) with ⟨outcome, others, also, endsAlso⟩
      refine ⟨outcome, steps ++ others, ⟨fun before => ?_, fun before => ?_, ?_⟩, ?_⟩
      · rw [ExceptT.run_bind, StateT.run_bind, performs.runs]
        exact (also.runs _).trans (by simp)
      · rw [ExceptT.run_bind, StateT.run_bind, performs.tells]
        exact (also.tells _).trans (by simp)
      · rw [List.filterMap_append]
        exact List.forall_mem_append.mpr ⟨performs.looks, also.looks⟩
      · have here : steps.filterMap ReplayStep.offset? = offsets := ends
        rw [List.filterMap_append, here]
        cases outcome with
        | ok value => exact congrArg (offsets ++ ·) endsAlso
        | error cause => exact ⟨(List.prefix_append_right_inj offsets).mpr endsAlso.1, endsAlso.2⟩

/-- A step in front of the walk or behind it. -/
theorem Agrees.andThen {replay : Replay α} {emit : Emit α} {later : α → Replay β} {behind : α → Emit β}
    (first : Agrees labels offsets replay emit)
    (next : ∀ value, Agrees labels [] (later value) (behind value)) :
    Agrees labels offsets (replay >>= later) (emit >>= behind) := by
  have both := first.bind fun _ value _ _ => next value
  rwa [List.append_nil] at both

/-- A step that is computed without telling anything. -/
theorem Agrees.bind_lift {computed : Except ClassError α} {later : α → Replay β} {behind : α → Emit β}
    (spares : SparesLayout computed)
    (next : ∀ value, computed = .ok value → Agrees labels offsets (later value) (behind value)) :
    Agrees labels offsets (liftM computed >>= later) (liftM computed >>= behind) :=
  (agrees_lift spares).bind fun _ value _ told => next value (Emit.tells_lift.mp told).1

theorem Agrees.reach {pc : Nat} {later : Unit → Replay β} {behind : Emit β}
    (agrees : Agrees labels offsets (later ()) behind) :
    Agrees labels (pc :: offsets) (reach pc >>= later) behind := by
  have both := (agrees_reach pc).bind fun _ _ _ _ => agrees
  rwa [pure_bind] at both

theorem Agrees.known {later : LabelSet → Replay β} {behind : Emit β}
    (agrees : Agrees labels offsets (later labels) behind) :
    Agrees labels offsets (Replay.labels >>= later) behind := by
  have reads : Agrees labels [] Replay.labels (pure labels) :=
    ⟨.ok labels, [], ⟨fun _ => by simp; rfl, fun _ => by simp; rfl, by simp⟩, rfl⟩
  have both : Agrees labels ([] ++ offsets) (Replay.labels >>= later)
      (pure labels >>= fun _ => behind) := by
    refine reads.bind fun _ value _ told => ?_
    rw [← (Emit.tells_pure.mp told).1]
    exact agrees
  rwa [pure_bind] at both

/-- The look-up of a place that has a label. -/
theorem agrees_look {place : Except ClassError Label} {label : Label} (found : place = .ok label)
    (isKnown : label ∈ labels) : Agrees labels [] (look place) (liftM place) := by
  subst found
  refine ⟨.ok label, [.look label], ⟨fun before => ?_, fun before => ?_, ?_⟩, rfl⟩
  · have kept : (if labels.contains label then labels else labels.insert label) = labels :=
      if_pos (Std.HashSet.contains_iff_mem.mpr isKnown)
    have pushed : before.push (.look label) = before ++ [ReplayStep.look label].toArray :=
      Array.push_eq_append
    rw [← pushed]
    exact congrArg (fun labels => (Except.ok label, Trail.mk labels (before.push (.look label)))) kept
  · exact congrArg (Except.ok label, ·) (Array.append_empty).symm
  · simpa [ReplayStep.label?] using isKnown

theorem Agrees.look {place : Except ClassError Label} {label : Label} (found : place = .ok label)
    (isKnown : label ∈ labels) {later : Label → Replay β} {behind : Label → Emit β}
    (next : Agrees labels offsets (later label) (behind label)) :
    Agrees labels offsets (look place >>= later) (liftM place >>= behind) := by
  refine (agrees_look found isKnown).bind fun _ other _ told => ?_
  obtain rfl := Except.ok.inj (found.symm.trans (Emit.tells_lift.mp told).1)
  exact next

theorem agrees_tell {emit : Emit α} (spares : emit.SparesLayout) : Agrees labels [] (tell emit) emit := by
  rcases spares with ⟨⟨outcome, items, runs, -⟩, stops⟩
  have stops := stops #[]
  have none : (items.toList.map ReplayStep.tell).filterMap ReplayStep.offset? = [] := by
    simp [List.filterMap_map, Function.comp_def, ReplayStep.offset?]
  rw [runs] at stops
  refine ⟨outcome, items.toList.map .tell, ⟨fun before => ?_, fun before => ?_, ?_⟩, ?_⟩
  · have noted : before ++ (items.toList.map ReplayStep.tell).toArray =
        before ++ (#[] ++ items).map ReplayStep.tell := by
      rw [Array.empty_append, ← Array.toList_map, Array.toArray_toList]
    unfold tell
    rw [runs, noted]
    cases outcome <;> rfl
  · rw [runs]
    simp [List.filterMap_map, Function.comp_def, ReplayStep.item?]
  · simp [List.filterMap_map, Function.comp_def, ReplayStep.label?]
  · rw [none]
    exact ends_nil stops

theorem Agrees.forM {values : List β} {each : β → Replay Unit} {tells : β → Emit Unit}
    (agrees : ∀ value ∈ values, Agrees labels [] (each value) (tells value)) :
    Agrees labels [] (values.forM each) (values.forM tells) := by
  induction values with
  | nil => exact agrees_pure ()
  | cons value values ih =>
      rw [List.forall_mem_cons] at agrees
      exact agrees.1.andThen fun _ => ih agrees.2

theorem Agrees.mapM {values : List β} {each : β → Replay α} {tells : β → Emit α}
    (agrees : ∀ value ∈ values, Agrees labels [] (each value) (tells value)) :
    Agrees labels [] (values.mapM each) (values.mapM tells) := by
  induction values with
  | nil => exact agrees_pure []
  | cons value values ih =>
      rw [List.forall_mem_cons] at agrees
      rw [List.mapM_cons, List.mapM_cons]
      refine agrees.1.andThen fun first => ?_
      exact (ih agrees.2).andThen fun others => agrees_pure (first :: others)

end Replay

/-! ### The replay of a body -/

namespace ClassImage

/-- Looks up the targets of a table switch, as `readTargets` reads them. -/
def replayTargets (image : ClassImage) (code : CodeArray) (pc offset : Nat) (found : List Label) :
    (count : Nat) → Replay (List Label)
  | 0 => pure found.reverse
  | count + 1 => do
      let delta ← image.input.i32 offset
      let target ← Replay.look (code.branch (pc - code.start) delta.toInt pc)
      replayTargets image code pc (offset + 4) (target :: found) count

/-- Looks up the cases of a lookup switch, as `readCases` reads them. -/
def replayCases (image : ClassImage) (code : CodeArray) (pc offset : Nat)
    (found : List (Int32 × Label)) : (count : Nat) → Replay (List (Int32 × Label))
  | 0 => pure found.reverse
  | count + 1 => do
      let key ← image.input.i32 offset
      let delta ← image.input.i32 (offset + 4)
      let target ← Replay.look (code.branch (pc - code.start) delta.toInt pc)
      replayCases image code pc (offset + 8) ((key, target) :: found) count

/-- Reads the instruction at `pc` and looks up where it leads. -/
def replayInstruction (image : ClassImage) (api : Api) (code : CodeArray) (pc : Nat) :
    Replay (Instruction × Nat) := do
  let position := pc - code.start
  let byte ← image.input.u8 pc
  match Layout.ofByte? byte with
  | some .jump =>
      let delta ← image.input.i16 (pc + 1)
      let target ← Replay.look (code.branch position delta.toInt pc)
      return (.jump (← opcodeAt byte pc) target, pc + 3)
  | some .jumpWide =>
      let delta ← image.input.i32 (pc + 1)
      let target ← Replay.look (code.branch position delta.toInt pc)
      return (.jump (if byte = Layout.gotoWide then .goto else .jsr) target, pc + 5)
  | some .tableSwitch =>
      let head ← image.tableHead pc position code.stop
      let default ← Replay.look (code.branch position head.default.toInt pc)
      let targets ← image.replayTargets code pc head.table [] head.count
      return (.tableSwitch head.low head.high default targets, head.table + head.count * 4)
  | some .lookupSwitch =>
      let head ← image.lookupHead pc position code.stop
      let default ← Replay.look (code.branch position head.default.toInt pc)
      let cases ← image.replayCases code pc head.cases [] head.count
      return (.lookupSwitch default cases, head.cases + head.count * 8)
  | _ => image.readInstruction api code pc

/-- Looks up the places of `count` exception handlers, the first of them at `offset`, and tells them. -/
def replayHandlers (image : ClassImage) (code : CodeArray) (offset : Nat) :
    (count : Nat) → Replay Unit
  | 0 => pure ()
  | count + 1 => do
      let start ← Replay.look (code.place (← image.input.u16 offset).toNat offset)
      let stop ← Replay.look (code.place (← image.input.u16 (offset + 2)).toNat offset)
      let handler ← Replay.look (code.place (← image.input.u16 (offset + 4)).toNat offset)
      let type? ← Pool.optional image.pool.classRef (← image.input.u16 (offset + 6))
      Replay.tell (tellItem (.tryCatch ⟨start, stop, handler, type?⟩))
      replayHandlers image code (offset + 8) count

/-- Tells the label of a place, if the map has one by now, and its line numbers. -/
def replayLabel (body : CodeBody) (position : Label) : Replay Unit := do
  if (← Replay.labels).contains position then
    Replay.tell do
      tellInstruction (.label position)
      (body.lines.getD position #[]).toList.forM fun line =>
        tellInstruction (.line line position)

/-- Walks over the instructions from `pc` on, as `tellInstructions` does. -/
def replayInstructions (image : ClassImage) (api : Api) (body : CodeBody)
    (annotations : Std.HashMap Label (Array CodeAnnotation)) (pc : Nat)
    (frames : List (Label × Frame)) (fuel : Nat) : Replay Unit := do
  Replay.reach pc
  if pc < body.code.stop then
    match fuel with
    | 0 => throw (.panic .endless)
    | fuel + 1 => do
        let position ← body.code.position pc
        replayLabel body position
        let frames ← Replay.tell (tellFrames position frames)
        let (instruction, next) ← image.replayInstruction api body.code pc
        Replay.tell (tellInstruction instruction)
        Replay.tell <| (annotations.getD position #[]).toList.forM fun note =>
          image.tellCodeAnnotation (.annotateInstruction note.use) note
        replayInstructions image api body annotations next frames fuel
  else pure ()

/-- Looks up the bounds of `count` local variables, the first of them at `offset`, and tells them. -/
def replayVariables (image : ClassImage) (code : CodeArray) (types : VariableTypes)
    (offset : Nat) : (count : Nat) → Replay Unit
  | 0 => pure ()
  | count + 1 => do
      let start ← image.input.u16 offset
      let length ← image.input.u16 (offset + 2)
      let name ← image.textAt (offset + 4)
      let descriptor ← image.textAt (offset + 6)
      let slot ← image.input.u16 (offset + 8)
      let first ← Replay.look (code.place start.toNat offset)
      let stop ← Replay.look (code.place (start.toNat + length.toNat) offset)
      let signature? := types[(start, length, slot)]?
      Replay.tell (tellItem (.localVariable ⟨name, descriptor, signature?, ⟨first, stop, slot⟩⟩))
      replayVariables image code types (offset + 10) count

/-- Looks up the bounds of the local variables of a body and tells them. -/
def replayVariableTable (image : ClassImage) (body : CodeBody) : Replay Unit := do
  match body.localVariables? with
  | none => pure ()
  | some offset =>
      let types ← match body.variableTypes? with
        | none => pure (∅ : VariableTypes)
        | some place => do
            let count ← image.input.u16 place
            image.variableTypes (place + 2) ∅ count.toNat
      let count ← image.input.u16 offset
      image.replayVariables body.code types (offset + 2) count.toNat

/-- Looks up the ranges of the annotations of local variables and tells these. -/
def replayVariableAnnotations (image : ClassImage) (body : CodeBody) (source : Nat) : Replay Unit :=
  body.annotations.toList.forM fun note =>
    match note.location with
    | .ranges ranges => do
        let places ← ranges.mapM fun range => do
          let start ← Replay.look (body.code.place range.start.toNat source)
          let stop ← Replay.look (body.code.place (range.start.toNat + range.length.toNat) source)
          pure (⟨start, stop, range.slot⟩ : LabelRange)
        Replay.tell (image.tellCodeAnnotation (.annotateLocal note.use places) note)
    | _ => pure ()

/-- The second pass over a body that the first has read, with the label map that the first has left, up to
the attributes that the format does not define. -/
def replayBody (image : ClassImage) (api : Api) (entry : RawAttribute) (body : CodeBody) :
    Replay Unit := do
  Replay.tell (tellItem .code)
  image.replayHandlers body.code body.handlersOffset body.handlers
  Replay.tell (image.tellHandlerAnnotations body)
  image.replayInstructions api body (instructionAnnotations body) body.code.start body.frames
    body.code.length
  if (← Replay.labels).contains body.code.length then
    Replay.tell (tellInstruction (.label body.code.length))
  image.replayVariableTable body
  image.replayVariableAnnotations body entry.offset

end ClassImage

end ClassFile
