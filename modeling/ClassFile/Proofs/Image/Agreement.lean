import ClassFile.Proofs.Image.Methods
import ClassFile.Proofs.Image.Replay

/-!
# The two passes agree

If the first pass over a body accepts it, the second comes by the same offsets and ends where the code
ends, finds a label for every place that it looks up, and never fails because a place is outside the code
(`ClassImage.PassesAgree`).  One instruction is compared by what the first pass does with it
(`ClassImage.IsMarkedAs`), the walks in lockstep, and the tables by what is marked of them.
-/

namespace ClassFile

/-- The label of a place that an instruction leads to. -/
theorem CodeArray.Adds.branch {code : CodeArray} {position : Nat} {delta : Int} {source : Nat}
    {target : Label} (reached : code.branch position delta source = .ok target) (labels : LabelSet) :
    code.Adds labels (labels.insert target) :=
  .insert (Nat.le_of_lt (ClassImage.branch_lt reached)) labels

namespace ClassImage

variable {image : ClassImage} {api : Api} {code : CodeArray} {body : CodeBody} {pc : Nat}
  {labels found : LabelSet}

/-! ### What the first pass does -/

theorem adds_of_markTargets {stride offset count : Nat}
    (marked : image.markTargets code pc stride offset labels count = .ok found) :
    code.Adds labels found := by
  induction count generalizing offset labels with
  | zero =>
      cases marked
      exact .refl _
  | succ count ih =>
      simp only [markTargets, bind_eq_ok] at marked
      rcases marked with ⟨delta, -, target, reached, others⟩
      exact (CodeArray.Adds.branch reached labels).trans (ih others)

/-- The target in front of the targets that are marked stays marked. -/
theorem isMarked_of_markTargets {target : Label} {stride offset count : Nat}
    (marked : image.markTargets code pc stride offset (labels.insert target) count = .ok found) :
    target ∈ found :=
  (adds_of_markTargets marked).keeps target Std.HashSet.mem_insert_self

/-- What the first pass does with the instruction at `pc`: the ones that lead somewhere have cases of
their own. -/
inductive IsMarkedAs (image : ClassImage) (code : CodeArray) (pc : Nat) (labels : LabelSet) :
    LabelSet → Prop where
  | plain {byte : UInt8} {layout : Layout} (readByte : image.input.u8 pc = .ok byte)
      (known : Layout.ofByte? byte = some layout)
      (leadsNowhere : layout ∉ [.jump, .jumpWide, .tableSwitch, .lookupSwitch]) :
      IsMarkedAs image code pc labels labels
  | jump {byte : UInt8} {delta : Int16} {target : Label}
      (readByte : image.input.u8 pc = .ok byte) (known : Layout.ofByte? byte = some .jump)
      (readDelta : image.input.i16 (pc + 1) = .ok delta)
      (reached : code.branch (pc - code.start) delta.toInt pc = .ok target) :
      IsMarkedAs image code pc labels (labels.insert target)
  | jumpWide {byte : UInt8} {delta : Int32} {target : Label}
      (readByte : image.input.u8 pc = .ok byte) (known : Layout.ofByte? byte = some .jumpWide)
      (readDelta : image.input.i32 (pc + 1) = .ok delta)
      (reached : code.branch (pc - code.start) delta.toInt pc = .ok target) :
      IsMarkedAs image code pc labels (labels.insert target)
  | tableSwitch {byte : UInt8} {head : TableHead} {default : Label} {found : LabelSet}
      (readByte : image.input.u8 pc = .ok byte) (known : Layout.ofByte? byte = some .tableSwitch)
      (readHead : image.tableHead pc (pc - code.start) code.stop = .ok head)
      (reached : code.branch (pc - code.start) head.default.toInt pc = .ok default)
      (marked : image.markTargets code pc 4 head.table (labels.insert default) head.count =
        .ok found) :
      IsMarkedAs image code pc labels found
  | lookupSwitch {byte : UInt8} {head : LookupHead} {default : Label} {found : LabelSet}
      (readByte : image.input.u8 pc = .ok byte) (known : Layout.ofByte? byte = some .lookupSwitch)
      (readHead : image.lookupHead pc (pc - code.start) code.stop = .ok head)
      (reached : code.branch (pc - code.start) head.default.toInt pc = .ok default)
      (marked : image.markTargets code pc 8 (head.cases + 4) (labels.insert default) head.count =
        .ok found) :
      IsMarkedAs image code pc labels found

theorem isMarkedAs_of_markInstruction {next : Nat}
    (accepted : image.markInstruction code pc labels = .ok (found, next)) :
    IsMarkedAs image code pc labels found := by
  simp only [markInstruction, bind_eq_ok] at accepted
  rcases accepted with ⟨position, behind, byte, readByte, accepted⟩
  obtain rfl := (CodeArray.position_eq_ok.mp behind).2
  cases known : Layout.ofByte? byte with
  | none => simp [known] at accepted
  | some layout =>
      simp only [known] at accepted
      cases layout
      case jump =>
        simp only [bind_eq_ok, pure_eq_ok] at accepted
        rcases accepted with ⟨delta, readDelta, target, reached, same⟩
        cases same
        exact .jump readByte known readDelta reached
      case jumpWide =>
        simp only [bind_eq_ok, pure_eq_ok] at accepted
        rcases accepted with ⟨delta, readDelta, target, reached, same⟩
        cases same
        exact .jumpWide readByte known readDelta reached
      case tableSwitch =>
        simp only [bind_eq_ok, pure_eq_ok] at accepted
        rcases accepted with ⟨head, readHead, default, reached, labels, marked, same⟩
        cases same
        exact .tableSwitch readByte known readHead reached marked
      case lookupSwitch =>
        simp only [bind_eq_ok, pure_eq_ok] at accepted
        rcases accepted with ⟨head, readHead, default, reached, labels, marked, same⟩
        cases same
        exact .lookupSwitch readByte known readHead reached marked
      case wide =>
        simp only [bind_eq_ok] at accepted
        rcases accepted with ⟨opcode, -, accepted⟩
        split at accepted
        · cases accepted
          exact .plain readByte known (by decide)
        · cases accepted
          exact .plain readByte known (by decide)
        · cases accepted
      all_goals
        cases accepted
        exact .plain readByte known (by decide)

theorem IsMarkedAs.adds (marked : IsMarkedAs image code pc labels found) : code.Adds labels found := by
  cases marked with
  | plain => exact .refl _
  | jump _ _ _ reached => exact .branch reached labels
  | jumpWide _ _ _ reached => exact .branch reached labels
  | tableSwitch _ _ _ reached marked =>
      exact (CodeArray.Adds.branch reached labels).trans (adds_of_markTargets marked)
  | lookupSwitch _ _ _ reached marked =>
      exact (CodeArray.Adds.branch reached labels).trans (adds_of_markTargets marked)

/-- Whether the first pass comes by the given offsets in the file from `pc` on, the last of them where it
ends, and the label map becomes `found` on the way. -/
inductive Comes (image : ClassImage) (code : CodeArray) :
    Nat → LabelSet → List Nat → LabelSet → Prop where
  | stop {pc : Nat} {labels : LabelSet} (outside : code.stop ≤ pc) : Comes image code pc labels [pc] labels
  | step {pc next : Nat} {labels between found : LabelSet} {offsets : List Nat} (inside : pc < code.stop)
      (accepted : image.markInstruction code pc labels = .ok (between, next))
      (others : Comes image code next between offsets found) :
      Comes image code pc labels (pc :: offsets) found

theorem Comes.adds {offsets : List Nat} (comes : Comes image code pc labels offsets found) :
    code.Adds labels found := by
  induction comes with
  | stop => exact .refl _
  | step _ accepted _ ih => exact (isMarkedAs_of_markInstruction accepted).adds.trans ih

/-- There is one way for the first pass to come by offsets. -/
theorem Comes.unique {offsets others : List Nat} {found' : LabelSet}
    (comes : Comes image code pc labels offsets found) (again : Comes image code pc labels others found') :
    offsets = others := by
  induction comes generalizing others with
  | stop outside =>
      cases again with
      | stop => rfl
      | step inside => exact absurd inside (Nat.not_lt.mpr outside)
  | step inside accepted _ ih =>
      cases again with
      | stop outside => exact absurd inside (Nat.not_lt.mpr outside)
      | step _ same behind =>
          cases accepted.symm.trans same
          rw [ih behind]

theorem exists_comes {fuel : Nat}
    (marks : image.markInstructions code pc labels fuel = .ok (found, code.stop)) :
    ∃ offsets, Comes image code pc labels (offsets ++ [code.stop]) found ∧ offsets.length ≤ fuel := by
  induction fuel generalizing pc labels with
  | zero =>
      unfold markInstructions at marks
      split at marks
      · cases marks
      · rename_i outside
        cases marks
        exact ⟨[], .stop (Nat.not_lt.mp outside), Nat.zero_le _⟩
  | succ fuel ih =>
      unfold markInstructions at marks
      split at marks
      · rename_i inside
        rcases bind_eq_ok.mp marks with ⟨⟨between, next⟩, accepted, others⟩
        rcases ih others with ⟨offsets, comes, few⟩
        exact ⟨pc :: offsets, .step inside accepted comes, Nat.succ_le_succ few⟩
      · rename_i outside
        cases marks
        exact ⟨[], .stop (Nat.not_lt.mp outside), Nat.zero_le _⟩

/-! ### The replay of an instruction -/

open Replay

variable {known : LabelSet}

theorem agrees_replayTargets {offset count : Nat} {targets : List Label}
    (marked : image.markTargets code pc 4 offset labels count = .ok found)
    (grows : ∀ label ∈ found, label ∈ known) :
    Agrees known [] (image.replayTargets code pc offset targets count)
      (liftM (image.readTargets code pc offset targets count)) := by
  induction count generalizing offset labels targets with
  | zero => exact agrees_pure _
  | succ count ih =>
      simp only [markTargets, bind_eq_ok] at marked
      rcases marked with ⟨delta, readDelta, target, reached, others⟩
      have isKnown := grows target (isMarked_of_markTargets others)
      simp only [replayTargets, readTargets, readDelta, ok_bind, Replay.lift_ok_bind, Emit.lift_bind]
      exact .look reached isKnown (ih others)

theorem agrees_replayCases {offset count : Nat} {cases : List (Int32 × Label)}
    (marked : image.markTargets code pc 8 (offset + 4) labels count = .ok found)
    (grows : ∀ label ∈ found, label ∈ known) :
    Agrees known [] (image.replayCases code pc offset cases count)
      (liftM (image.readCases code pc offset cases count)) := by
  induction count generalizing offset labels cases with
  | zero => exact agrees_pure _
  | succ count ih =>
      simp only [markTargets, bind_eq_ok] at marked
      rcases marked with ⟨delta, readDelta, target, reached, others⟩
      have isKnown := grows target (isMarked_of_markTargets others)
      rw [Nat.add_right_comm] at others
      simp only [replayCases, readCases, readDelta, ok_bind, Replay.lift_ok_bind, Emit.lift_bind]
      refine .bind_lift (image.input.sparesLayout_i32 _) fun key _ => ?_
      exact .look reached isKnown (ih others)

/-- The second pass finds a label for every place that an instruction leads to, and stops at an instruction
only for its operands. -/
theorem IsMarkedAs.agrees (marked : IsMarkedAs image code pc labels found)
    (grows : ∀ label ∈ found, label ∈ known) :
    Agrees known [] (image.replayInstruction api code pc) (liftM (image.readInstruction api code pc)) := by
  cases marked with
  | @plain byte layout readByte isLayout leadsNowhere =>
      have plain : image.replayInstruction api code pc = liftM (image.readInstruction api code pc) := by
        simp only [replayInstruction, readByte, Replay.lift_ok_bind, isLayout]
        cases layout
        case jump | jumpWide | tableSwitch | lookupSwitch => simp at leadsNowhere
        all_goals rfl
      rw [plain]
      exact agrees_lift (image.sparesLayout_readInstruction pc readByte isLayout leadsNowhere)
  | @jump byte delta target readByte isLayout readDelta reached =>
      simp only [replayInstruction, readInstruction, readByte, Replay.lift_ok_bind, ok_bind, isLayout,
        readDelta, Emit.lift_bind]
      refine .look reached (grows target Std.HashSet.mem_insert_self) ?_
      exact .bind_lift (sparesLayout_opcodeAt _ byte) fun _ _ => agrees_pure _
  | @jumpWide byte delta target readByte isLayout readDelta reached =>
      simp only [replayInstruction, readInstruction, readByte, Replay.lift_ok_bind, ok_bind, isLayout,
        readDelta, Emit.lift_bind]
      exact .look reached (grows target Std.HashSet.mem_insert_self) (agrees_pure _)
  | @tableSwitch byte head default _ readByte isLayout readHead reached marked =>
      simp only [replayInstruction, readInstruction, readByte, Replay.lift_ok_bind, ok_bind, isLayout,
        readHead, Emit.lift_bind]
      refine .look reached (grows default (isMarked_of_markTargets marked)) ?_
      exact (agrees_replayTargets marked grows).andThen fun _ => agrees_pure _
  | @lookupSwitch byte head default _ readByte isLayout readHead reached marked =>
      simp only [replayInstruction, readInstruction, readByte, Replay.lift_ok_bind, ok_bind, isLayout,
        readHead, Emit.lift_bind]
      refine .look reached (grows default (isMarked_of_markTargets marked)) ?_
      exact (agrees_replayCases marked grows).andThen fun _ => agrees_pure _

/-! ### The two walks -/

theorem agrees_replayLabel (position : Label) :
    Agrees body.labels [] (replayLabel body position) (tellLabel body position) := by
  refine .known ?_
  unfold tellLabel
  split
  · refine agrees_tell ((Emit.sparesLayout_tell _).bind fun _ => ?_)
    exact .forM fun _ _ => Emit.sparesLayout_tell _
  · exact agrees_pure ()

/-- Where the first pass comes by, the second does. -/
theorem agrees_replayInstructions {annotations : Std.HashMap Label (Array CodeAnnotation)}
    {offsets : List Nat} (comes : Comes image body.code pc labels offsets found)
    (grows : ∀ label ∈ found, label ∈ body.labels) (frames : List (Label × Frame)) {fuel : Nat}
    (enough : offsets.length ≤ fuel + 1) :
    Agrees body.labels offsets (image.replayInstructions api body annotations pc frames fuel)
      (image.tellInstructions api body annotations pc frames fuel) := by
  induction comes generalizing frames fuel with
  | stop outside =>
      unfold replayInstructions tellInstructions
      refine .reach ?_
      rw [if_neg (Nat.not_lt.mpr outside), if_neg (Nat.not_lt.mpr outside)]
      exact agrees_pure ()
  | @step pc next labels between found offsets inside accepted others ih =>
      cases fuel with
      | zero =>
          obtain rfl : offsets = [] := by simpa using enough
          cases others
      | succ fuel =>
          have begun := CodeArray.position_eq_ok.mpr ⟨start_le_of_markInstruction accepted, rfl⟩
          have marked := isMarkedAs_of_markInstruction accepted
          have marksKnown : ∀ label ∈ between, label ∈ body.labels :=
            fun label member => grows label (others.adds.keeps label member)
          unfold replayInstructions tellInstructions
          refine .reach ?_
          rw [if_pos inside, if_pos inside]
          simp only [begun, Replay.lift_ok_bind, Emit.lift_ok_bind]
          refine (agrees_replayLabel _).bind fun _ _ _ _ => ?_
          refine (agrees_tell (sparesLayout_tellFrames _ frames)).bind fun _ rest _ _ => ?_
          refine (marked.agrees marksKnown).bind fun _ reached _ told => ?_
          rcases reached with ⟨instruction, ahead⟩
          -- The second pass goes on where the first does.
          have same := markInstruction_eq (Emit.tells_lift.mp told).1 accepted
          obtain rfl := (Prod.mk.inj same).2
          refine (agrees_tell (Emit.sparesLayout_tell _)).bind fun _ _ _ _ => ?_
          refine (agrees_tell (.forM fun note _ =>
            image.sparesLayout_tellCodeAnnotation _ note)).bind fun _ _ _ _ => ?_
          exact ih grows rest (Nat.le_of_succ_le_succ enough)

/-! ### Tables -/

theorem agrees_place {target source : Nat} (isKnown : target ∈ known)
    (inside : ∀ label ∈ known, label ≤ code.length) :
    Agrees known [] (Replay.look (code.place target source)) (liftM (code.place target source)) := by
  refine agrees_look ?_ isKnown
  rw [CodeArray.place, if_neg (Nat.not_lt.mpr (inside target isKnown))]

theorem agrees_replayHandlers {offset count : Nat} (marked : image.HandlersMarked known offset count)
    (inside : ∀ label ∈ known, label ≤ code.length) :
    Agrees known [] (image.replayHandlers code offset count) (image.tellHandlers code offset count) := by
  have reads := image.input.sparesLayout_u16
  induction count generalizing offset with
  | zero => exact agrees_pure ()
  | succ count ih =>
      rcases marked with ⟨here, others⟩
      refine .bind_lift (reads _) fun start read => ?_
      refine (agrees_place (here 0 (by simp) start read) inside).andThen fun _ => ?_
      refine .bind_lift (reads _) fun stop read => ?_
      refine (agrees_place (here 2 (by simp) stop read) inside).andThen fun _ => ?_
      refine .bind_lift (reads _) fun handler read => ?_
      refine (agrees_place (here 4 (by simp) handler read) inside).andThen fun _ => ?_
      refine .bind_lift (reads _) fun type _ => ?_
      refine .bind_lift (Pool.sparesLayout_optional _ (image.pool.sparesLayout_classRef _)) fun type? _ => ?_
      exact (agrees_tell (Emit.sparesLayout_tell _)).andThen fun _ => ih others

theorem agrees_replayVariables {types : VariableTypes} {offset count : Nat}
    (marked : image.VariablesMarked known offset count) (inside : ∀ label ∈ known, label ≤ code.length) :
    Agrees known [] (image.replayVariables code types offset count)
      (image.tellVariables code types offset count) := by
  have reads := image.input.sparesLayout_u16
  induction count generalizing offset with
  | zero => exact agrees_pure ()
  | succ count ih =>
      rcases marked with ⟨here, others⟩
      refine .bind_lift (reads _) fun start readStart => ?_
      refine .bind_lift (reads _) fun length readLength => ?_
      rcases here start length readStart readLength with ⟨first, stop⟩
      refine .bind_lift (image.sparesLayout_textAt _) fun name _ => ?_
      refine .bind_lift (image.sparesLayout_textAt _) fun descriptor _ => ?_
      refine .bind_lift (reads _) fun slot _ => ?_
      refine (agrees_place first inside).andThen fun _ => ?_
      refine (agrees_place stop inside).andThen fun _ => ?_
      exact (agrees_tell (Emit.sparesLayout_tell _)).andThen fun _ => ih others

theorem agrees_replayVariableTable (isMarked : body.IsMarked image)
    (inside : ∀ label ∈ body.labels, label ≤ body.code.length) :
    Agrees body.labels [] (image.replayVariableTable body) (image.tellVariableTable body) := by
  have reads := image.input.sparesLayout_u16
  unfold replayVariableTable tellVariableTable
  cases present : body.localVariables? with
  | none => exact agrees_pure ()
  | some offset =>
      have table (types : VariableTypes) : Agrees body.labels []
          (do
            let count ← image.input.u16 offset
            image.replayVariables body.code types (offset + 2) count.toNat)
          (do
            let count ← image.input.u16 offset
            image.tellVariables body.code types (offset + 2) count.toNat) :=
        .bind_lift (reads _) fun count read =>
          agrees_replayVariables (isMarked.locals offset present count read) inside
      cases body.variableTypes? with
      | none => exact table ∅
      | some place =>
          refine .bind_lift (reads _) fun count _ => ?_
          exact .bind_lift (image.sparesLayout_variableTypes _ _ _) fun types _ => table types

theorem agrees_replayVariableAnnotations (isMarked : body.IsMarked image)
    (inside : ∀ label ∈ body.labels, label ≤ body.code.length) (source : Nat) :
    Agrees body.labels [] (image.replayVariableAnnotations body source)
      (image.tellVariableAnnotations body source) := by
  refine .forM fun note member => ?_
  have marked := (isMarked.annotations note (Array.mem_toList_iff.mp member)).2
  cases located : note.location with
  | ranges ranges =>
      rw [located] at marked
      refine (Agrees.mapM fun range inList => ?_).andThen fun places => ?_
      · rcases marked range inList with ⟨start, stop⟩
        refine (agrees_place start inside).andThen fun _ => ?_
        exact (agrees_place stop inside).andThen fun _ => agrees_pure _
      · exact agrees_tell (image.sparesLayout_tellCodeAnnotation _ note)
  | _ => exact agrees_pure ()

/-! ### The whole body -/

variable {options : ReadOptions} {entry : RawAttribute}

theorem labels_le_of_codeBody (read : image.codeBody options entry = .ok body) :
    ∀ label ∈ body.labels, label ≤ body.code.length := by
  rcases continues_of_codeBody read with ⟨start, marks, continues, -, -⟩
  rcases exists_comes marks with ⟨offsets, comes, -⟩
  intro label member
  rw [continues.code]
  rcases continues.adds.places label member with early | inside
  · exact (comes.adds.places label early).resolve_left Std.HashSet.not_mem_empty
  · exact inside

/-- What the second pass tells of a body up to the attributes that the format does not define. -/
def tellBody (image : ClassImage) (api : Api) (entry : RawAttribute) (body : CodeBody) : Emit Unit := do
  tellItem .code
  image.tellHandlers body.code body.handlersOffset body.handlers
  image.tellHandlerAnnotations body
  image.tellInstructions api body (instructionAnnotations body) body.code.start body.frames
    body.code.length
  if body.labels.contains body.code.length then
    tellInstruction (.label body.code.length)
  image.tellVariableTable body
  image.tellVariableAnnotations body entry.offset

theorem tellCode_eq (read : image.codeBody options entry = .ok body) :
    image.tellCode options entry = (do
      image.tellBody options.api entry body
      image.tellOthers options true body.common
      tellItem (.maxs body.maxStack body.maxLocals)) := by
  unfold tellCode tellBody
  rw [read, Emit.lift_ok_bind]
  split <;> simp only [bind_assoc]

theorem agrees_replayBody (api : Api) (read : image.codeBody options entry = .ok body) {offsets : List Nat}
    (comes : Comes image body.code body.code.start ∅ offsets found)
    (grows : ∀ label ∈ found, label ∈ body.labels) (enough : offsets.length ≤ body.code.length + 1) :
    Agrees body.labels offsets (image.replayBody api entry body) (image.tellBody api entry body) := by
  have inside := labels_le_of_codeBody read
  rcases codeBody_marks read with ⟨isMarked, handlersMarked, -⟩
  have told (item : MethodItem) : Agrees body.labels [] (Replay.tell (tellItem item)) (tellItem item) :=
    agrees_tell (Emit.sparesLayout_tell _)
  have table := agrees_replayVariableTable isMarked inside
  have annotations := agrees_replayVariableAnnotations isMarked inside entry.offset
  unfold replayBody tellBody
  refine (told .code).bind fun _ _ _ _ => ?_
  refine (agrees_replayHandlers handlersMarked inside).bind fun _ _ _ _ => ?_
  refine (agrees_tell (image.sparesLayout_tellHandlerAnnotations body)).bind fun _ _ _ _ => ?_
  refine (agrees_replayInstructions comes grows body.frames enough).andThen fun _ => .known ?_
  split
  · exact (told _).andThen fun _ => table.andThen fun _ => annotations
  · exact table.andThen fun _ => annotations

/-- Whether the second pass over a body agrees with the first, which came by `offsets`: up to the attributes
that the format does not define, the second ends with `outcome` behind `steps`. -/
structure PassesAgree (image : ClassImage) (options : ReadOptions) (entry : RawAttribute) (body : CodeBody)
    (offsets : List Nat) (outcome : Except ClassError Unit) (steps : List ReplayStep) : Prop where
  /-- The first pass ends where the code ends, and the labels that it marks on the way stay. -/
  comes : ∃ found, Comes image body.code body.code.start ∅ (offsets ++ [body.code.stop]) found ∧
    ∀ label ∈ found, label ∈ body.labels
  /-- The second pass leaves the label map of the first as it is. -/
  replays : (image.replayBody options.api entry body).run.run ⟨body.labels, #[]⟩ =
    (outcome, ⟨body.labels, steps.toArray⟩)
  /-- The second pass tells the items of the steps and stops or goes on as they do; what is left are the
  attributes that the format does not define. -/
  tells : ∀ before, (image.tellCode options entry).run.run before =
    (do
      liftM outcome
      image.tellOthers options true body.common
      tellItem (.maxs body.maxStack body.maxLocals) : Emit Unit).run.run
        (before ++ (steps.filterMap ReplayStep.item?).toArray)
  /-- Wherever a listener stops the second pass, it was on the way of the first and has looked up labels of
  the first. -/
  follows : ∀ part, part <+: steps →
    part.filterMap ReplayStep.offset? <+: offsets ++ [body.code.stop] ∧
      ∀ label ∈ part.filterMap ReplayStep.label?, label ∈ body.labels
  completes : outcome = .ok () →
    steps.filterMap ReplayStep.offset? = offsets ++ [body.code.stop]
  causes : ∀ cause, outcome = .error cause → cause.isAboutLayout = false

/-- The two passes over a body agree. -/
theorem exists_passesAgree (read : image.codeBody options entry = .ok body) :
    ∃ offsets outcome steps, image.PassesAgree options entry body offsets outcome steps := by
  rcases codeBody_marks read with ⟨-, -, found, marks, grows⟩
  rcases exists_comes marks with ⟨offsets, comes, few⟩
  have enough : (offsets ++ [body.code.stop]).length ≤ body.code.length + 1 := by
    rw [List.length_append]
    exact Nat.succ_le_succ few
  rcases agrees_replayBody options.api read comes grows enough with ⟨outcome, steps, performs, ends⟩
  have walked : steps.filterMap ReplayStep.offset? <+: offsets ++ [body.code.stop] := by
    cases outcome with
    | ok value => exact ends ▸ List.prefix_rfl
    | error cause => exact ends.1
  refine ⟨offsets, outcome, steps, ⟨found, comes, grows⟩, ?_, ?_, ?_, ?_, ?_⟩
  · rw [performs.runs, Array.empty_append]
  · intro before
    rw [tellCode_eq read, ExceptT.run_bind, StateT.run_bind, performs.tells]
    cases outcome <;> rfl
  · intro part cut
    refine ⟨(cut.filterMap _).trans walked, fun label member => performs.looks label ?_⟩
    exact (cut.filterMap _).subset member
  · rintro rfl
    exact ends
  · rintro cause rfl
    exact ends.2

theorem exists_passesAgree_twoJumps : ∃ body steps, twoJumpsImage.codeBody {} twoJumpsEntry = .ok body ∧
    twoJumpsImage.PassesAgree {} twoJumpsEntry body [64, 67] (.ok ()) steps ∧
    steps.filterMap ReplayStep.offset? = [64, 67, 70] := by
  have read := @codeBody_plain twoJumpsImage {} twoJumpsEntry 0 0 _ _ rfl hasAt_twoJumps rfl (by decide)
    (by decide) reads_twoJumps
  have told := @tellCode_plain twoJumpsImage {} twoJumpsEntry 0 0 _ _ rfl hasAt_twoJumps rfl (by decide)
    (by decide) reads_twoJumps
  rcases exists_passesAgree read with ⟨offsets, outcome, steps, agree⟩
  have walk : Comes twoJumpsImage ⟨64, 6⟩ 64 ∅ [64, 67, 70] _ :=
    .step (by decide) rfl (.step (by decide) rfl (.stop (by decide)))
  obtain rfl : offsets = [64, 67] := by
    rcases agree.comes with ⟨found, comes, -⟩
    exact List.append_cancel_right (comes.unique walk)
  have ends := agree.tells #[]
  rw [Emit.collect_eq_ok.mp told] at ends
  obtain rfl : outcome = .ok () := by
    cases outcome with
    | ok => rfl
    | error cause => cases ends
  exact ⟨_, steps, read, agree, agree.completes rfl⟩

end ClassImage

end ClassFile
