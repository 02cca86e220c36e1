import ClassFile.Proofs.RoundTrip
import ClassFile.Proofs.Rewriting.Values

/-!
# Annotations that are still open

The bytes of an annotation are complete at every moment.  Whichever scopes inside it are still open, what
was told so far is read from the bytes, as if all of them were closed (`ValueRun.tellsBack`).

Each event changes what was told (`ToldValues.hear`), and the lists that are open with it
(`ToldValues.Spells`).
-/

namespace ClassFile

open ClassImage Draft

/-- The values of an annotation that were told so far, with the names that they keep: those in the
innermost scope that is open, and for every open scope, from the inside out, what opened it and the values
in front of it. -/
structure ToldValues where
  inner : List Item := []
  outer : List (Opening × List Item) := []
  /-- A reader does not follow scopes any deeper. -/
  shallow : outer.length ≤ maxAnnotationLevels := by decide

namespace ToldValues

/-- Whether values have names inside of scopes, if those outside of all scopes have names or not. -/
def namesInside (named : Bool) : List (Opening × List Item) → Bool
  | [] => named
  | (opening, _) :: _ => opening.namesValues

/-- What was told when one event more is told, none if the event starts a value too deep inside, closes
more than is open, or is not about values. -/
def hear (named : Bool) (told : ToldValues) : Event → Option ToldValues
  | .element item =>
      if told.outer.length < maxAnnotationLevels then
        some { told with
          inner := told.inner ++ [.event (.element (item.kept (namesInside named told.outer)))] }
      else none
  | .enter (.nested name? descriptor) =>
      if shallow : told.outer.length < maxAnnotationLevels then
        let name? := Element.keptName (namesInside named told.outer) name?
        some ⟨[], (.nested name? descriptor, told.inner) :: told.outer, shallow⟩
      else none
  | .enter (.array name?) =>
      if shallow : told.outer.length < maxAnnotationLevels then
        let name? := Element.keptName (namesInside named told.outer) name?
        some ⟨[], (.array name?, told.inner) :: told.outer, shallow⟩
      else none
  | .finish | .leave =>
      match told with
      | ⟨_, [], _⟩ => none
      | ⟨inner, (opening, before) :: outer, shallow⟩ =>
          some ⟨before ++ [.scope opening inner], outer, Nat.le_of_succ_le shallow⟩
  | _ => none

/-- What was told by events, none if they are not properly nested. -/
def hearAll (named : Bool) (told : ToldValues) (events : List Event) : Option ToldValues :=
  events.foldlM (hear named) told

/-- All values in scopes around the innermost one, if all are closed now. -/
def closing (inner : List Item) (outer : List (Opening × List Item)) : List Item :=
  outer.foldl (fun inside scope => scope.2 ++ [.scope scope.1 inside]) inner

/-- All values that were told, if every open scope is closed now. -/
def values (told : ToldValues) : List Item :=
  closing told.inner told.outer

end ToldValues

/-- Whether the texts in an event about values survive. -/
def Event.ValuesSurvive : Event → Prop
  | .element item => item.Survives
  | .enter (.nested name? descriptor) => (∀ name ∈ name?, name.Survives) ∧ descriptor.Survives
  | .enter (.array name?) => ∀ name ∈ name?, name.Survives
  | _ => True

/-! ### Lists that are open -/

namespace ElementList

theorem toList_write (list : ElementList) (output : Output) :
    (list.write output).toList = output.toList ++ (list.write .empty).toList := by
  simp only [write, Pieces.toList_write]
  cases list.count? <;> simp

end ElementList

namespace AnnotationDraft

/-- Closing a list changes no byte. -/
theorem toList_closed {draft around : AnnotationDraft} (closed : draft.closed? = some around) :
    around.toOutput.toList = draft.toOutput.toList := by
  unfold closed? at closed
  split at closed
  · cases closed
  · rename_i first outer isOuter
    cases closed
    rw [toOutput, toOutput, isOuter]
    simp only [List.foldr_cons]
    rw [ElementList.toList_write draft.inner, ElementList.toList_write first, ElementList.toList_write]
    simp [ElementList.write]

end AnnotationDraft

namespace ToldValues

open AnnotationDraft

variable {named : Bool} {told next : ToldValues} {event : Event}

/-- What is known of the lists around the innermost one: each waits for the scope that is open inside
it. -/
def Around (named : Bool) : List (Opening × List Item) → List ElementList → Pool → Prop
  | [] => fun lists _ => lists = []
  | (opening, before) :: outer =>
      Waits (maxAnnotationLevels - outer.length) (namesInside named outer) true before
        (scopeSpelling (namesInside named outer) opening) (Around named outer)

/-- Whether an annotation that is open is spelled as it was told. -/
def Spells (named : Bool) (told : ToldValues) : AnnotationDraft → Pool → Prop :=
  Between (maxAnnotationLevels - told.outer.length) (namesInside named told.outer) true told.inner
    (Around named told.outer)

theorem spells_empty (pool : Pool) :
    Spells named {} ⟨⟨named, some 0, []⟩, []⟩ pool :=
  ⟨⟨rfl, rfl, [], [], spellsAll_nil, rfl, rfl⟩, rfl⟩

/-- Room for a value inside leaves room for those inside of it. -/
theorem sub_eq_succ {number levels : Nat} (less : number < levels) :
    levels - number = levels - (number + 1) + 1 := by
  omega

/-- The end of a scope completes a value of the scope around it. -/
theorem spells_of_closed {inner before : List Item} {opening : Opening}
    {outer : List (Opening × List Item)}
    {shallow : ((opening, before) :: outer).length ≤ maxAnnotationLevels} { annotation : AnnotationDraft}
    {pool : Pool} (known : Spells named ⟨inner, (opening, before) :: outer, shallow⟩ annotation pool) :
    ∃ around, annotation.closed? = some around ∧
      Spells named ⟨before ++ [.scope opening inner], outer, Nat.le_of_succ_le shallow⟩ around pool := by
  have levels := sub_eq_succ (Nat.lt_of_succ_le shallow)
  unfold Spells at known ⊢
  dsimp only [Around] at known ⊢
  rw [levels] at known ⊢
  exact writes_of_closed_scope opening rfl annotation pool known

/-- Everything that was told stands in the bytes, as if every open scope were closed. -/
theorem told_values { annotation : AnnotationDraft} {pool : Pool}
    (known : told.Spells named annotation pool) :
    ToldAs (fun image => image.tellCounted (image.tellElement maxAnnotationLevels) named) id pool
      told.values annotation.toOutput.toList := by
  rcases told with ⟨inner, outer, shallow⟩
  induction outer generalizing inner annotation with
  | nil => exact told_toOutput known
  | cons scope outer ih =>
      rcases spells_of_closed known with ⟨around, closed, spells⟩
      rw [← toList_closed closed]
      exact ih _ _ spells

end ToldValues

/-! ### Events -/

namespace ClassDraft

open AnnotationDraft ToldValues

variable {named : Bool} {told next : ToldValues} {place : AnnotationPlace}
  {Before : ClassDraft → Pool → Prop}

/-- Every event of a value changes the annotation as it changes what was told. -/
theorem runs_hear {event : Event} (heard : told.hear named event = some next)
    (survives : event.ValuesSurvive) :
    Runs (Opened place (told.Spells named) Before) (record event)
      fun _ => Opened place (next.Spells named) Before := by
  cases event with
  | element item =>
      rw [hear] at heard
      split at heard
      · rename_i room
        cases heard
        apply runs_inAnnotation
        unfold Spells
        dsimp only
        rw [sub_eq_succ room]
        exact runs_element survives
      · cases heard
  | enter opening =>
      cases opening with
      | nested name? descriptor =>
          rw [hear] at heard
          split at heard
          · rename_i room
            cases heard
            apply runs_inAnnotation
            unfold Spells
            dsimp only [Around]
            rw [sub_eq_succ room]
            exact runs_openNested survives.1 survives.2
          · cases heard
      | array name? =>
          rw [hear] at heard
          split at heard
          · rename_i room
            cases heard
            apply runs_inAnnotation
            unfold Spells
            dsimp only [Around]
            rw [sub_eq_succ room]
            exact runs_openArray survives
          · cases heard
      | _ => cases heard
  | finish | leave =>
      rcases told with ⟨inner, _ | ⟨⟨opening, before⟩, outer⟩, shallow⟩
      · cases heard
      · cases heard
        exact runs_exit_inner _ fun annotation pool known => spells_of_closed known
  | _ => cases heard

/-- Properly nested events are written so that everything that was told is known. -/
theorem runs_hearAll {events : List Event} (heard : told.hearAll named events = some next)
    (survive : ∀ event ∈ events, event.ValuesSurvive) :
    Runs (Opened place (told.Spells named) Before) (events.forM record)
      fun _ => Opened place (next.Spells named) Before := by
  induction events generalizing told with
  | nil =>
      cases heard
      exact (Runs.pure ()).weaken (fun _ _ => id) fun _ _ _ => And.right
  | cons event events ih =>
      rw [hearAll, List.foldlM_cons, Option.bind_eq_bind, Option.bind_eq_some_iff] at heard
      rcases heard with ⟨between, here, behind⟩
      rw [List.forall_mem_cons] at survive
      show Runs _ (record event >>= fun _ => events.forM record) _
      exact (runs_hear here survive.1).bind fun _ => ih behind survive.2

end ClassDraft

/-! ### Runs -/

/-- A run that tells values of an annotation, with names, or of an array; other parts of the class are
added to the pool before. -/
structure ValueRun where
  seed? : Option Pool
  first : PoolBuilder
  starts : PoolBuilder.Starts seed? first
  builder : PoolBuilder
  before : first.LeadsTo builder
  draft : ClassDraft
  place : AnnotationPlace
  named : Bool
  opened : draft.annotation? = some (place, ⟨⟨named, some 0, []⟩, []⟩)
  events : List Event
  /-- The events are properly nested. -/
  isNested : (ToldValues.hearAll named {} events).isSome = true
  told : ClassDraft
  next : PoolBuilder
  recorded : Draft.on (events.forM ClassDraft.record) (draft, builder) = (.ok (), told, next)

namespace ValueRun

/-- The draft with an annotation that holds what was told of its values. -/
def withAnnotation (run : ValueRun) ( annotation : AnnotationDraft) : ClassDraft :=
  { run.draft with annotation? := some (run.place, annotation) }

/-- The bytes of an annotation are complete after every event: wherever they stand in a file with the pool,
of that moment or later, all values that were told so far are told again, and no other, up to the end of
the bytes. -/
theorem tellsBack (run : ValueRun) (survive : ∀ event ∈ run.events, event.ValuesSurvive)
    {done rest : List Event} (split : run.events = done ++ rest) :
    ∃ (told : ToldValues) ( annotation : AnnotationDraft) (between : PoolBuilder),
      ToldValues.hearAll run.named {} done = some told ∧
      Draft.on (done.forM ClassDraft.record) (run.draft, run.builder) =
        (.ok (), run.withAnnotation annotation, between) ∧
      ∀ {last : PoolBuilder} {input : Input} {bootstraps offset : Nat}, between.LeadsTo last →
        input.HasAt 8 (last.write .empty).toList →
        input.HasAt bootstraps (last.writeBootstraps .empty).toList →
        input.HasAt offset annotation.toOutput.toList →
          ∃ parsed pool, Pool.ofInput? input = .ok parsed ∧
            parsed.withBootstrapMethods bootstraps = .ok pool ∧
            ∀ image : ClassImage, image.input = input → image.pool = pool →
              (image.tellCounted (image.tellElement maxAnnotationLevels) run.named offset).collect =
                (told.values, .ok (offset + annotation.toOutput.toList.length)) := by
  have survivesDone : ∀ event ∈ done, event.ValuesSurvive := fun event member =>
    survive event (split ▸ List.mem_append_left rest member)
  have heard := run.isNested
  rw [split, ToldValues.hearAll, List.foldlM_append] at heard
  rcases Option.isSome_iff_exists.mp (Option.isSome_of_isSome_bind heard) with ⟨told, heardDone⟩
  have ran := run.recorded
  rw [split, List.forM_eq_forM, List.forM_append, ← List.forM_eq_forM, on_bind] at ran
  rcases ranDone : Draft.on (done.forM ClassDraft.record) (run.draft, run.builder) with
    ⟨_ | ⟨⟩, middle, between⟩
  · rw [ranDone] at ran
    cases ran
  have around := @ClassDraft.runs_hearAll run.named {} told run.place
    (fun draft _ => draft = { run.draft with annotation? := none }) done heardDone survivesDone
  rcases run.starts.holds with ⟨seedContent, holdsFirst, -⟩
  rcases run.before.added holdsFirst with ⟨content, added⟩
  rcases around _ _ _ added.holds
    (fun pool _ => ⟨_, run.opened, ToldValues.spells_empty pool, rfl⟩) _ _ _ ranDone with
    ⟨later, addedLater, known⟩
  rcases addedLater.holds.exists_pool with ⟨anyPool, same⟩
  rcases known anyPool same.has with ⟨ annotation, isOpen, -, others⟩
  have isMiddle : middle = run.withAnnotation annotation := by
    show { { middle with annotation? := none } with annotation? := middle.annotation? } = _
    rw [others, isOpen]
    rfl
  refine ⟨told, annotation, between, heardDone, by rw [isMiddle], ?_⟩
  intro last input bootstraps offset leads entries methods held
  rcases leads.added addedLater.holds with ⟨final, addedFinal⟩
  rcases addedFinal.holds.parses entries methods with ⟨parsed, pool, read, readMethods, -, sameFinal⟩
  refine ⟨parsed, pool, read, readMethods, ?_⟩
  rintro image rfl rfl
  have proper := isProper_of_matches ((Pool.input_of_withBootstrapMethods readMethods).trans
    (Pool.input_of_ofInput? read)) sameFinal
  rcases known image.pool (sameFinal.has.mono addedFinal.contentGrows) with
    ⟨again, isOpenToo, spells, -⟩
  rw [isOpen] at isOpenToo
  cases isOpenToo
  exact (ToldValues.told_values spells image proper rfl offset held).collect

/-- An array without a name, with one value, that is not closed. -/
def openArrayEvents : List Event :=
  [.enter (.array none), .element (.constant none (.boolean true))]

/-- A draft where an annotation of named values was just started. -/
def openDraft : ClassDraft :=
  { annotation? := some (.default, ⟨.namedValues, []⟩) }

theorem exists_on_openArrayEvents : ∃ told next,
    Draft.on (openArrayEvents.forM ClassDraft.record) (openDraft, .empty) = (.ok (), told, next) := by
  have name : (PoolBuilder.text ElementItem.standardName).on .empty =
      (.ok 1, PoolBuilder.empty.push (.utf8 ElementItem.standardName)) :=
    PoolBuilder.on_add_new Std.HashMap.getElem?_empty (by decide) (by decide +kernel)
  have value : (AnnotationConstant.boolean true).pooled.on
      (PoolBuilder.empty.push (.utf8 ElementItem.standardName)) =
        (.ok 2, (PoolBuilder.empty.push (.utf8 ElementItem.standardName)).push (.integer 1)) := by
    refine PoolBuilder.on_add_new ?_ (by decide) (by decide)
    rw [PoolBuilder.push, Std.HashMap.getElem?_insert, if_neg (by decide)]
    exact Std.HashMap.getElem?_empty
  simp [openArrayEvents, openDraft, on_bind, on_look, on_change, on_tryChange, on_pooled, on_within,
    ClassDraft.record, ClassDraft.enter, ClassDraft.inAnnotation, AnnotationDraft.openArray,
    AnnotationDraft.element, AnnotationDraft.beginElement, AnnotationDraft.openList,
    AnnotationDraft.putIndex, AnnotationDraft.putTag, AnnotationDraft.put, ElementList.raise,
    ElementList.namedValues, ElementList.arrayValues, name, value]

theorem exists_openArrayRun : ∃ run : ValueRun, run.events = openArrayEvents ∧ run.named = true := by
  rcases exists_on_openArrayEvents with ⟨told, next, recorded⟩
  exact ⟨{
    starts := .empty
    before := .refl .empty
    draft := openDraft
    named := true
    opened := rfl
    events := openArrayEvents
    isNested := rfl
    recorded
    .. }, rfl, rfl⟩

theorem tellsBack_openArray : ∃ run : ValueRun, run.events = openArrayEvents ∧
    (∀ event ∈ run.events, event.ValuesSurvive) ∧ ∃ (image : ClassImage) (offset stop : Nat),
      (image.tellCounted (image.tellElement maxAnnotationLevels) true offset).collect =
        ([.scope (.array (some ElementItem.standardName))
          [.event (.element (.constant none (.boolean true)))]], .ok stop) := by
  rcases exists_openArrayRun with ⟨run, events, hasNames⟩
  have survive : ∀ event ∈ run.events, event.ValuesSurvive := by
    rw [events]
    simp [openArrayEvents, Event.ValuesSurvive, ElementItem.Survives, AnnotationConstant.Survives]
  rcases @tellsBack run survive openArrayEvents [] (by rw [events, List.append_nil]) with
    ⟨told, annotation, between, heard, -, reads⟩
  rw [hasNames] at heard
  cases heard
  let entries := (between.write .empty).toList
  let bootstraps := (between.writeBootstraps .empty).toList
  let file : Input :=
    ⟨⟨(List.replicate 8 0 ++ (entries ++ (bootstraps ++ annotation.toOutput.toList))).toArray⟩⟩
  have held : file.HasAt 8 (entries ++ (bootstraps ++ annotation.toOutput.toList)) := by
    simp [Input.HasAt, Input.toList, file]
  rcases reads (.refl between) held.left held.right.left held.right.right with ⟨-, pool, -, -, told⟩
  rw [hasNames] at told
  exact ⟨run, events, survive, ⟨file, pool, .standard, 0, 0⟩, _, _, told _ rfl rfl⟩

end ValueRun

end ClassFile
