import ClassFile.Image.Story
import ClassFile.Proofs.Gating.Constructs
import ClassFile.Proofs.Image.Marks
import ClassFile.Proofs.Image.Passes

/-!
# Visits of labels

A story mentions labels and visits them.  Every part of the story of a method but its instructions
is quiet: it visits nothing and mentions nothing that was not marked (`Item.IsQuiet`).
-/

namespace ClassFile

namespace Item

/-- Whether a label occurs in an event of a part of the story. -/
inductive Mentions (label : Label) : Item → Prop where
  | event {event : Event} (mentioned : label ∈ event.labels) : Mentions label (.event event)
  | opening {opening : Opening} {body : List Item} (mentioned : label ∈ opening.labels) :
      Mentions label (.scope opening body)
  | inside {opening : Opening} {body : List Item} {item : Item} (member : item ∈ body)
      (mentions : Mentions label item) : Mentions label (.scope opening body)

/-- The label that a part of the story visits. -/
def visit? : Item → Option Label
  | .event (.methodItem (.instruction (.label place))) => some place
  | _ => none

/-- Whether a part of the story visits no label and mentions none but those that are known. -/
structure IsQuiet (known : Label → Prop) (item : Item) : Prop where
  visitsNone : item.visit? = none
  mentions : ∀ label, item.Mentions label → known label

variable {known : Label → Prop}

theorem isQuiet_event {event : Event} (noVisit : (Item.event event).visit? = none)
    (labels : ∀ label ∈ event.labels, known label) : (Item.event event).IsQuiet known where
  visitsNone := noVisit
  mentions := by
    rintro label ⟨mentioned⟩
    exact labels label mentioned

theorem isQuiet_of_noLabels {event : Event} (none : event.labels = []) :
    (Item.event event).IsQuiet known := by
  refine isQuiet_event ?_ (by simp [none])
  unfold visit?
  split
  · rename_i place same
    cases same
    cases none
  · rfl

theorem isQuiet_scope {opening : Opening} {body : List Item}
    (head : ∀ label ∈ opening.labels, known label) (quiet : ∀ item ∈ body, item.IsQuiet known) :
    (Item.scope opening body).IsQuiet known where
  visitsNone := rfl
  mentions := by
    intro label mentions
    cases mentions with
    | opening mentioned => exact head label mentioned
    | inside member mentions => exact (quiet _ member).mentions label mentions

theorem isQuiet_fault (cause : ClassError) : (Item.fault cause).IsQuiet known where
  visitsNone := rfl
  mentions := by
    intro label mentions
    cases mentions

/-- Whether a property holds of whatever a reader is asked to tell, apart from methods and visits of
labels, if it mentions only labels that are known. -/
structure Allows (options : ReadOptions) (known : Label → Prop) (P : Item → Prop) : Prop where
  event : ∀ event : Event, (Item.event event).visit? = none → (∀ label ∈ event.labels, known label) →
    options.tells event = true → P (.event event)
  scope : ∀ (opening : Opening) (body : List Item), opening.isMethod = false →
    (∀ label ∈ opening.labels, known label) → options.tells (.enter opening) = true →
      (∀ item ∈ body, P item) → P (.scope opening body)
  fault : ∀ cause : ClassError, P (.fault cause)

theorem allows_isQuiet (options : ReadOptions) : Allows options known (IsQuiet known) where
  event := fun _ noVisit labels _ => isQuiet_event noVisit labels
  scope := fun _ _ _ labels _ quiet => isQuiet_scope labels quiet
  fault := isQuiet_fault

variable {options : ReadOptions} {P : Item → Prop}

theorem Allows.plain (allows : Allows options known P) {event : Event} (noLabels : event.labels = [])
    (told : options.tells event = true) : P (.event event) :=
  allows.event event (@isQuiet_of_noLabels known event noLabels).visitsNone (by simp [noLabels]) told

end Item

namespace Emit

open Item

variable {α : Type} {options : ReadOptions} {known : Label → Prop} {P : Item → Prop}
  {opening : Opening}

/-- What a producer tells before it goes on or stops, it tells in a scope. -/
theorem allowed_collect (allows : Allows options known P) {body : Emit α} (only : Only P body) :
    ∀ item ∈ body.collect.1, P item := by
  intro item member
  rcases only.collect item member with holds | ⟨cause, rfl⟩
  · exact holds
  · exact allows.fault cause

section Scopes

variable (allows : Allows options known P) (notMethod : opening.isMethod = false)
  (labels : ∀ label ∈ opening.labels, known label) (told : options.tells (.enter opening) = true)
include allows notMethod labels told

theorem only_eager {body : Emit α} (only : Only P body) : Only P (eager opening body) :=
  Only.eager (allows.scope _ _ notMethod labels told (allowed_collect allows only))

theorem only_member {body : Emit Unit} (only : Only P body) : Only P (member opening body) :=
  Only.member (allows.scope _ _ notMethod labels told (allowed_collect allows only))

end Scopes

end Emit

namespace ClassImage

open Emit Item

variable {image : ClassImage} {options : ReadOptions} {known : Label → Prop} {P : Item → Prop}

/-! ### Annotations and attributes -/

theorem only_tellElements {value : Option Text → Nat → Emit Nat} {named : Bool}
    (only : ∀ name? offset, Only P (value name? offset)) (offset count : Nat) :
    Only P (image.tellElements value named offset count) := by
  induction count generalizing offset with
  | zero => exact Only.pure _
  | succ count ih =>
      unfold tellElements
      cases named with
      | true =>
          simp only [if_true]
          exact (Only.lift _).bind fun name => (only _ _).bind fun next => ih next
      | false =>
          simp only [Bool.false_eq_true, if_false]
          exact (only _ _).bind fun next => ih next

theorem only_tellCounted {value : Option Text → Nat → Emit Nat} {named : Bool}
    (only : ∀ name? offset, Only P (value name? offset)) (offset : Nat) :
    Only P (image.tellCounted value named offset) :=
  (Only.lift _).bind fun _ => only_tellElements only _ _

theorem only_tellIfPresent {place? : Option Nat} {tell : Nat → Emit Unit}
    (only : ∀ offset, Only P (tell offset)) : Only P (tellIfPresent place? tell) := by
  cases place? with
  | none => exact Only.pure _
  | some offset => exact only offset

theorem only_tellTypeAnnotationTable {visible : Bool}
    (each : ∀ use offset, P (.scope (.annotateType use) (image.tellValues offset).collect.1))
    (offset : Nat) : Only P (image.tellTypeAnnotationTable visible offset) := by
  have list (offset count : Nat) : Only P (image.tellTypeAnnotationList visible offset count) := by
    induction count generalizing offset with
    | zero => exact Only.pure _
    | succ count ih =>
        exact (Only.lift _).bind fun head => (Only.eager (each _ _)).bind fun next => ih next
  exact (Only.lift _).bind fun _ => list _ _

theorem only_tellCodeNote {opening : Opening} {note : CodeAnnotation}
    (holds : P (.scope opening (image.tellValues note.valuesOffset).collect.1)) :
    Only P (image.tellCodeAnnotation opening note) :=
  (Only.eager holds).bind fun _ => Only.pure _

section Plain

variable (allows : Allows options known P)
include allows

theorem only_tellElement (levels : Nat) (name? : Option Text) (offset : Nat) :
    Only P (image.tellElement levels name? offset) := by
  induction levels generalizing name? offset with
  | zero => exact Only.throw _
  | succ levels ih =>
      rw [tellElement]
      refine (Only.lift _).bind fun tag => (Only.lift _).bind fun constant? => ?_
      split
      · exact (Only.tell (allows.plain rfl (options.tells_first rfl rfl))).bind
          fun _ => Only.pure _
      split
      · refine (Only.lift _).bind fun descriptor => (Only.lift _).bind fun value => ?_
        exact (Only.tell (allows.plain rfl (options.tells_first rfl rfl))).bind
          fun _ => Only.pure _
      split
      · refine (Only.lift _).bind fun descriptor => ?_
        exact only_eager allows rfl (by simp [Opening.labels]) (options.tells_first rfl rfl)
          (only_tellCounted (fun _ _ => ih _ _) _)
      split
      · exact only_eager allows rfl (by simp [Opening.labels]) (options.tells_first rfl rfl)
          (only_tellCounted (fun _ _ => ih _ _) _)
      · exact Only.throw _

theorem only_tellValues (offset : Nat) : Only P (image.tellValues offset) :=
  only_tellCounted (fun _ _ => only_tellElement allows _ _ _) _

/-- The scope of an annotation that a reader is asked for. -/
theorem allows_values {opening : Opening} (notMethod : opening.isMethod = false)
    (labels : ∀ label ∈ opening.labels, known label) (told : options.tells (.enter opening) = true)
    (offset : Nat) : P (.scope opening (image.tellValues offset).collect.1) :=
  allows.scope _ _ notMethod labels told (allowed_collect allows (only_tellValues allows offset))

theorem only_tellAnnotationTable {opening : Text → Opening}
    (noLabels : ∀ descriptor, (opening descriptor).labels = [])
    (notMethod : ∀ descriptor, (opening descriptor).isMethod = false)
    (first : ∀ descriptor, (opening descriptor).since = .v4) (offset : Nat) :
    Only P (image.tellAnnotationTable opening offset) := by
  have list (offset count : Nat) : Only P (image.tellAnnotationList opening offset count) := by
    induction count generalizing offset with
    | zero => exact Only.pure _
    | succ count ih =>
        refine (Only.lift _).bind fun descriptor => Only.bind ?_ fun next => ih next
        exact Only.eager (allows_values allows (notMethod _) (by simp [noLabels])
          (options.tells_first (first descriptor) rfl) _)
  exact (Only.lift _).bind fun _ => list _ _

theorem only_tellOthers (inCode : Bool) (common : CommonAttributes) :
    Only P (image.tellOthers options inCode common) :=
  Only.forM fun _ _ => (Only.lift _).bind fun _ =>
    Only.tell (allows.plain rfl (options.tells_first rfl rfl))

theorem allows_annotateType (supports : options.api.supports .v5 = true) (use : TypeUse)
    (offset : Nat) : P (.scope (.annotateType use) (image.tellValues offset).collect.1) :=
  allows_values allows rfl (by simp [Opening.labels]) (options.tells_of_supports supports rfl rfl)
    offset

theorem allows_localAnnotation (supports : options.api.supports .v5 = true) (use : TypeUse)
    (places : List LabelRange) (inside : ∀ label ∈ places.flatMap LabelRange.labels, known label)
    (offset : Nat) : P (.scope (.annotateLocal use places) (image.tellValues offset).collect.1) := by
  have labels : ∀ label ∈ (Opening.annotateLocal use places).labels, known label := inside
  exact allows_values allows rfl labels (options.tells_of_supports supports rfl rfl) offset

theorem only_tellAnnotations (common : CommonAttributes) :
    Only P (image.tellAnnotations options common) := by
  have table (visible : Bool) (offset : Nat) :
      Only P (image.tellAnnotationTable (Opening.annotate · visible) offset) :=
    only_tellAnnotationTable allows (fun _ => rfl) (fun _ => rfl) (fun _ => rfl) offset
  refine (only_tellIfPresent fun offset => (table true offset).bind fun _ => Only.pure _).bind
    fun _ => ?_
  refine (only_tellIfPresent fun offset => (table false offset).bind fun _ => Only.pure _).bind
    fun _ => ?_
  split
  · rename_i supports
    have each := @allows_annotateType image options known P allows supports
    refine (only_tellIfPresent (only_tellTypeAnnotationTable each)).bind fun _ => ?_
    exact only_tellIfPresent (only_tellTypeAnnotationTable each)
  · exact Only.pure _

end Plain

/-! ### What surrounds the instructions -/

theorem place_eq_ok {code : CodeArray} {target source : Nat} {label : Label}
    (placed : code.place target source = .ok label) : label = target := by
  unfold CodeArray.place at placed
  split at placed
  · cases placed
  · cases placed
    rfl

section Code

variable {labels : LabelSet}

theorem only_tellHandlers (allows : Allows options (· ∈ labels) P) {code : CodeArray}
    {offset count : Nat} (marked : image.HandlersMarked labels offset count) :
    Only P (image.tellHandlers code offset count) := by
  induction count generalizing offset with
  | zero => exact Only.pure _
  | succ count ih =>
      refine Only.bind_lift fun start readStart => Only.bind_lift fun first placedStart => ?_
      refine Only.bind_lift fun stop readStop => Only.bind_lift fun second placedStop => ?_
      refine Only.bind_lift fun handler readHandler => Only.bind_lift fun third placedHandler => ?_
      refine (Only.lift _).bind fun index => (Only.lift _).bind fun type? => ?_
      refine (Only.tell (allows.event _ rfl ?_ (options.tells_first rfl rfl))).bind
        fun _ => ih marked.2
      intro label mentioned
      simp only [Event.labels, MethodItem.labels, List.mem_cons, List.not_mem_nil, or_false]
        at mentioned
      rcases mentioned with rfl | rfl | rfl
      · exact place_eq_ok placedStart ▸ marked.1 0 (by simp) start readStart
      · exact place_eq_ok placedStop ▸ marked.1 2 (by simp) stop readStop
      · exact place_eq_ok placedHandler ▸ marked.1 4 (by simp) handler readHandler

theorem only_tellHandlerAnnotations {body : CodeBody}
    (each : ∀ note ∈ body.annotations,
      P (.scope (.annotateTryCatch note.use) (image.tellValues note.valuesOffset).collect.1)) :
    Only P (image.tellHandlerAnnotations body) := by
  refine Only.forM fun note member => ?_
  split
  · exact only_tellCodeNote (each note (Array.mem_toList_iff.mp member))
  · exact Only.pure _

theorem only_tellVariables {code : CodeArray} {types : VariableTypes}
    (each : ∀ entry : LocalVariable, (∀ label ∈ entry.range.labels, label ∈ labels) →
      P (.event (.methodItem (.localVariable entry))))
    {offset count : Nat} (marked : image.VariablesMarked labels offset count) :
    Only P (image.tellVariables code types offset count) := by
  induction count generalizing offset with
  | zero => exact Only.pure _
  | succ count ih =>
      refine Only.bind_lift fun start readStart => Only.bind_lift fun length readLength => ?_
      refine (Only.lift _).bind fun name => (Only.lift _).bind fun descriptor => ?_
      refine (Only.lift _).bind fun slot => ?_
      refine Only.bind_lift fun first placedStart => Only.bind_lift fun stop placedStop => ?_
      rcases marked.1 start length readStart readLength with ⟨startIn, stopIn⟩
      refine (Only.tell (each _ fun label mentioned => ?_)).bind fun _ => ih marked.2
      simp only [LabelRange.labels, List.mem_cons, List.not_mem_nil, or_false] at mentioned
      rcases mentioned with rfl | rfl
      · exact place_eq_ok placedStart ▸ startIn
      · exact place_eq_ok placedStop ▸ stopIn

theorem only_tellVariableTable {body : CodeBody}
    (each : body.localVariables?.isSome → ∀ entry : LocalVariable,
      (∀ label ∈ entry.range.labels, label ∈ body.labels) →
        P (.event (.methodItem (.localVariable entry))))
    (isMarked : body.IsMarked image) : Only P (image.tellVariableTable body) := by
  unfold tellVariableTable
  split
  · exact Only.pure _
  · rename_i offset found
    have table (types : VariableTypes) : Only P (do
        let count ← image.input.u16 offset
        image.tellVariables body.code types (offset + 2) count.toNat) :=
      Only.bind_lift fun count read =>
        only_tellVariables (each (by simp [found])) (isMarked.locals offset found count read)
    cases body.variableTypes? with
    | none => exact table _
    | some place =>
        refine (Only.lift _).bind fun count => (Only.lift _).bind fun types => ?_
        exact table types

theorem allows_localVariable (allows : Allows options (· ∈ labels) P)
    (asked : options.skipDebug = false) (entry : LocalVariable)
    (inside : ∀ label ∈ entry.range.labels, label ∈ labels) :
    P (.event (.methodItem (.localVariable entry))) :=
  allows.event _ rfl inside (options.tells_first rfl asked)

/-- The place of a range in the code. -/
def placeRange (body : CodeBody) (source : Nat) (range : CodeRange) : Emit LabelRange := do
  let start ← body.code.place range.start.toNat source
  let stop ← body.code.place (range.start.toNat + range.length.toNat) source
  pure ⟨start, stop, range.slot⟩

theorem labels_of_placeRanges {body : CodeBody} {source : Nat} {ranges : List CodeRange}
    (marked : ∀ range ∈ ranges, range.start.toNat ∈ body.labels ∧
      range.start.toNat + range.length.toNat ∈ body.labels)
    {before after : Array Item} {places : List LabelRange}
    (told : Tells (ranges.mapM (placeRange body source)) before places after) :
    ∀ label ∈ places.flatMap LabelRange.labels, label ∈ body.labels := by
  induction ranges generalizing places before after with
  | nil =>
      rw [List.mapM_nil, tells_pure] at told
      simp [← told.1]
  | cons range ranges ih =>
      rw [List.forall_mem_cons] at marked
      rw [List.mapM_cons, tells_bind] at told
      rcases told with ⟨first, between, placed, others⟩
      rcases tells_bind.mp others with ⟨rest, last, toldRest, ended⟩
      rw [← (tells_pure.mp ended).1, List.flatMap_cons]
      refine List.forall_mem_append.mpr ⟨?_, ih marked.2 toldRest⟩
      rcases tells_bind.mp placed with ⟨start, one, toldStart, placed⟩
      rcases tells_bind.mp placed with ⟨stop, two, toldStop, placed⟩
      have placedStart := place_eq_ok (tells_lift.mp toldStart).1
      have placedStop := place_eq_ok (tells_lift.mp toldStop).1
      rw [← (tells_pure.mp placed).1]
      simpa [LabelRange.labels, placedStart, placedStop] using marked.1

theorem only_placeRanges (body : CodeBody) (source : Nat) (ranges : List CodeRange) :
    Only P (ranges.mapM (placeRange body source)) := by
  induction ranges with
  | nil =>
      rw [List.mapM_nil]
      exact Only.pure _
  | cons range ranges ih =>
      rw [List.mapM_cons]
      refine Only.bind ?_ fun _ => ih.bind fun _ => Only.pure _
      exact (Only.lift _).bind fun _ => (Only.lift _).bind fun _ => Only.pure _

theorem only_tellVariableAnnotations {body : CodeBody}
    (each : ∀ note ∈ body.annotations, ∀ places : List LabelRange,
      (∀ label ∈ places.flatMap LabelRange.labels, label ∈ body.labels) →
        P (.scope (.annotateLocal note.use places) (image.tellValues note.valuesOffset).collect.1))
    (isMarked : body.IsMarked image) (source : Nat) :
    Only P (image.tellVariableAnnotations body source) := by
  refine Only.forM fun note member => ?_
  have isNote := Array.mem_toList_iff.mp member
  split
  · rename_i ranges found
    have marked := (isMarked.annotations note isNote).2
    rw [found] at marked
    refine (only_placeRanges body source ranges).bind_tells fun before places after told => ?_
    exact only_tellCodeNote (each note isNote places (labels_of_placeRanges marked told))
  · exact Only.pure _

end Code

end ClassImage

end ClassFile
