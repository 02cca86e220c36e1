import ClassFile.Proofs.Gating.Refusals
import ClassFile.Proofs.Streams.Settling

/-!
# What flags delete

`ReadOptions.delete` deletes from a story what the flags of a reader name: each body from its start to the
sizes of stack and locals, debug information, frames.  It works on the plain list of events and knows
nothing of scopes.  On the story of a class it comes to what `ReadOptions.pruneAll` leaves of it
(`ReadOptions.delete_allEvents`).
-/

namespace ClassFile

open Event Item

namespace Event

/-- A story without bodies, each from `code` to `maxs`, if it starts inside of a body or outside. -/
def dropBodies : (inBody : Bool) → List Event → List Event
  | _, [] => []
  | false, .methodItem .code :: rest => dropBodies true rest
  | false, told :: rest => told :: dropBodies false rest
  | true, .methodItem (.maxs ..) :: rest => dropBodies false rest
  | true, _ :: rest => dropBodies true rest

/-- Whether an event ends a body. -/
def endsBody : Event → Bool
  | .methodItem (.maxs ..) => true
  | _ => false

/-- Whether an event is silent and starts no body. -/
structure IsPlain (event : Event) : Prop extends event.IsSilent where
  noCode : event ≠ .methodItem .code

theorem isPlain_finish : Event.finish.IsPlain :=
  ⟨⟨rfl, rfl⟩, by simp⟩

variable {event : Event} {front inside rest : List Event}

theorem dropBodies_outside (outside : ∀ event ∈ front, event ≠ .methodItem .code) :
    dropBodies false (front ++ rest) = front ++ dropBodies false rest := by
  induction front with
  | nil => rfl
  | cons event front ih =>
      rw [List.forall_mem_cons] at outside
      rw [List.cons_append, dropBodies, ih outside.2, List.cons_append]
      exact outside.1

theorem dropBodies_inside (isInside : ∀ event ∈ inside, event.endsBody = false) :
    dropBodies true (inside ++ rest) = dropBodies true rest := by
  induction inside with
  | nil => rfl
  | cons event inside ih =>
      rw [List.forall_mem_cons] at isInside
      rw [List.cons_append, dropBodies, ih isInside.2]
      rintro stack locals rfl
      cases isInside.1

end Event

/-- Whether an item is a part of a class: it is plain, or a method, with a body or without one. -/
inductive Item.IsStoryPart : Item → Prop where
  | plain {item : Item} (isPlain : ∀ event ∈ item.events, event.IsPlain) : IsStoryPart item
  | bodiless (header : MethodHeader) {front : List Item}
      (isPlain : ∀ part ∈ front, ∀ event ∈ part.events, event.IsPlain) :
      IsStoryPart (.scope (.method header) front)
  | method (header : MethodHeader) {front inside : List Item} (stack locals : UInt16)
      (isPlain : ∀ part ∈ front, ∀ event ∈ part.events, event.IsPlain)
      (isInside : ∀ part ∈ inside, part.IsMethodPart ∧ ∀ event ∈ part.events, event.endsBody = false) :
      IsStoryPart (.scope (.method header) (front ++
        .event (.methodItem .code) :: (inside ++ [.event (.methodItem (.maxs stack locals))])))

theorem Item.IsStoryPart.isClassPart {item : Item} (isPart : item.IsStoryPart) : item.IsClassPart := by
  have plainPart {part : Item} (isPlain : ∀ event ∈ part.events, event.IsPlain) : part.IsMethodPart :=
    isMethodPart_of_silent fun event member => (isPlain event member).toIsSilent
  have one (told : MethodItem) : (Item.event (.methodItem told)).IsMethodPart :=
    ⟨by simp [events, startsMethod], by simp⟩
  cases isPart with
  | plain isPlain => exact .inl fun event member => (isPlain event member).toIsSilent
  | bodiless header isPlain => exact .inr ⟨header, _, rfl, fun part member => plainPart (isPlain part member)⟩
  | method header stack locals isPlain isInside =>
      refine .inr ⟨header, _, rfl, ?_⟩
      rw [List.forall_mem_append, List.forall_mem_cons, List.forall_mem_append]
      refine ⟨fun part member => plainPart (isPlain part member), one _,
        fun part member => (isInside part member).1, ?_⟩
      rw [List.forall_mem_singleton]
      exact one _

namespace ReadOptions

/-- A story without what the flags name. -/
def delete (options : ReadOptions) (events : List Event) : List Event :=
  (if options.skipCode then dropBodies false events else events).filter fun event => !options.skips event

variable {options : ReadOptions} {item part : Item} {items : List Item}

/-- Outside of bodies nothing else is deleted than what is named. -/
theorem filter_delete {kept : Event → Bool} (unnamed : ∀ event, kept event = true → options.skips event = false)
    (withCode : options.skipCode = false) (events : List Event) :
    (options.delete events).filter kept = events.filter kept := by
  rw [delete, withCode, if_neg Bool.false_ne_true, List.filter_filter]
  refine List.filter_congr fun event _ => ?_
  cases isKept : kept event with
  | false => rfl
  | true =>
      rw [unnamed event isKept]
      rfl

/-! ### The latest version -/

theorem tells_latest (latest : options.api = .latest) (event : Event) : options.tells event = !options.skips event := by
  have isKnown := event.isKnownTo_latest
  rw [IsKnownTo, ← latest] at isKnown
  rw [tells, isKnown, Bool.true_and]

theorem refuses_latest (latest : options.api = .latest) (item : Item) : options.refuses item = false := by
  unfold refuses
  split
  · rw [latest]
    simp [show Api.latest.supports .v7 = true from rfl]
  · rfl

/-- Outside of bodies a story goes on. -/
theorem endsAt_outside
    (outside : options.skipCode = true → ∀ event ∈ item.events, event ≠ .methodItem .code) :
    options.endsAt item = false := by
  unfold endsAt
  split
  · by_contra skipped
    rw [Bool.not_eq_false] at skipped
    exact outside skipped (.methodItem .code) (by simp [events]) rfl
  · rfl

theorem passes_outside (latest : options.api = .latest)
    (outside : options.skipCode = true → ∀ event ∈ item.events, event ≠ .methodItem .code) :
    options.passes item = true := by
  rw [passes, endsAt_outside outside, refuses_latest latest]
  rfl

mutual

theorem isWhole_prune (latest : options.api = .latest) {item : Item} (whole : item.IsWhole) : AreWhole (options.prune item) := by
  match item, whole with
  | .event told, _ =>
      rw [prune]
      split
      · exact ⟨trivial, trivial⟩
      · exact trivial
  | .scope opening body, whole =>
      rw [prune]
      split
      · exact ⟨areWhole_pruneAll latest whole, trivial⟩
      · exact trivial

/-- What is left of a whole story is whole where no dynamic constant is refused. -/
theorem areWhole_pruneAll (latest : options.api = .latest) {items : List Item} (whole : AreWhole items) :
    AreWhole (options.pruneAll items) := by
  match items, whole with
  | [], _ =>
      rw [pruneAll]
      exact trivial
  | item :: rest, whole =>
      rw [pruneAll, refuses_latest latest, if_neg Bool.false_ne_true]
      split
      · exact trivial
      · rw [areWhole_iff, List.forall_mem_append, ← areWhole_iff, ← areWhole_iff]
        exact ⟨isWhole_prune latest whole.1, areWhole_pruneAll latest whole.2⟩

end

mutual

theorem allEvents_prune (latest : options.api = .latest) {item : Item}
    (outside : options.skipCode = true → ∀ event ∈ item.events, event ≠ .methodItem .code) :
    allEvents (options.prune item) = item.events.filter fun event => !options.skips event := by
  cases item with
  | event told =>
      rw [prune, tells_latest latest, events, List.filter_cons, List.filter_nil]
      split <;> rfl
  | fault cause =>
      rw [prune]
      rfl
  | scope opening body =>
      have inside : options.skipCode = true → ∀ event ∈ allEvents body, event ≠ .methodItem .code := by
        intro skipped event member
        apply outside skipped
        rw [events]
        exact List.mem_cons_of_mem _ (List.mem_append_left _ member)
      rw [prune, tells_latest latest, events, show options.skips (.enter opening) = false from rfl, Bool.not_false,
        if_pos rfl, allEvents, events, allEvents_pruneAll latest inside, List.filter_cons, List.filter_append]
      simp [skips, allEvents]

/-- Outside of bodies, what is left is what is not named. -/
theorem allEvents_pruneAll (latest : options.api = .latest) {items : List Item}
    (outside : options.skipCode = true → ∀ event ∈ allEvents items, event ≠ .methodItem .code) :
    allEvents (options.pruneAll items) = (allEvents items).filter fun event => !options.skips event := by
  cases items with
  | nil => rw [pruneAll, allEvents, List.filter_nil]
  | cons item rest =>
      have apart := outside
      simp only [allEvents, List.forall_mem_append] at apart
      rw [pruneAll, endsAt_outside fun skipped => (apart skipped).1, refuses_latest latest,
        if_neg Bool.false_ne_true, if_neg Bool.false_ne_true, allEvents_append, allEvents_prune latest fun skipped => (apart skipped).1,
        allEvents_pruneAll latest fun skipped => (apart skipped).2, allEvents, List.filter_append]

end

/-! ### The parts of a class -/

theorem delete_outside {front : List Event} (outside : ∀ event ∈ front, event ≠ .methodItem .code)
    (rest : List Event) :
    options.delete (front ++ rest) =
      front.filter (fun event => !options.skips event) ++ options.delete rest := by
  rw [delete, delete, ← List.filter_append]
  split
  · rw [dropBodies_outside outside]
  · rfl

/-- A body is deleted from its start to its end. -/
theorem delete_body (skipped : options.skipCode = true) {inside : List Event}
    (isInside : ∀ event ∈ inside, event.endsBody = false) (stack locals : UInt16) (rest : List Event) :
    options.delete (.methodItem .code :: (inside ++ .methodItem (.maxs stack locals) :: rest)) =
      options.delete rest := by
  rw [delete, delete, if_pos skipped, if_pos skipped, dropBodies, dropBodies_inside isInside, dropBodies]

/-- Of a method without its body, its head and what is told in front of the body are left. -/
theorem delete_method (latest : options.api = .latest) (skipped : options.skipCode = true)
    {front inside : List Item} (isPlain : ∀ part ∈ front, ∀ event ∈ part.events, event.IsPlain)
    (isInside : ∀ part ∈ inside, ∀ event ∈ part.events, event.endsBody = false)
    (header : MethodHeader) (stack locals : UInt16) (rest : List Event) :
    let method := Item.scope (.method header) (front ++
      .event (.methodItem .code) :: (inside ++ [.event (.methodItem (.maxs stack locals))]))
    options.delete (method.events ++ rest) = allEvents (options.prune method) ++ options.delete rest := by
  intro method
  have outside : ∀ part ∈ front, ∀ event ∈ part.events, event ≠ .methodItem .code :=
    fun part member event isEvent => (isPlain part member event isEvent).noCode
  have outsideFront := forall_mem_allEvents.mpr outside
  have passed : ∀ part ∈ front, options.passes part = true := fun part member =>
    passes_outside latest fun _ => outside part member
  have outsideStart : ∀ event ∈ .enter (.method header) :: allEvents front,
      event ≠ .methodItem .code := by
    rw [List.forall_mem_cons]
    exact ⟨by simp, outsideFront⟩
  have ends : options.endsAt (.event (.methodItem .code)) = true := skipped
  have left : allEvents (options.prune method) =
      (.enter (.method header) :: allEvents front).filter (fun event => !options.skips event) ++
        [.finish] := by
    change allEvents (options.prune (.scope (.method header) _)) = _
    rw [prune, tells_latest latest, show options.skips (.enter (.method header)) = false from rfl,
      Bool.not_false, if_pos rfl, pruneAll_endsAt passed ends, ← pruneAll_eq_flatMap passed]
    simp only [allEvents, events, List.append_nil]
    rw [allEvents_pruneAll latest fun _ => outsideFront, List.filter_cons]
    rfl
  have apart : method.events ++ rest =
      (.enter (.method header) :: allEvents front) ++ .methodItem .code ::
        (allEvents inside ++ .methodItem (.maxs stack locals) :: ([.finish] ++ rest)) := by
    simp [method, events, allEvents, allEvents_append]
  have finish : ∀ event ∈ [Event.finish], event ≠ .methodItem .code := by simp
  rw [apart, delete_outside outsideStart, delete_body skipped (forall_mem_allEvents.mpr isInside),
    delete_outside finish, left, List.append_assoc]
  rfl

/-- A part of a class is left as what is not named of it. -/
theorem delete_part (latest : options.api = .latest) (isPart : item.IsStoryPart) (rest : List Event) :
    options.delete (item.events ++ rest) = allEvents (options.prune item) ++ options.delete rest := by
  have untouched (outside : ∀ event ∈ item.events, event ≠ .methodItem .code) :
      options.delete (item.events ++ rest) = allEvents (options.prune item) ++ options.delete rest := by
    rw [delete_outside outside, allEvents_prune latest fun _ => outside]
  cases isPart with
  | plain isPlain => exact untouched fun event member => (isPlain event member).noCode
  | @bodiless header front isPlain =>
      refine untouched ?_
      rw [events, List.forall_mem_cons, List.forall_mem_append, forall_mem_allEvents]
      exact ⟨by simp, fun part member event isEvent => (isPlain part member event isEvent).noCode, by simp⟩
  | @method header front inside stack locals isPlain isInside =>
      cases skipped : options.skipCode with
      | false =>
          rw [allEvents_prune latest (by simp [skipped]), delete, delete, skipped, if_neg Bool.false_ne_true,
            if_neg Bool.false_ne_true, List.filter_append]
      | true =>
          have noEnd := fun part member => (isInside part member).2
          exact delete_method latest skipped isPlain noEnd header stack locals rest

theorem passes_part (latest : options.api = .latest) (isPart : item.IsStoryPart) :
    options.passes item = true := by
  cases isPart with
  | plain isPlain => exact passes_outside latest fun _ event member => (isPlain event member).noCode
  | bodiless | method => rfl

/-- What flags delete from the story of a class is what a reader leaves out. -/
theorem delete_allEvents (latest : options.api = .latest) (areParts : ∀ item ∈ items, item.IsStoryPart) :
    options.delete (allEvents items) = allEvents (options.pruneAll items) := by
  rw [pruneAll_eq_flatMap fun item member => passes_part latest (areParts item member)]
  induction items with
  | nil =>
      rw [delete, allEvents]
      split <;> rfl
  | cons item rest ih =>
      rw [List.forall_mem_cons] at areParts
      rw [allEvents, delete_part latest areParts.1, ih areParts.2, List.flatMap_cons, allEvents_append]

/-! ### Parts of what is left -/

theorem mem_pruneAll (member : part ∈ options.pruneAll items) :
    part = .fault options.api.refusal ∨ ∃ item ∈ items, part ∈ options.prune item := by
  induction items with
  | nil => simp [pruneAll] at member
  | cons item rest ih =>
      rw [pruneAll] at member
      split at member
      · cases member
      · split at member
        · exact .inl (List.mem_singleton.mp member)
        · rcases List.mem_append.mp member with isHere | isBehind
          · exact .inr ⟨item, List.mem_cons_self, isHere⟩
          · exact (ih isBehind).imp_right fun ⟨item, inside, left⟩ => ⟨item, List.mem_cons_of_mem _ inside, left⟩

theorem isMethodPart_of_mem_prune (isPart : item.IsMethodPart) (member : part ∈ options.prune item) :
    part.IsMethodPart where
  starts := fun event isEvent =>
    isPart.starts event ((prune_sublist options item).subset (mem_allEvents member isEvent))
  visits := by
    rintro opening left rfl event isEvent
    cases item with
    | event told =>
        rw [prune] at member
        split at member <;> simp at member
    | fault cause => simp [prune] at member
    | scope other body =>
        rw [prune] at member
        split at member
        · rw [List.mem_singleton, Item.scope.injEq] at member
          rcases member with ⟨rfl, rfl⟩
          exact isPart.visits opening body rfl event ((pruneAll_sublist options body).subset isEvent)
        · cases member

theorem isClassPart_of_mem_prune (isPart : item.IsClassPart) (member : part ∈ options.prune item) :
    part.IsClassPart := by
  rcases isPart with isSilent | ⟨header, body, rfl, areParts⟩
  · exact .inl fun event isEvent =>
      isSilent event ((prune_sublist options item).subset (mem_allEvents member isEvent))
  · rw [prune] at member
    split at member
    · rw [List.mem_singleton] at member
      refine .inr ⟨header, _, member, fun inner isInside => ?_⟩
      rcases mem_pruneAll isInside with rfl | ⟨whole, isWhole, isLeft⟩
      · exact ⟨by simp [events], by simp⟩
      · exact isMethodPart_of_mem_prune (areParts whole isWhole) isLeft
    · cases member

theorem areClassParts_pruneAll (areParts : ∀ item ∈ items, item.IsClassPart) :
    ∀ part ∈ options.pruneAll items, part.IsClassPart := by
  intro part member
  rcases mem_pruneAll member with rfl | ⟨item, isPart, left⟩
  · exact .inl (by simp [events])
  · exact isClassPart_of_mem_prune (areParts item isPart) left

end ReadOptions

end ClassFile
