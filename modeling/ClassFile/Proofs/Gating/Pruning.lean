import ClassFile.Proofs.Gating.Constructs
import ClassFile.Proofs.Image.Visits
import ClassFile.Proofs.Story.Listening

/-!
# Stories with parts left out

`ReadOptions.pruneAll` leaves out of a story what a reader is not asked to tell, scopes with all that is
inside them.  A dynamic constant can't be left out, since its instruction means nothing without it: where
it is not known, the story stops with a fault.

A place gets a label because something refers to it, and when that is left out the label may be left out
with it or not.  `Script.settled` is the story of a method without the visits of labels that nothing else
in it refers to.
-/

namespace ClassFile

/-- What a reader reports about a dynamic constant that its listener does not know. -/
def Api.refusal (api : Api) : ClassError :=
  .unsupportedApi "dynamic constants" .v7 api

namespace ReadOptions

/-- Whether an item needs a dynamic constant that the listener does not know. -/
def refuses (options : ReadOptions) : Item → Bool
  | .event (.methodItem (.instruction instruction)) =>
      instruction.usesDynamicConstant && ! options.api.supports .v7
  | _ => false

/-- Whether nothing is told of a scope from an item on: a body that is left out. -/
def endsAt (options : ReadOptions) : Item → Bool
  | .event (.methodItem .code) => options.skipCode
  | _ => false

mutual

/-- What a reader is asked to tell of an item. -/
def prune (options : ReadOptions) : Item → List Item
  | .event event => if options.tells event then [.event event] else []
  | .scope opening body =>
      if options.tells (.enter opening) then [.scope opening (options.pruneAll body)] else []
  | .fault cause => [.fault cause]

/-- What a reader is asked to tell of items, up to a dynamic constant that is not known. -/
def pruneAll (options : ReadOptions) : List Item → List Item
  | [] => []
  | item :: rest =>
      if options.endsAt item then []
      else if options.refuses item then [.fault options.api.refusal]
      else options.prune item ++ options.pruneAll rest

end

/-- Whether a story goes on behind an item. -/
def passes (options : ReadOptions) (item : Item) : Bool :=
  ! options.endsAt item && ! options.refuses item

variable {options : ReadOptions} {item : Item} {items front back : List Item}

theorem pruneAll_append (passed : ∀ item ∈ front, options.passes item = true) :
    options.pruneAll (front ++ back) = front.flatMap options.prune ++ options.pruneAll back := by
  induction front with
  | nil => rfl
  | cons item front ih =>
      rw [List.forall_mem_cons, passes, Bool.and_eq_true, Bool.not_eq_true', Bool.not_eq_true'] at passed
      rw [List.cons_append, pruneAll, passed.1.1, passed.1.2, if_neg Bool.false_ne_true,
        if_neg Bool.false_ne_true, ih passed.2, List.flatMap_cons, List.append_assoc]

theorem pruneAll_eq_flatMap (passed : ∀ item ∈ items, options.passes item = true) :
    options.pruneAll items = items.flatMap options.prune := by
  have whole : options.pruneAll (items ++ []) = items.flatMap options.prune ++ options.pruneAll [] :=
    pruneAll_append passed
  simpa [pruneAll] using whole

theorem pruneAll_refuses (passed : ∀ item ∈ front, options.passes item = true)
    (refused : options.refuses item = true) :
    options.pruneAll (front ++ item :: back) =
      front.flatMap options.prune ++ [.fault options.api.refusal] := by
  have goesOn : options.endsAt item = false := by
    unfold refuses at refused
    split at refused
    · rfl
    · cases refused
  rw [pruneAll_append passed, pruneAll, goesOn, refused]
  rfl

theorem pruneAll_endsAt (passed : ∀ item ∈ front, options.passes item = true)
    (ends : options.endsAt item = true) :
    options.pruneAll (front ++ item :: back) = front.flatMap options.prune := by
  rw [pruneAll_append passed, pruneAll, ends, if_pos rfl, List.append_nil]

/-- What is asked for is not refused. -/
theorem passes_of_tells {event : Event} (told : options.tells event = true) :
    options.passes (.event event) = true := by
  have isKnown := isKnownTo_of_tells told
  have asked : options.skips event = false := by
    rw [tells, Bool.and_eq_true, Bool.not_eq_true'] at told
    exact told.2
  rw [passes, Bool.and_eq_true, Bool.not_eq_true', Bool.not_eq_true']
  constructor
  · unfold endsAt
    split
    · rename_i same
      cases same
      exact asked
    · rfl
  · unfold refuses
    split
    · rename_i instruction same
      cases same
      cases uses : instruction.usesDynamicConstant with
      | false => rfl
      | true =>
          simp only [Event.IsKnownTo, Event.since, MethodItem.since, Instruction.since, uses,
            if_true] at isKnown
          simp [isKnown]
    · rfl

/-! ### Single items -/

/-- Whether an item is told as it is. -/
structure IsUntouched (options : ReadOptions) (item : Item) : Prop where
  passes : options.passes item = true
  same : options.prune item = [item]

/-- Whether an item is left out. -/
structure IsDropped (options : ReadOptions) (item : Item) : Prop where
  passes : options.passes item = true
  nothing : options.prune item = []

theorem pruneAll_of_isUntouched (untouched : ∀ item ∈ items, options.IsUntouched item) :
    options.pruneAll items = items := by
  rw [pruneAll_eq_flatMap fun item member => (untouched item member).passes]
  induction items with
  | nil => rfl
  | cons item rest ih =>
      rw [List.forall_mem_cons] at untouched
      rw [List.flatMap_cons, untouched.1.same, ih untouched.2, List.singleton_append]

theorem pruneAll_of_isDropped (dropped : ∀ item ∈ items, options.IsDropped item) :
    options.pruneAll items = [] := by
  rw [pruneAll_eq_flatMap fun item member => (dropped item member).passes, List.flatMap_eq_nil_iff]
  exact fun item member => (dropped item member).nothing

theorem isUntouched_event {event : Event} (told : options.tells event = true) :
    options.IsUntouched (.event event) where
  passes := passes_of_tells told
  same := by rw [prune, told, if_pos rfl]

theorem isUntouched_scope {opening : Opening} {body : List Item}
    (told : options.tells (.enter opening) = true) (inside : ∀ item ∈ body, options.IsUntouched item) :
    options.IsUntouched (.scope opening body) where
  passes := rfl
  same := by rw [prune, told, if_pos rfl, pruneAll_of_isUntouched inside]

theorem isUntouched_fault (cause : ClassError) : options.IsUntouched (.fault cause) where
  passes := rfl
  same := by rw [prune]

theorem isDropped_scope {opening : Opening} (asked : options.tells (.enter opening) = false)
    (body : List Item) : options.IsDropped (.scope opening body) where
  passes := rfl
  nothing := by rw [prune, asked, if_neg Bool.false_ne_true]

theorem isDropped_event {event : Event} (passes : options.passes (.event event) = true)
    (asked : options.tells event = false) : options.IsDropped (.event event) where
  passes := passes
  nothing := by rw [prune, asked, if_neg Bool.false_ne_true]

theorem upTo_endsAt {api : Api} (item : Item) : (upTo api).endsAt item = false := by
  unfold endsAt
  split <;> rfl

open Item

mutual

theorem prune_eq_upTo {item : Item} (asked : ∀ event ∈ item.events, options.skips event = false) :
    options.prune item = (upTo options.api).prune item := by
  have sameFor {event : Event} (asked : options.skips event = false) :
      options.tells event = (upTo options.api).tells event := by
    rw [tells, tells, asked, upTo_skips]
    rfl
  cases item with
  | event event => rw [prune, prune, sameFor (by simpa [events] using asked)]
  | fault cause => rw [prune, prune]
  | scope opening body =>
      rw [events, List.forall_mem_cons, List.forall_mem_append] at asked
      rw [prune, prune, sameFor asked.1, pruneAll_eq_upTo asked.2.1]

/-- Of a story with nothing that is left out whatever the version, only what is newer is left out. -/
theorem pruneAll_eq_upTo {items : List Item} (asked : ∀ event ∈ allEvents items, options.skips event = false) :
    options.pruneAll items = (upTo options.api).pruneAll items := by
  cases items with
  | nil => rw [pruneAll, pruneAll]
  | cons item rest =>
      rw [allEvents, List.forall_mem_append] at asked
      have goesOn : options.endsAt item = false := by
        unfold endsAt
        split
        · exact asked.1 (.methodItem .code) (by simp [events])
        · rfl
      have sameRefusals : (upTo options.api).refuses item = options.refuses item := by
        unfold refuses
        split <;> rfl
      rw [pruneAll, pruneAll, goesOn, upTo_endsAt, sameRefusals, prune_eq_upTo asked.1,
        pruneAll_eq_upTo asked.2]
      rfl

end

mutual

/-- What is told of an item is asked for. -/
theorem tells_prune (options : ReadOptions) (item : Item) :
    ∀ event ∈ allEvents (options.prune item), options.tells event = true := by
  cases item with
  | event event =>
      rw [prune]
      split
      · rename_i told
        simpa [allEvents, events] using told
      · simp [allEvents]
  | fault cause => simp [prune, allEvents, events]
  | scope opening body =>
      rw [prune]
      split
      · rename_i told
        have finished : options.tells .finish = true := tells_first rfl rfl
        simpa [allEvents, events, told, or_imp, forall_and, finished] using tells_pruneAll options body
      · simp [allEvents]

/-- What is told of a story is asked for. -/
theorem tells_pruneAll (options : ReadOptions) (items : List Item) :
    ∀ event ∈ allEvents (options.pruneAll items), options.tells event = true := by
  cases items with
  | nil => simp [pruneAll, allEvents]
  | cons item rest =>
      rw [pruneAll]
      split
      · simp [allEvents]
      · split
        · simp [allEvents, events]
        · rw [allEvents_append, List.forall_mem_append]
          exact ⟨tells_prune options item, tells_pruneAll options rest⟩

end

mutual

theorem prune_sublist (options : ReadOptions) (item : Item) :
    (allEvents (options.prune item)).Sublist item.events := by
  cases item with
  | event told =>
      rw [prune]
      split
      · exact List.Sublist.refl _
      · exact List.nil_sublist _
  | fault cause => rw [prune, allEvents, allEvents, List.append_nil]
  | scope opening body =>
      rw [prune]
      split
      · rw [allEvents, allEvents, List.append_nil, events, events]
        exact ((pruneAll_sublist options body).append_right _).cons_cons _
      · exact List.nil_sublist _

/-- What is left of a story is told in the order of the story, and nothing else is told. -/
theorem pruneAll_sublist (options : ReadOptions) (items : List Item) :
    (allEvents (options.pruneAll items)).Sublist (allEvents items) := by
  cases items with
  | nil => rw [pruneAll]
  | cons item rest =>
      rw [pruneAll]
      split
      · exact List.nil_sublist _
      · split
        · exact List.nil_sublist _
        · rw [allEvents_append, allEvents]
          exact (prune_sublist options item).append (pruneAll_sublist options rest)

end

end ReadOptions

/-! ### Labels that are mentioned -/

open Item

mutual

theorem Item.mentions_iff (item : Item) (label : Label) :
    item.Mentions label ↔ label ∈ item.events.flatMap Event.labels := by
  cases item with
  | event event =>
      simp only [events, List.flatMap_cons, List.flatMap_nil, List.append_nil]
      exact ⟨fun mentions => by cases mentions; assumption, .event⟩
  | fault cause =>
      simp only [events, List.flatMap_nil, List.not_mem_nil, iff_false]
      intro mentions
      cases mentions
  | scope opening body =>
      have inside := Item.exists_mentions_iff body label
      simp only [events, List.flatMap_cons, List.flatMap_append, List.flatMap_nil, List.append_nil,
        List.mem_append, ← inside, Event.labels]
      constructor
      · intro mentions
        cases mentions with
        | opening mentioned => exact .inl mentioned
        | inside member mentions => exact .inr ⟨_, member, mentions⟩
      · rintro (mentioned | ⟨item, member, mentions⟩)
        · exact .opening mentioned
        · exact .inside member mentions

theorem Item.exists_mentions_iff (items : List Item) (label : Label) :
    (∃ item ∈ items, item.Mentions label) ↔ label ∈ (allEvents items).flatMap Event.labels := by
  cases items with
  | nil => simp [allEvents]
  | cons item rest =>
      rw [List.exists_mem_cons_iff, Item.mentions_iff item, Item.exists_mentions_iff rest, allEvents,
        List.flatMap_append, List.mem_append]

end

namespace Script

/-- The labels that the items of a story mention, but for the visits of labels. -/
def mentioned (script : Script) : List Label :=
  script.flatMap fun item =>
    if item.visit?.isSome then [] else item.events.flatMap Event.labels

/-- A story without the visits of labels that nothing else in it mentions. -/
def settled (script : Script) : Script :=
  script.filter fun item => item.visit?.all fun label => decide (label ∈ script.mentioned)

variable {script : Script}

theorem mentioned_append (script more : Script) :
    mentioned (script ++ more) = script.mentioned ++ mentioned more :=
  List.flatMap_append

theorem mem_mentioned {label : Label} :
    label ∈ script.mentioned ↔ ∃ item ∈ script, item.visit? = none ∧ item.Mentions label := by
  simp only [mentioned, List.mem_flatMap]
  refine exists_congr fun item => and_congr_right fun _ => ?_
  cases item.visit? with
  | none =>
      rw [Item.mentions_iff item]
      simp
  | some place => simp

theorem mentioned_cons (item : Item) (script : Script) : mentioned (item :: script) =
    (if item.visit?.isSome then [] else item.events.flatMap Event.labels) ++ script.mentioned :=
  List.flatMap_cons

/-- Visits count for nothing in what is mentioned. -/
theorem mentioned_filter (known : Label → Bool) :
    mentioned (script.filter fun item => item.visit?.all known) = script.mentioned := by
  induction script with
  | nil => rfl
  | cons item rest ih =>
      rw [List.filter_cons, mentioned_cons]
      cases found : item.visit? with
      | none => rw [Option.all_none, if_pos rfl, mentioned_cons, ih, found]
      | some label =>
          rw [Option.isSome_some, if_pos rfl, List.nil_append]
          split
          · rw [mentioned_cons, found, ih]
            rfl
          · exact ih

/-- A story is settled in the same way when visits of labels that nothing else mentions are left out
before. -/
theorem settled_filter {known : Label → Bool} (inside : ∀ label ∈ script.mentioned, known label = true) :
    settled (script.filter fun item => item.visit?.all known) = script.settled := by
  rw [settled, mentioned_filter, List.filter_filter, settled]
  refine List.filter_congr fun item _ => ?_
  cases item.visit? with
  | none => rfl
  | some label =>
      by_cases isMentioned : label ∈ script.mentioned
      · simp [isMentioned, inside label isMentioned]
      · simp [isMentioned]

end Script

/-- An item with what is told inside it settled. -/
def Item.settled : Item → Item
  | .scope opening body => .scope opening (Script.settled body)
  | item => item

end ClassFile
