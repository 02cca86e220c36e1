import ClassFile.Proofs.Gating.Logs

/-!
# Stories that are refused

A whole story that is told for a version stops for one reason alone: a dynamic constant that is not known
(`ReadOptions.eq_refusal_of_mem_faults`).  Where there is one, the story does stop
(`ReadOptions.refusal_mem_of_dynamic`).
-/

namespace ClassFile

open Item

namespace Item

mutual

theorem IsWhole.faults_eq_nil {item : Item} (whole : item.IsWhole) : item.faults = [] := by
  match item, whole with
  | .event _, _ => rfl
  | .scope opening body, whole =>
      rw [faults]
      exact AreWhole.allFaults_eq_nil whole

theorem AreWhole.allFaults_eq_nil {items : List Item} (whole : AreWhole items) : allFaults items = [] := by
  match items, whole with
  | [], _ => rfl
  | item :: rest, whole =>
      rw [allFaults, IsWhole.faults_eq_nil whole.1, AreWhole.allFaults_eq_nil whole.2, List.nil_append]

end

theorem allFaults_append (items others : List Item) :
    allFaults (items ++ others) = allFaults items ++ allFaults others := by
  induction items with
  | nil => rfl
  | cons item rest ih => simp [allFaults, ih]

theorem faults_of_visit {item : Item} {label : Label} (visits : item.visit? = some label) :
    item.faults = [] := by
  unfold visit? at visits
  split at visits
  · rfl
  · cases visits

/-- The visits of labels that are left out are no faults. -/
theorem allFaults_filter_visits (items : List Item) (known : Label → Bool) :
    allFaults (items.filter fun item => item.visit?.all known) = allFaults items := by
  induction items with
  | nil => rfl
  | cons item rest ih =>
      rw [List.filter_cons, allFaults]
      cases visits : item.visit? with
      | none => rw [Option.all_none, if_pos rfl, allFaults, ih]
      | some label =>
          split
          · rw [allFaults, ih]
          · rw [faults_of_visit visits, ih, List.nil_append]

theorem allFaults_map_settled (items : List Item) : allFaults (items.map settled) = allFaults items := by
  induction items with
  | nil => rfl
  | cons item rest ih =>
      have same : item.settled.faults = item.faults := by
        cases item with
        | event _ | fault _ => rfl
        | scope opening body => exact allFaults_filter_visits body _
      rw [List.map_cons, allFaults, allFaults, ih, same]

theorem fault_mem_of_settled {items others : List Item} (same : Script.settled items = Script.settled others)
    {cause : ClassError} (member : .fault cause ∈ others) : .fault cause ∈ items := by
  have kept : Item.fault cause ∈ Script.settled others := List.mem_filter.mpr ⟨member, rfl⟩
  rw [← same] at kept
  exact (List.mem_filter.mp kept).1

end Item

namespace ReadOptions

variable {options : ReadOptions} {items : List Item}

mutual

theorem eq_refusal_of_mem_faults_prune {item : Item} (whole : item.IsWhole) :
    ∀ cause ∈ allFaults (options.prune item), cause = options.api.refusal := by
  match item, whole with
  | .event _, _ =>
      rw [prune]
      split <;> simp [allFaults, faults]
  | .scope opening body, whole =>
      rw [prune]
      split
      · simpa [allFaults, faults] using eq_refusal_of_mem_faults whole
      · simp [allFaults]

/-- A whole story is refused for dynamic constants alone. -/
theorem eq_refusal_of_mem_faults {items : List Item} (whole : AreWhole items) :
    ∀ cause ∈ allFaults (options.pruneAll items), cause = options.api.refusal := by
  match items, whole with
  | [], _ => simp [pruneAll, allFaults]
  | item :: rest, whole =>
      rw [pruneAll]
      split
      · simp [allFaults]
      · split
        · simp [allFaults, faults]
        · rw [allFaults_append, List.forall_mem_append]
          exact ⟨eq_refusal_of_mem_faults_prune whole.1, eq_refusal_of_mem_faults whole.2⟩

end

variable {api : Api}

/-- A story stops at what is refused. -/
theorem refusal_mem_of_refuses {item : Item} (member : item ∈ items) (refused : (upTo api).refuses item) :
    .fault api.refusal ∈ (upTo api).pruneAll items := by
  induction items with
  | nil => cases member
  | cons first rest ih =>
      rw [pruneAll, upTo_endsAt, if_neg Bool.false_ne_true]
      split
      · exact List.mem_singleton_self _
      · rename_i accepted
        rcases List.mem_cons.mp member with rfl | isBehind
        · exact absurd refused accepted
        · exact List.mem_append_right _ (ih isBehind)

/-- A scope that everyone knows is told, or the story stops in front of it. -/
theorem scope_mem_pruneAll {opening : Opening} {body : List Item} (came : opening.since = .v4)
    (member : .scope opening body ∈ items) :
    .fault api.refusal ∈ (upTo api).pruneAll items ∨
      .scope opening ((upTo api).pruneAll body) ∈ (upTo api).pruneAll items := by
  induction items with
  | nil => cases member
  | cons first rest ih =>
      rw [pruneAll, upTo_endsAt, if_neg Bool.false_ne_true]
      split
      · exact .inl (List.mem_singleton_self _)
      · simp only [List.mem_append]
        rcases List.mem_cons.mp member with rfl | isBehind
        · have asked : (upTo api).tells (.enter opening) = true := tells_first came rfl
          exact .inr (.inl (by rw [prune, asked, if_pos rfl]; exact List.mem_singleton_self _))
        · exact (ih isBehind).imp .inr .inr

/-- Where a method needs a dynamic constant that is not known, the story is settled as one that stops in
front of the method or inside it. -/
theorem refusal_mem_of_dynamic {told : Script}
    (same : told.map settled = ((upTo api).pruneAll items).map settled)
    {header : MethodHeader} {body : List Item} (member : .scope (.method header) body ∈ items)
    {instruction : Instruction} (inside : .event (.methodItem (.instruction instruction)) ∈ body)
    (dynamic : instruction.usesDynamicConstant = true) (unknown : api.supports .v7 = false) :
    .fault api.refusal ∈ told ∨
      ∃ toldBody, .scope (.method header) toldBody ∈ told ∧ .fault api.refusal ∈ toldBody := by
  have refused : (upTo api).refuses (.event (.methodItem (.instruction instruction))) = true := by
    rw [refuses, dynamic, Bool.true_and, Bool.not_eq_true']
    exact unknown
  rcases scope_mem_pruneAll (by rfl) member with stops | stopsInside
  · have kept : settled (.fault api.refusal) ∈ told.map settled := same ▸ List.mem_map_of_mem stops
    rcases List.mem_map.mp kept with ⟨item, isTold, isFault⟩
    cases item with
    | event _ | scope _ _ => cases isFault
    | fault cause =>
        cases isFault
        exact .inl isTold
  · have kept : settled (.scope (.method header) ((upTo api).pruneAll body)) ∈ told.map settled :=
      same ▸ List.mem_map_of_mem stopsInside
    rcases List.mem_map.mp kept with ⟨item, isTold, isScope⟩
    cases item with
    | event _ | fault _ => cases isScope
    | scope opening toldBody =>
        simp only [settled, Item.scope.injEq] at isScope
        rcases isScope with ⟨rfl, sameInside⟩
        exact .inr ⟨toldBody, isTold, fault_mem_of_settled sameInside (refusal_mem_of_refuses inside refused)⟩

end ReadOptions

end ClassFile
