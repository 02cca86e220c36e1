import ClassFile.Proofs.Members.Standing

/-!
# The writer adds members

The end of a member adds its structure to the table of its sort as the last thing that can fail, so that a
member whose end fails leaves the draft as it was (`ClassDraft.on_finishMember`).  Together with what every
other event does to the shape of a draft this makes the writer of classes tabulate
(`ClassDraft.tabulates_writer`).
-/

namespace ClassFile

open Draft

namespace ClassDraft

variable {draft : ClassDraft} {pool : PoolBuilder}

/-! ### Closing -/

theorem shape_keep (place : AnnotationPlace) (values : Output) (draft : ClassDraft) :
    (draft.keep place values).shape = draft.shape := by
  unfold keep
  cases isOpen : draft.member with
  | method part =>
      simp only [shape, isOpen, MemberDraft.head?, part.memberHead_keep place values]
      rfl
  | _ => exact shape_setAnnotations _ draft

theorem on_exit (finished : Bool) :
    on (exit finished) (draft, pool) =
      match draft.annotation? with
      | some (place, annotation) =>
          match annotation.closed? with
          | some around => (.ok (), { draft with annotation? := some (place, around) }, pool)
          | none =>
              (.ok (), { draft.keep place annotation.toOutput with annotation? := none }, pool)
      | none =>
          match on (if finished then finishMember else pure ()) (draft, pool) with
          | (.ok _, next) => (.ok (), { next.1 with member := .none }, next.2)
          | (.error cause, next) => (.error cause, next) := by
  unfold exit
  rw [on_bind, on_look]
  dsimp only
  rcases draft.annotation? with _ | ⟨place, annotation⟩
  · cases finished
    · rfl
    · simp only [if_true]
      rw [on_bind]
      rcases on finishMember (draft, pool) with ⟨_ | _, next⟩ <;> rfl
  · dsimp only
    cases annotation.closed? <;> rfl

/-- An annotation that is closed makes the draft one level less deep. -/
theorem on_exit_annotation {depth : Nat} (isOpen : draft.depth = depth + 1) (finished : Bool) :
    ∃ next, on (exit finished) (draft, pool) = (.ok (), next, pool) ∧
      next.shape = { draft.shape with depth } := by
  rw [on_exit]
  rcases opened : draft.annotation? with _ | ⟨place, inner, _ | ⟨around, outer⟩⟩ <;>
    rw [ClassDraft.depth, opened] at isOpen
  · cases isOpen
  · cases isOpen
    refine ⟨_, rfl, (shape_withOpened _ _).trans ?_⟩
    rw [shape_keep]
    rfl
  · cases isOpen
    exact ⟨_, rfl, rfl⟩

/-! ### Finishing -/

/-- The last step of a member that is finished adds it to the table of its sort. -/
theorem on_add_member {head : MemberHead} {major : UInt16} {what : String}
    {write : Draft ClassDraft Output} {put : ClassDraft → Table → ClassDraft}
    (isWhole : Returns (fun bytes => IsStructure (head.numbers major) bytes.toList) write)
    (beside : Maintains (fun other => other = draft) write)
    (puts : ∀ table kind,
      (put draft table).table kind = Function.update draft.table head.kind table kind)
    (deep : ∀ table, (put draft table).depth = draft.depth) :
    match on (write >>= fun bytes => tryChange fun draft =>
        return put draft (← (draft.table head.kind).add what bytes)) (draft, pool) with
    | (.ok _, next) => next.1.depth = draft.depth ∧ ∃ what bytes table,
        IsStructure (head.numbers major) bytes.toList ∧
          (draft.table head.kind).add what bytes = .ok table ∧
            next.1.table = Function.update draft.table head.kind table
    | (.error _, next) => next.1 = draft := by
  have same : (write.on (draft, pool)).2.1 = draft := beside (draft, pool) rfl
  rw [on_bind]
  rcases ran : write.on (draft, pool) with ⟨_ | bytes, other, next⟩ <;> rw [ran] at same <;>
    dsimp only at same <;> subst same
  · rfl
  · dsimp only
    rw [on_tryChange]
    cases added : (other.table head.kind).add what bytes with
    | error cause => rfl
    | ok table =>
        exact ⟨deep table, what, bytes, table, isWhole _ _ _ ran, added, funext (puts table)⟩

/-- A member that is finished is added to the table of its sort as a whole structure, or the draft is left
as it was. -/
theorem on_finishMember (draft : ClassDraft) (pool : PoolBuilder) :
    match on finishMember (draft, pool) with
    | (.ok _, next) => next.1.depth = draft.depth ∧
        match draft.member.head? with
        | none => next.1.table = draft.table
        | some head => ∃ what bytes table,
            IsStructure (head.numbers draft.version.major) bytes.toList ∧
              (draft.table head.kind).add what bytes = .ok table ∧
                next.1.table = Function.update draft.table head.kind table
    | (.error _, next) => next.1 = draft := by
  unfold finishMember
  rw [on_bind, on_look]
  dsimp only
  rw [on_bind, on_look]
  dsimp only
  cases isOpen : draft.member with
  | none | moduleScope => exact ⟨rfl, rfl⟩
  | component part =>
      refine @on_add_member draft pool ⟨.component, 0, part.name, part.descriptor⟩ _ _ part.write
        (fun draft table => { draft with components := table }) part.returns_write ?_ ?_ fun _ => rfl
      · exact (CodeDraft.maintains_written _ _).bind fun _ => maintains_pure _
      · rintro table (_ | _ | _) <;> rfl
  | field part =>
      refine @on_add_member draft pool ⟨.field, part.access, part.name, part.descriptor⟩ _ _
        (part.write draft.version.major) (fun draft table => { draft with fields := table })
        (part.returns_write _) ?_ ?_ fun _ => rfl
      · exact (CodeDraft.maintains_written _ _).bind fun _ => maintains_pure _
      · rintro table (_ | _ | _) <;> rfl
  | method part =>
      refine @on_add_member draft pool part.memberHead _ _ (part.write draft.version.major)
        (fun draft table => { draft with methods := table }) (part.returns_write _) ?_ ?_ fun _ => rfl
      · exact (CodeDraft.maintains_written _ _).bind fun _ => maintains_pure _
      · rintro table (_ | _ | _) <;> rfl

/-! ### Standing -/

/-- Where a writer stands: as many annotations are open as the caller opened, and the open member starts
with what the pool has for the one that the caller opened. -/
structure Stands (standing : Standing) (state : ClassDraft × PoolBuilder) : Prop where
  isMember : ∀ opening ∈ standing.member?, opening.isMember = true
  depth : state.1.depth = standing.depth
  head : state.1.member.head? = standing.member?.bind (Opening.head? state.2)
  kind : state.1.member.head?.map MemberHead.kind = standing.member?.bind Opening.memberKind?

theorem run_writer_step (event : Event) (state : ClassDraft × PoolBuilder) :
    (writer.step event).run.run state =
      match (record event).on state with
      | (.ok _, next) => (.ok .entered, next)
      | (.error cause, next) => (.error cause, next) := by
  refine (on_bind (record event) (fun _ => pure Reply.entered) state).trans ?_
  rcases (record event).on state with ⟨_ | _, next⟩ <;> rfl

/-- What the pool has for a member stays when the pool grows. -/
theorem head?_bind_eq_of_grows {member? : Option Opening} {first second : PoolBuilder}
    (grows : first.Grows second)
    (kind : (member?.bind (Opening.head? first)).map MemberHead.kind = member?.bind Opening.memberKind?) :
    member?.bind (Opening.head? second) = member?.bind (Opening.head? first) := by
  cases member? with
  | none => rfl
  | some opening =>
      cases found : opening.head? first with
      | some head => simp [Opening.head?_mono grows found, found]
      | none =>
          simp only [Option.bind_some, found, Option.map_none] at kind
          cases opening <;> first | rfl | cases kind

/-- Where only the number of open annotations changes, the caller is in the same member. -/
theorem Stands.of_depth {standing : Standing} {state next : ClassDraft × PoolBuilder} {depth : Nat}
    (known : Stands standing state) (same : next.1.shape = { state.1.shape with depth })
    (grows : state.2.Grows next.2) :
    Stands ⟨standing.member?, depth⟩ next ∧ Files [] state next := by
  have head : next.1.member.head? = state.1.member.head? := congrArg DraftShape.head? same
  refine ⟨⟨known.isMember, congrArg DraftShape.depth same, ?_, ?_⟩,
    .of_tables grows (congrArg DraftShape.tables same)⟩
  · rw [head, known.head, head?_bind_eq_of_grows grows (known.head ▸ known.kind)]
  · rw [head, known.kind]

theorem Stands.of_shape {standing : Standing} {state next : ClassDraft × PoolBuilder}
    (known : Stands standing state) (same : next.1.shape = state.1.shape)
    (grows : state.2.Grows next.2) : Stands standing next ∧ Files [] state next := by
  have depth : ({ state.1.shape with depth := standing.depth } : DraftShape) = state.1.shape := by
    rw [← known.depth]
    rfl
  exact known.of_depth (same.trans depth.symm) grows

/-- An event that leaves the shape leaves the caller where it is. -/
theorem Stands.of_maintains {standing : Standing} {state : ClassDraft × PoolBuilder} {event : Event}
    (known : Stands standing state) (maintains : Maintains (HasShape state.1.shape) (record event)) :
    let next := ((writer.step event).run.run state).2
    Stands standing next ∧ Files [] state next := by
  have same : ((record event).on state).2.1.shape = state.1.shape := maintains state rfl
  have grows := grows_record event state
  rw [run_writer_step]
  rcases ran : (record event).on state with ⟨_ | _, next⟩ <;> rw [ran] at same grows <;>
    exact known.of_shape same grows

/-- What stands in no member is in none of the class. -/
theorem stands_idle {state : ClassDraft × PoolBuilder} (depth : state.1.depth = 0)
    (head : state.1.member.head? = none) : Stands {} state :=
  ⟨nofun, depth, head, by rw [head]; rfl⟩

theorem annotation?_of_depth {draft : ClassDraft} (outside : draft.depth = 0) :
    draft.annotation? = none := by
  rcases isOpen : draft.annotation? with _ | opened
  · rfl
  · simp [depth, isOpen] at outside

/-- Finishing what is no annotation adds the open member to its table, or leaves the draft as it was. -/
theorem on_record_finish {state : ClassDraft × PoolBuilder} (outside : state.1.depth = 0) :
    match (record .finish).on state with
    | (.ok _, next) => Stands {} next ∧
        match state.1.member.head? with
        | none => next.1.table = state.1.table
        | some head => ∃ major what bytes table, IsStructure (head.numbers major) bytes.toList ∧
            (state.1.table head.kind).add what bytes = .ok table ∧
              next.1.table = Function.update state.1.table head.kind table
    | (.error _, next) => next.1 = state.1 := by
  have finished := on_finishMember state.1 state.2
  change match on (exit true) (state.1, state.2) with | (.ok _, next) => _ | (.error _, next) => _
  rw [on_exit, annotation?_of_depth outside]
  simp only [if_true]
  rcases ran : on finishMember (state.1, state.2) with ⟨_ | _, next⟩ <;> rw [ran] at finished
  · exact finished
  · rcases finished with ⟨depth, added⟩
    refine ⟨stands_idle (depth.trans outside) rfl, ?_⟩
    dsimp only
    cases isOpen : state.1.member.head? with
    | none =>
        rw [isOpen] at added
        exact added
    | some head =>
        rw [isOpen] at added
        exact ⟨_, added⟩

/-- The end of the class adds nothing. -/
theorem Stands.of_end {state : ClassDraft × PoolBuilder} (known : Stands {} state) :
    let next := ((writer.step .finish).run.run state).2
    Stands {} next ∧ Files [] state next := by
  have finished := on_record_finish known.depth
  have grows := grows_record .finish state
  rw [run_writer_step]
  rcases ran : (record .finish).on state with ⟨_ | _, next⟩ <;> rw [ran] at finished grows
  · exact known.of_shape (congrArg shape finished) grows
  · refine ⟨finished.1, .of_tables grows ?_⟩
    have added := finished.2
    rwa [show state.1.member.head? = none from known.head] at added

/-- A finished member is the one that was opened. -/
theorem Stands.files_finish {opening : Opening} {state next : ClassDraft × PoolBuilder}
    (known : Stands ⟨some opening, 0⟩ state) (grows : state.2.Grows next.2)
    (added : match state.1.member.head? with
      | none => next.1.table = state.1.table
      | some head => ∃ major what bytes table, IsStructure (head.numbers major) bytes.toList ∧
          (state.1.table head.kind).add what bytes = .ok table ∧
            next.1.table = Function.update state.1.table head.kind table) :
    Files [opening] state next := by
  have member : (Option.map MemberHead.kind state.1.member.head?) = opening.memberKind? := known.kind
  cases isOpen : state.1.member.head? with
  | none =>
      rw [isOpen] at added member
      refine (Files.of_tables grows added).congr fun kind => ?_
      simp [← member]
  | some head =>
      rw [isOpen] at added member
      rcases added with ⟨major, what, bytes, table, isStructure, added, tables⟩
      have found : opening.head? state.2 = some head := known.head.symm.trans isOpen
      refine ⟨grows, fun kind => ?_⟩
      rw [tables, List.filter_singleton, ← member]
      by_cases same : kind = head.kind
      · subst same
        rcases map_eq_ok.mp added with ⟨raised, counted, rfl⟩
        rcases Table.raise_eq_ok counted with ⟨entries, count⟩
        refine ⟨[bytes], ?_, ?_, ?_⟩
        · simpa using ⟨head, major, Opening.head?_mono grows found, isStructure⟩
        · simp [Table.put, entries]
        · simp [Table.put, count]
      · rw [Function.update_of_ne same]
        exact ⟨[], by simp [Ne.symm same], rfl, rfl⟩

theorem annotationSort_of_sort {standing : Standing} {state : ClassDraft × PoolBuilder} {opening : Opening}
    (known : Stands standing state) (noMember : opening.isMember = false)
    (belongs : standing.sort ∈ opening.places) :
    (if state.1.shape.depth = 0 then annotationSort state.1.shape else .ofValues) ∈
      opening.places := by
  have depth : state.1.shape.depth = standing.depth := known.depth
  have kind : state.1.shape.head?.map MemberHead.kind = standing.member?.bind Opening.memberKind? :=
    known.kind
  rw [depth, annotationSort, kind]
  rcases standing with ⟨_ | member, _ | depth⟩
  · cases opening <;> simp_all [Opening.isMember, Opening.places, Standing.sort]
  · exact belongs
  · have isMember := known.isMember member rfl
    cases member <;> simp_all [Opening.isMember, Standing.sort, Opening.sort, Opening.memberKind?]
    cases opening <;> simp_all [Opening.places]
  · exact belongs

/-- A member that is opened in the class is the one where the caller stands then. -/
theorem Stands.of_enter_member {opening : Opening} {state : ClassDraft × PoolBuilder} (known : Stands {} state)
    (isMember : opening.isMember = true) :
    match (record (.enter opening)).on state with
    | (.ok _, next) => Stands ⟨some opening, 0⟩ next ∧ Files [] state next
    | (.error _, next) => Stands {} next ∧ Files [] state next := by
  have grows := grows_record (.enter opening) state
  have entered := on_enter_member isMember state.1 state.2
  change match (record (.enter opening)).on state with
    | (.ok _, next) => _ | (.error _, next) => _ at entered
  rcases ran : (record (.enter opening)).on state with ⟨_ | _, next⟩ <;> rw [ran] at entered grows
  · exact known.of_shape entered grows
  · rcases entered with ⟨same, kind⟩
    have head : next.1.member.head? = opening.head? next.2 := congrArg DraftShape.head? same
    refine ⟨⟨fun _ found => Option.mem_some_iff.mp found ▸ isMember, ?_, head, ?_⟩,
      .of_tables grows (congrArg DraftShape.tables same)⟩
    · exact (congrArg DraftShape.depth same).trans known.depth
    · exact (congrArg _ head).trans kind

/-- An annotation that is opened is one level deeper. -/
theorem Stands.of_enter_deeper {standing : Standing} {opening : Opening} {state : ClassDraft × PoolBuilder}
    (known : Stands standing state) (noMember : opening.isMember = false)
    (belongs : standing.sort ∈ opening.places) :
    match (record (.enter opening)).on state with
    | (.ok _, next) => Stands ⟨standing.member?, standing.depth + 1⟩ next ∧ Files [] state next
    | (.error _, next) => Stands standing next ∧ Files [] state next := by
  have grows := grows_record (.enter opening) state
  have turns : Turns (HasShape state.1.shape) _ (record (.enter opening)) :=
    turns_enter noMember (annotationSort_of_sort known noMember belongs)
  have entered := turns state rfl
  rcases ran : (record (.enter opening)).on state with ⟨_ | _, next⟩ <;> rw [ran] at entered grows
  · exact known.of_shape entered grows
  · refine known.of_depth (entered.trans ?_) grows
    exact congrArg (fun depth => { state.1.shape with depth := depth + 1 }) known.depth

/-- The draft without what is open in it. -/
def dropOpen (draft : ClassDraft) : ClassDraft :=
  { draft with member := .none, annotation? := none }

/-- Whatever a caller tells the writer of classes, a member is added to its table when its end is done, and
at no other time. -/
theorem tabulates_writer :
    writer.Tabulates (fun state => (state.1.dropOpen, state.2)) id Stands where
  event {standing event state} known belongs := by
    cases event with
    | enter opening | leave => cases belongs
    | classItem event => exact known.of_maintains (maintains_item event)
    | moduleItem event => exact known.of_maintains (maintains_inModule _)
    | element event =>
        exact known.of_maintains ( maintains_inAnnotation fun _ => AnnotationDraft.maintains_element event)
    | methodItem event =>
        exact known.of_maintains (maintains_inMethod fun _ => MethodDraft.maintains_item event)
    | «attribute» entry => exact known.of_maintains (maintains_update (shape_addAttribute entry))
    | finish =>
        rw [Standing.eq_of_sort (List.mem_singleton.mp belongs)] at known ⊢
        exact known.of_end
  enter {standing opening state} known belongs := by
    rw [run_writer_step]
    by_cases isMember : opening.isMember
    · rw [Standing.eq_of_sort (Opening.eq_ofClass_of_isMember isMember belongs)] at known ⊢
      have entered := known.of_enter_member isMember
      rw [Standing.enter, if_pos isMember]
      rcases ran : (record (.enter opening)).on state with ⟨_ | _, next⟩ <;> rw [ran] at entered
      · exact entered
      · exact ⟨rfl, entered⟩
    · have entered := known.of_enter_deeper (Bool.eq_false_iff.mpr isMember) belongs
      rw [Standing.enter, if_neg isMember]
      rcases ran : (record (.enter opening)).on state with ⟨_ | _, next⟩ <;> rw [ran] at entered
      · exact entered
      · exact ⟨rfl, entered⟩
  close {member? depth event state} known closes := by
    have closed : ∃ finished, record event = exit finished := by
      rcases closes with rfl | rfl
      · exact ⟨true, rfl⟩
      · exact ⟨false, rfl⟩
    rcases closed with ⟨finished, closed⟩
    rcases on_exit_annotation known.depth finished with ⟨next, ran, same⟩
    refine ⟨.entered, (next, state.2), ?_, known.of_depth same (.refl _)⟩
    rw [run_writer_step, closed, show (exit finished).on state = _ from ran]
  leave {opening state} known := by
    have ran : (record .leave).on state = (.ok (), { state.1 with member := .none }, state.2) := by
      refine (on_exit false).trans ?_
      rw [annotation?_of_depth known.depth]
      rfl
    rw [run_writer_step, ran]
    exact ⟨stands_idle known.depth rfl, .of_tables (.refl _) rfl⟩
  finish {opening state} known := by
    have finished := on_record_finish known.depth
    have grows := grows_record .finish state
    rw [run_writer_step]
    rcases ran : (record .finish).on state with ⟨_ | _, next⟩ <;> rw [ran] at finished grows
    · have left := known.of_shape (congrArg shape finished) grows
      exact ⟨⟨_, left.1⟩, left.2⟩
    · exact ⟨finished.1, known.files_finish grows finished.2⟩
  dropped {standing state} known := ⟨stands_idle rfl rfl, .of_tables (.refl _) rfl⟩

end ClassDraft

end ClassFile
