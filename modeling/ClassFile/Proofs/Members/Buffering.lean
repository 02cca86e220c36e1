import ClassFile.Adapter.MethodBuffer
import ClassFile.Proofs.Gating.Trees
import ClassFile.Proofs.Members.Writing

/-!
# Members behind a buffer

A method that is kept back opens its scope at the consumer behind at once, but what is inside is told only
when the method is finished.  Whatever was kept belongs where it is told, so that telling it adds no member,
and the end of the scope behind is the last that can fail: a consumer that keeps methods back tabulates if
the one behind does (`MethodBuffer.tabulates_connect`).  So members are written all or nothing, with methods
kept back or not (`ClassDraft.writer_allOrNothing`).
-/

namespace ClassFile

/-! ### What belongs into a scope -/

/-- Whether an item can be told right inside a scope of a sort. -/
inductive Item.Belongs : ScopeSort → Item → Prop where
  | event {sort : ScopeSort} {event : Event} (belongs : sort ∈ event.places) : Belongs sort (.event event)
  | fault {sort : ScopeSort} {cause : ClassError} : Belongs sort (.fault cause)
  | scope {sort : ScopeSort} {opening : Opening} {body : List Item} (belongs : sort ∈ opening.places)
      (inside : ∀ item ∈ body, Belongs opening.sort item) : Belongs sort (.scope opening body)

section

variable {api : Api}

mutual

theorem Element.belongs_item (element : Element) : element.item.Belongs .ofValues := by
  cases element with
  | constant name? value | enumeration name? descriptor value =>
      rw [item]
      exact .event (List.mem_singleton_self _)
  | nested name? descriptor elements | array name? elements =>
      rw [item, itemsAfter_eq, List.reverse_nil, List.nil_append]
      exact .scope (List.mem_singleton_self _) (Element.belongs_map_item elements)

theorem Element.belongs_map_item (elements : List Element) :
    ∀ item ∈ elements.map Element.item, item.Belongs .ofValues := by
  cases elements with
  | nil => simp
  | cons element rest =>
      rw [List.map_cons, List.forall_mem_cons]
      exact ⟨Element.belongs_item element, Element.belongs_map_item rest⟩

end

/-- An annotation belongs where its scope can be opened. -/
theorem Element.belongs_scope {opening : Opening} {sort : ScopeSort} (belongs : sort ∈ opening.places)
    (holdsValues : opening.sort = .ofValues) (elements : List Element) :
    (Item.scope opening (items elements)).Belongs sort := by
  refine .scope belongs ?_
  rw [holdsValues, items_eq_map]
  exact belongs_map_item elements

theorem Script.belongs_since {script : Script} {sort : ScopeSort} {required : Api}
    (belong : ∀ item ∈ script, item.Belongs sort) : ∀ item ∈ script.since required api, item.Belongs sort := by
  unfold since
  split
  · exact belong
  · exact List.forall_mem_nil _

theorem TypeAnnotationTree.belongs_script {opening : TypeUse → Opening} {sort : ScopeSort}
    (belongs : ∀ use, sort ∈ (opening use).places) (holdsValues : ∀ use, (opening use).sort = .ofValues)
    (trees : List TypeAnnotationTree) : ∀ item ∈ script opening trees, item.Belongs sort :=
  List.forall_mem_map.mpr fun tree _ =>
    Element.belongs_scope (belongs tree.use) (holdsValues tree.use) tree.elements

theorem Attribute.belongs_script (entries : List Attribute) :
    ∀ item ∈ Attribute.script entries, item.Belongs .ofMethod :=
  List.forall_mem_map.mpr fun _ _ => .event (by simp [Event.places])

theorem ParameterAnnotationTree.belongs_script (visible : Bool) (count? : Option UInt8)
    (trees : List ParameterAnnotationTree) :
    ∀ item ∈ script visible count? trees, item.Belongs .ofMethod := by
  rw [script, List.forall_mem_append]
  exact ⟨List.forall_mem_map.mpr fun _ _ => .event (List.mem_singleton_self _),
    List.forall_mem_map.mpr fun tree _ =>
      Element.belongs_scope (List.mem_singleton_self _) rfl tree.elements⟩

theorem HandlerTree.belongs_script (handlers : List HandlerTree) :
    ∀ item ∈ script api handlers, item.Belongs .ofMethod := by
  rw [script, List.forall_mem_append]
  refine ⟨List.forall_mem_map.mpr fun _ _ => .event (List.mem_singleton_self _),
    Script.belongs_since fun item member => ?_⟩
  rcases List.mem_flatMap.mp member with ⟨handler, -, isNote⟩
  exact TypeAnnotationTree.belongs_script (fun _ => List.mem_singleton_self _) (fun _ => rfl) _ item isNote

theorem InstructionTree.belongs_script (tree : InstructionTree) :
    ∀ item ∈ tree.script api, item.Belongs .ofMethod := by
  rw [script_eq]
  split
  · exact List.forall_mem_singleton.mpr .fault
  · rw [List.forall_mem_cons]
    exact ⟨.event (List.mem_singleton_self _), Script.belongs_since
      (TypeAnnotationTree.belongs_script (fun _ => List.mem_singleton_self _) (fun _ => rfl) _)⟩

namespace MethodTree

variable (tree : MethodTree)

theorem belongs_codeScript : ∀ item ∈ tree.codeScript api, item.Belongs .ofMethod := by
  unfold codeScript
  simp only [List.forall_mem_append]
  refine ⟨⟨⟨⟨⟨⟨?_, ?_⟩, ?_⟩, ?_⟩, ?_⟩, ?_⟩, ?_⟩
  · exact List.forall_mem_singleton.mpr (.event (List.mem_singleton_self _))
  · exact HandlerTree.belongs_script tree.handlers
  · intro item member
    rcases List.mem_flatMap.mp member with ⟨element, -, isTold⟩
    exact element.belongs_script item isTold
  · exact List.forall_mem_map.mpr fun _ _ => .event (List.mem_singleton_self _)
  · exact Script.belongs_since (List.forall_mem_map.mpr fun note _ =>
      Element.belongs_scope (List.mem_singleton_self _) rfl note.elements)
  · exact Attribute.belongs_script _
  · exact List.forall_mem_singleton.mpr (.event (List.mem_singleton_self _))

/-- What is told of a method belongs into the scope of a method. -/
theorem belongs_script : ∀ item ∈ tree.script api, item.Belongs .ofMethod := by
  unfold script
  simp only [List.forall_mem_append]
  refine ⟨⟨⟨⟨⟨⟨⟨?_, ?_⟩, ?_⟩, ?_⟩, ?_⟩, ?_⟩, ?_⟩, ?_⟩
  · exact Script.belongs_since
      (List.forall_mem_map.mpr fun _ _ => .event (List.mem_singleton_self _))
  · refine List.forall_mem_map.mpr fun element _ => .scope (List.mem_singleton_self _) ?_
    exact List.forall_mem_singleton.mpr element.belongs_item
  · exact List.forall_mem_map.mpr fun note _ =>
      Element.belongs_scope (by simp [Opening.places]) rfl note.elements
  · exact Script.belongs_since
      (TypeAnnotationTree.belongs_script (by simp [Opening.places]) (fun _ => rfl) _)
  · exact ParameterAnnotationTree.belongs_script _ _ _
  · exact ParameterAnnotationTree.belongs_script _ _ _
  · exact Attribute.belongs_script _
  · split
    · exact tree.belongs_codeScript
    · exact List.forall_mem_nil _

end MethodTree

end

/-! ### Telling -/

section

variable {σ α β : Type} {view : σ → ClassDraft × PoolBuilder} {stands : Standing → σ → Prop}

/-- Whether a step leads a caller from where it stands to where it stands then and adds the given members,
if it is done.  If it fails, it adds none. -/
def Step.Leads (view : σ → ClassDraft × PoolBuilder) (stands : Standing → σ → Prop)
    (before after : Standing) (openings : List Opening) (step : Step σ α) : Prop :=
  ∀ state, stands before state →
    match step.run.run state with
    | (.ok _, next) => stands after next ∧ Files openings (view state) (view next)
    | (.error _, next) => (∃ standing, stands standing next) ∧ Files [] (view state) (view next)

namespace Step

variable {before between after : Standing} {openings : List Opening}

theorem leads_lift (computed : Except Fault α) :
    Leads view stands before before [] (liftM computed : Step σ α) := by
  intro state known
  cases computed with
  | ok value => exact ⟨known, .refl _⟩
  | error cause => exact ⟨⟨before, known⟩, .refl _⟩

theorem leads_pure (value : α) : Leads view stands before before [] (pure value) :=
  leads_lift (.ok value)

/-- A step that leads on from where nothing was added adds what it adds. -/
theorem Leads.after_nothing {step : Step σ α} (leads : Leads view stands between after openings step)
    {first state : σ} (known : stands between state) (files : Files [] (view first) (view state)) :
    match step.run.run state with
    | (.ok _, next) => stands after next ∧ Files openings (view first) (view next)
    | (.error _, next) => (∃ standing, stands standing next) ∧ Files [] (view first) (view next) := by
  have led := leads state known
  rcases ran : step.run.run state with ⟨_ | _, next⟩ <;> rw [ran] at led
  · exact ⟨led.1, files.trans led.2⟩
  · exact ⟨led.1, files.trans led.2⟩

theorem Leads.bind {first : Step σ α} {second : α → Step σ β}
    (leads : Leads view stands before between [] first)
    (next : ∀ value, Leads view stands between after openings (second value)) :
    Leads view stands before after openings (first >>= second) := by
  intro state known
  have led := leads state known
  rw [ExceptT.run_bind, StateT.run_bind]
  rcases ran : StateT.run first.run state with ⟨_ | value, middle⟩ <;> rw [ran] at led
  · exact led
  · exact (next value).after_nothing led.1 led.2

theorem Leads.discard {step : Step σ α} (leads : Leads view stands before after [] step) :
    Leads view stands before after [] (discard step) :=
  leads.bind fun _ => leads_pure ()

end Step

namespace Consumer.Tabulates

variable {consumer : Consumer σ} {drop : σ → σ} {standing : Standing}

theorem leads_event (tabulates : consumer.Tabulates drop view stands) {event : Event}
    (belongs : standing.sort ∈ event.places) :
    Step.Leads view stands standing standing [] (consumer.step event) := by
  intro state known
  have told := tabulates.event known belongs
  rcases ran : (consumer.step event).run.run state with ⟨_ | _, next⟩ <;> rw [ran] at told
  · exact ⟨⟨standing, told.1⟩, told.2⟩
  · exact told

theorem leads_enter_bind (tabulates : consumer.Tabulates drop view stands) {opening : Opening}
    (belongs : standing.sort ∈ opening.places) {after : Standing} {openings : List Opening}
    {rest : Reply → Step σ α}
    (leads : Step.Leads view stands (standing.enter opening) after openings (rest .entered)) :
    Step.Leads view stands standing after openings (consumer.step (.enter opening) >>= rest) := by
  intro state known
  have told := tabulates.enter known belongs
  rw [ExceptT.run_bind, StateT.run_bind]
  rcases ran : StateT.run (consumer.step (.enter opening)).run state with ⟨_ | reply, middle⟩ <;>
    rw [ran] at told
  · exact ⟨⟨standing, told.1⟩, told.2⟩
  · rcases told with ⟨rfl, stood, files⟩
    exact leads.after_nothing stood files

theorem leads_close (tabulates : consumer.Tabulates drop view stands) {member? : Option Opening}
    {depth : Nat} :
    Step.Leads view stands ⟨member?, depth + 1⟩ ⟨member?, depth⟩ [] (consumer.step .finish) := by
  intro state known
  rcases tabulates.close known (.inl rfl) with ⟨reply, next, ran, stood⟩
  rw [ran]
  exact stood

theorem leads_finish (tabulates : consumer.Tabulates drop view stands) {opening : Opening} :
    Step.Leads view stands ⟨some opening, 0⟩ {} [opening] (consumer.step .finish) := by
  intro state known
  have finished := tabulates.finish known
  rcases ran : (consumer.step .finish).run.run state with ⟨_ | _, next⟩ <;> rw [ran] at finished <;>
    exact finished

theorem leads_tell_of_items {items : List Item}
    (each : ∀ item ∈ items, Step.Leads view stands standing standing [] (consumer.tellItem item)) :
    Step.Leads view stands standing standing [] (consumer.tell items) := by
  induction items with
  | nil => exact Step.leads_pure ()
  | cons item rest ih =>
      rw [List.forall_mem_cons] at each
      rw [Consumer.tell]
      exact each.1.bind fun _ => ih each.2

/-- What is told right inside a member, or deeper, adds no member. -/
theorem leads_tellItem (tabulates : consumer.Tabulates drop view stands) {item : Item}
    {sort : ScopeSort} (belongs : item.Belongs sort) (inside : sort ≠ .ofClass) {standing : Standing}
    (place : standing.sort = sort) :
    Step.Leads view stands standing standing [] (consumer.tellItem item) := by
  induction belongs generalizing standing with
  | event belongs =>
      rw [Consumer.tellItem]
      exact (tabulates.leads_event (place ▸ belongs)).discard
  | fault =>
      rw [Consumer.tellItem]
      exact Step.leads_lift (.error _)
  | @scope sort opening body belongs _ ih =>
      rw [Consumer.tellItem]
      refine tabulates.leads_enter_bind (place ▸ belongs) ?_
      have sortInside := standing.sort_enter opening
      have noMember : ¬ opening.isMember = true :=
        fun isMember => inside (Opening.eq_ofClass_of_isMember isMember belongs)
      rw [Standing.enter, if_neg noMember] at sortInside ⊢
      refine (leads_tell_of_items fun item member => ?_).bind fun _ => tabulates.leads_close.discard
      exact ih item member opening.sort_ne_ofClass sortInside

theorem leads_tell (tabulates : consumer.Tabulates drop view stands) {items : List Item}
    (belong : ∀ item ∈ items, item.Belongs standing.sort) (inside : standing.sort ≠ .ofClass) :
    Step.Leads view stands standing standing [] (consumer.tell items) :=
  leads_tell_of_items fun item member => tabulates.leads_tellItem (belong item member) inside rfl

end Consumer.Tabulates

end

/-! ### Buffers -/

theorem Step.run_behind {σ μ α : Type} (step : Step σ α) (memory : μ) (state : σ) :
    step.behind.run.run (memory, state) =
      ((step.run.run state).1, memory, (step.run.run state).2) :=
  rfl

/-- The buffer for the method that an event opens. -/
def Event.buffer? : Event → Option MethodBuffer
  | .enter (.method header) => some { header }
  | _ => none

namespace MethodBuffer

variable {σ : Type} {api : Api} {next : Consumer σ} {drop : σ → σ}
  {view : σ → ClassDraft × PoolBuilder} {stands : Standing → σ → Prop}

/-- While no method is kept back, every event is told. -/
theorem run_connect_none (event : Event) (state : σ) :
    ((connect api next).step event).run.run (none, state) =
      match (next.step event).run.run state with
      | (.ok reply, after) => (.ok reply, if reply = .entered then event.buffer? else none, after)
      | (.error cause, after) => (.error cause, none, after) := by
  change StateT.run (ExceptT.run ((next.step event).behind >>= _)) (none, state) = _
  rw [ExceptT.run_bind, StateT.run_bind, Step.run_behind]
  rcases (next.step event).run.run state with ⟨_ | reply, after⟩
  · rfl
  · cases reply <;> rcases event with opening | _ <;> first | rfl | (cases opening <;> rfl)

/-- An event that opens no method is only told. -/
theorem run_connect_told {event : Event} (opens : event.buffer? = none) (state : σ) :
    ((connect api next).step event).run.run (none, state) =
      (((next.step event).run.run state).1, none, ((next.step event).run.run state).2) := by
  rw [run_connect_none, opens]
  rcases (next.step event).run.run state with ⟨_ | _, after⟩
  · rfl
  · dsimp only
    rw [ite_self]

/-- Inside a method that is kept back, every event is kept but for those that close the method. -/
theorem run_connect_some {event : Event} {buffer : MethodBuffer}
    (stays : event = .finish ∨ event = .leave → buffer.transcript.around ≠ []) (state : σ) :
    ((connect api next).step event).run.run (some buffer, state) =
      (.ok .entered, some { buffer with transcript := buffer.transcript.note event }, state) := by
  rcases buffer with ⟨header, items, _ | ⟨scope, around⟩⟩
  · cases event with
    | finish => exact absurd rfl (stays (.inl rfl))
    | leave => exact absurd rfl (stays (.inr rfl))
    | _ => rfl
  · cases event <;> rfl

/-- The end of a method that is kept back tells it. -/
theorem run_connect_finish {buffer : MethodBuffer} (outside : buffer.transcript.around = []) (state : σ) :
    ((connect api next).step .finish).run.run (some buffer, state) =
      (((release api next buffer).run.run state).1, none, ((release api next buffer).run.run state).2) := by
  rcases buffer with ⟨header, items, around⟩
  cases outside
  rfl

theorem run_connect_leave {buffer : MethodBuffer} (outside : buffer.transcript.around = []) (state : σ) :
    ((connect api next).step .leave).run.run (some buffer, state) =
      (((next.step .leave).run.run state).1, none, ((next.step .leave).run.run state).2) := by
  rcases buffer with ⟨header, items, around⟩
  cases outside
  rfl

/-- A method that is released is told where its scope was opened. -/
theorem leads_release (tabulates : next.Tabulates drop view stands) (header : MethodHeader)
    (buffer : MethodBuffer) :
    Step.Leads view stands ⟨some (.method header), 0⟩ {} [.method header] (release api next buffer) := by
  refine (Step.leads_lift _).bind fun tree => ?_
  refine Step.Leads.bind ?_ fun _ => tabulates.leads_finish
  exact tabulates.leads_tell tree.belongs_script (Opening.sort_ne_ofClass (.method header))

/-- Where a buffer stands: while a method is kept back, the consumer behind stands right inside it, and what
is open inside it is open in the transcript. -/
def Stands (stands : Standing → σ → Prop) (standing : Standing) : Option MethodBuffer × σ → Prop
  | (none, state) => stands standing state
  | (some buffer, state) =>
      (∃ header, standing.member? = some (.method header)) ∧
        buffer.transcript.around.length = standing.depth ∧ stands ⟨standing.member?, 0⟩ state

/-- A method that is kept back goes on where its transcript goes on. -/
theorem Stands.noted {standing : Standing} {buffer : MethodBuffer} {state : σ}
    (known : Stands stands standing (some buffer, state)) {transcript : Transcript} {depth : Nat}
    (isOpen : transcript.around.length = depth) :
    Stands stands ⟨standing.member?, depth⟩ (some { buffer with transcript }, state) :=
  ⟨known.1, isOpen, known.2.2⟩

theorem Stands.sort_ne {standing : Standing} {buffer : MethodBuffer} {state : σ}
    (known : Stands stands standing (some buffer, state)) : standing.sort ≠ .ofClass := by
  rcases known with ⟨⟨header, inside⟩, -⟩
  intro inClass
  rw [Standing.eq_of_sort inClass] at inside
  cases inside

/-- What neither opens nor closes anything is kept back. -/
theorem run_connect_event {standing : Standing} {event : Event} {buffer : MethodBuffer} {state : σ}
    (known : Stands stands standing (some buffer, state)) (belongs : standing.sort ∈ event.places) :
    ∃ kept, ((connect api next).step event).run.run (some buffer, state) =
        (.ok .entered, some kept, state) ∧ Stands stands standing (some kept, state) := by
  have noFinish : event ≠ .finish := by
    rintro rfl
    exact known.sort_ne (List.mem_singleton.mp belongs)
  have noLeave : event ≠ .leave := by
    rintro rfl
    cases belongs
  have noted : (buffer.transcript.note event).around = buffer.transcript.around := by
    cases event <;> first | rfl | contradiction
  refine ⟨_, run_connect_some (fun closes => absurd closes (not_or.mpr ⟨noFinish, noLeave⟩)) state, ?_⟩
  exact known.noted (noted ▸ known.2.1)

/-- What closes a scope inside a method is kept back. -/
theorem run_connect_close {member? : Option Opening} {depth : Nat} {event : Event} {buffer : MethodBuffer}
    {state : σ} (known : Stands stands ⟨member?, depth + 1⟩ (some buffer, state))
    (closes : event = .finish ∨ event = .leave) :
    ∃ kept, ((connect api next).step event).run.run (some buffer, state) =
        (.ok .entered, some kept, state) ∧ Stands stands ⟨member?, depth⟩ (some kept, state) := by
  have deep := known.2.1
  rcases isOpen : buffer.transcript.around with _ | ⟨scope, around⟩ <;> rw [isOpen] at deep
  · cases deep
  · have noted : (buffer.transcript.note event).around = around := by
      rcases closes with rfl | rfl <;> simp [Transcript.note, Transcript.close, isOpen]
    refine ⟨_, run_connect_some (fun _ => isOpen ▸ List.cons_ne_nil _ _) state, known.noted ?_⟩
    rw [noted]
    exact Nat.succ.inj deep

/-- A consumer that keeps methods back adds the members that the one behind it adds. -/
theorem tabulates_connect (tabulates : next.Tabulates drop view stands) :
    (connect api next).Tabulates (fun memory => (none, drop memory.2)) (fun memory => view memory.2)
      (Stands stands) where
  event {standing event memory} known belongs := by
    rcases memory with ⟨_ | buffer, state⟩
    · have opens : event.buffer? = none := by
        cases event <;> first | rfl | cases belongs
      rw [run_connect_told opens]
      exact tabulates.event known belongs
    · rcases run_connect_event known belongs with ⟨kept, ran, stood⟩
      rw [ran]
      exact ⟨stood, .refl _⟩
  enter {standing opening memory} known belongs := by
    rcases memory with ⟨_ | buffer, state⟩
    · have told := tabulates.enter known belongs
      rw [run_connect_none]
      rcases ran : (next.step (.enter opening)).run.run state with ⟨_ | reply, after⟩ <;> rw [ran] at told
      · exact told
      · rcases told with ⟨rfl, stood, files⟩
        refine ⟨rfl, ?_, files⟩
        cases opening with
        | method header => exact ⟨⟨header, rfl⟩, rfl, stood⟩
        | _ => exact stood
    · have noMember : ¬ opening.isMember = true :=
        fun isMember => known.sort_ne (Opening.eq_ofClass_of_isMember isMember belongs)
      rw [run_connect_some (by simp), Standing.enter, if_neg noMember]
      exact ⟨rfl, known.noted (congrArg (· + 1) known.2.1), .refl _⟩
  close {member? depth event memory} known closes := by
    rcases memory with ⟨_ | buffer, state⟩
    · have opens : event.buffer? = none := by rcases closes with rfl | rfl <;> rfl
      rcases tabulates.close known closes with ⟨reply, after, ran, stood, files⟩
      refine ⟨reply, (none, after), ?_, stood, files⟩
      rw [run_connect_told opens, ran]
    · rcases run_connect_close known closes with ⟨kept, ran, stood⟩
      exact ⟨_, _, ran, stood, .refl _⟩
  leave {opening memory} known := by
    rcases memory with ⟨_ | buffer, state⟩
    · rw [run_connect_told rfl]
      exact tabulates.leave known
    · rcases known with ⟨-, depth, stood⟩
      rw [run_connect_leave (List.length_eq_zero_iff.mp depth)]
      exact tabulates.leave stood
  finish {opening memory} known := by
    rcases memory with ⟨_ | buffer, state⟩
    · have finished := tabulates.finish known
      rw [run_connect_told rfl]
      rcases ran : (next.step .finish).run.run state with ⟨_ | _, after⟩ <;> rw [ran] at finished
      · rcases finished with ⟨⟨standing, left⟩, files⟩
        exact ⟨⟨standing, left⟩, files⟩
      · exact finished
    · rcases known with ⟨⟨header, inside⟩, depth, stood⟩
      cases inside
      have released := @leads_release _ api _ _ _ _ tabulates header buffer state stood
      rw [run_connect_finish (List.length_eq_zero_iff.mp depth)]
      rcases ran : (release api next buffer).run.run state with ⟨_ | _, after⟩ <;> rw [ran] at released
      · rcases released with ⟨⟨standing, left⟩, files⟩
        exact ⟨⟨standing, left⟩, files⟩
      · exact released
  dropped {standing memory} known := by
    rcases memory with ⟨_ | buffer, state⟩
    · exact tabulates.dropped known
    · exact tabulates.dropped known.2.2

end MethodBuffer

/-! ### All or nothing -/

/-- Whether a consumer with a class draft behind it writes members all or nothing, whatever its caller does
and wherever that fails. -/
structure Consumer.AllOrNothing {σ : Type} (consumer : Consumer σ) (drop : σ → σ)
    (view : σ → ClassDraft × PoolBuilder) (start : σ) : Prop where
  /-- Each table holds the members of its sort whose ends were done, in the order of those ends and each as
  a whole structure, and counts them. -/
  written (course : Course .ofClass) (kind : MemberKind) :
    let ran := consumer.follow drop course start
    ((view ran.2).1.table kind).Spells (Opening.IsWritten (view ran.2).2)
      (ran.1.filter fun opening => opening.memberKind? = some kind)
  /-- A member that could not be opened leaves the tables as they were. -/
  refused (course : Course .ofClass) (opening : Opening) (belongs : .ofClass ∈ opening.places)
    (kind : MemberKind) :
    let state := (consumer.follow drop course start).2
    ∀ next cause, (consumer.step (.enter opening)).run.run state = (.error cause, next) →
      (view next).1.table kind = (view state).1.table kind
  /-- So does whatever is told inside a scope of the class, and then a scope that is given up or whose end
  fails. -/
  unchanged (course : Course .ofClass) (opening : Opening) (belongs : .ofClass ∈ opening.places)
    (inside : Course opening.sort) (ends : Bool) (kind : MemberKind) :
    let state := (consumer.follow drop course start).2
    ∀ entered, (consumer.step (.enter opening)).run.run state = (.ok .entered, entered) →
      let told := (consumer.follow drop inside entered).2
      let closed := consumer.close drop ends told
      (view told).1.table kind = (view state).1.table kind ∧
        (closed.1 = false → (view closed.2).1.table kind = (view told).1.table kind)

/-- A consumer that tabulates writes members all or nothing, from empty tables on. -/
theorem Consumer.Tabulates.allOrNothing {σ : Type} {consumer : Consumer σ} {drop : σ → σ}
    {view : σ → ClassDraft × PoolBuilder} {stands : Standing → σ → Prop}
    (tabulates : consumer.Tabulates drop view stands) {start : σ} (known : stands {} start)
    (empty : ∀ kind, (view start).1.table kind = {}) : consumer.AllOrNothing drop view start where
  written course kind := (tabulates.follow course rfl known).2.spells kind (empty kind)
  refused course opening belongs kind next cause ran := by
    have told := tabulates.enter (tabulates.follow course rfl known).1 belongs
    rw [ran] at told
    exact told.2.table_eq kind
  unchanged course opening belongs inside ends kind entered ran := by
    have told := tabulates.enter (tabulates.follow course rfl known).1 belongs
    rw [ran] at told
    rcases told with ⟨-, stood, files⟩
    have within := tabulates.follow_inside inside stood
    have closed := (tabulates.closes belongs within.1 ends).2
    refine ⟨(files.trans within.2).table_eq kind, fun failed => ?_⟩
    rw [failed, if_neg Bool.false_ne_true] at closed
    exact closed.table_eq kind

end ClassFile
