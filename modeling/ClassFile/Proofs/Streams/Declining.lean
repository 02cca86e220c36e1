import ClassFile.Proofs.Gating.Logs
import ClassFile.Proofs.Gating.Trees
import ClassFile.Proofs.Tree.Recordings

/-!
# Scopes that are declined

A reader goes past a scope in the same way whether it is heard or not, so all that comes of declining it
is that nothing inside it is told.  The story of a class is a plain list of events here, with a mark at
each scope that is to be declined; `Event.prune` deletes what is inside the marked scopes, with the event
that ends each of them.  It counts the open scopes to find the end.

`Consumer.choosing` is a consumer that declines exactly the marked scopes of a story.  The other way
round, whoever hears the class and never stops marks some of its scopes by the replies.  Both are told
what is left of the story that is told to a listener (`Consumer.decode_prunes`).
-/

namespace ClassFile

open Item

variable {σ : Type}

/-- The events of a story, each with a mark that says, if the event opens a scope, whether the scope is
declined. -/
abbrev Choice := List (Event × Bool)

namespace Event

/-- What comes behind the given number of open scopes. -/
def skip : (scopes : Nat) → Choice → Choice
  | 0, rest => rest
  | _ + 1, [] => []
  | scopes + 1, (.enter _, _) :: rest => skip (scopes + 2) rest
  | scopes + 1, (.finish, _) :: rest => skip scopes rest
  | scopes + 1, _ :: rest => skip (scopes + 1) rest

/-- What is left of a story without what is inside the marked scopes and without their ends, if it starts
inside the given number of scopes that are open in a marked one. -/
def prune : (scopes : Nat) → Choice → Choice
  | _, [] => []
  | 0, (.enter opening, declines) :: rest =>
      (.enter opening, declines) :: prune (if declines then 1 else 0) rest
  | 0, told :: rest => told :: prune 0 rest
  | scopes + 1, (.enter _, _) :: rest => prune (scopes + 2) rest
  | scopes + 1, (.finish, _) :: rest => prune scopes rest
  | scopes + 1, _ :: rest => prune (scopes + 1) rest

/-- Whether an entry of a log is about an event, with the reply that its mark asks for. -/
def Answered (told : Event × Bool) (entry : Event × Except Fault Reply) : Prop :=
  entry.1 = told.1 ∧
    ∀ opening, told.1 = .enter opening → entry.2 = .ok (if told.2 then .declined else .entered)

end Event

open Event

theorem map_fst_of_answered {kept : Choice} {log : Log} (answered : List.Forall₂ Answered kept log) :
    log.map Prod.fst = kept.map Prod.fst := by
  induction answered with
  | nil => rfl
  | cons here _ ih => rw [List.map_cons, List.map_cons, here.1, ih]

theorem prune_skip (scopes : Nat) (rest : Choice) : prune 0 (skip scopes rest) = prune scopes rest := by
  fun_induction skip scopes rest <;> simp_all [prune]

/-! ### Parts of a closed story -/

mutual

theorem skip_item {item : Item} (closed : item.IsClosed) {marked : Choice}
    (marks : marked.map Prod.fst = item.events) (scopes : Nat) (rest : Choice) :
    skip (scopes + 1) (marked ++ rest) = skip (scopes + 1) rest := by
  match item, closed with
  | .event _, closed =>
      rw [events, List.map_eq_singleton_iff] at marks
      rcases marks with ⟨⟨told, declines⟩, rfl, rfl⟩
      cases told with
      | enter | finish | leave => exact closed.elim
      | _ => rfl
  | .fault _, _ =>
      rw [events, List.map_eq_nil_iff] at marks
      rw [marks, List.nil_append]
  | .scope opening body, closed =>
      rw [events, List.map_eq_cons_iff] at marks
      rcases marks with ⟨⟨_, declines⟩, inside, rfl, rfl, marks⟩
      rw [List.map_eq_append_iff] at marks
      rcases marks with ⟨inside, last, rfl, marksInside, marks⟩
      rw [List.map_eq_singleton_iff] at marks
      rcases marks with ⟨⟨_, _⟩, rfl, rfl⟩
      rw [List.cons_append, List.append_assoc, skip, skip_items closed marksInside]
      rfl

/-- What is behind a closed part of a story is behind it in any number of open scopes. -/
theorem skip_items {items : List Item} (closed : AreClosed items) {marked : Choice}
    (marks : marked.map Prod.fst = allEvents items) (scopes : Nat) (rest : Choice) :
    skip (scopes + 1) (marked ++ rest) = skip (scopes + 1) rest := by
  match items, closed with
  | [], _ =>
      rw [allEvents, List.map_eq_nil_iff] at marks
      rw [marks, List.nil_append]
  | item :: others, closed =>
      rw [allEvents, List.map_eq_append_iff] at marks
      rcases marks with ⟨first, behind, rfl, marks, marksBehind⟩
      rw [List.append_assoc, skip_item closed.1 marks, skip_items closed.2 marksBehind]

end

/-- What is left of a story that starts with a scope that is declined. -/
theorem prune_declined {body : List Item} (closed : AreClosed body) {inside : Choice}
    (marks : inside.map Prod.fst = allEvents body) (opening : Opening) (atEnd : Bool) (rest : Choice) :
    prune 0 ((.enter opening, true) :: (inside ++ (.finish, atEnd) :: rest)) =
      (.enter opening, true) :: prune 0 rest := by
  rw [prune, if_pos rfl, ← prune_skip, skip_items closed marks, skip, skip]

/-! ### What is taken down -/

/-- Whether a part of a log is what is left of a marked part of a story, wherever the story goes on. -/
def Tells (marked : Choice) (log : Log) : Prop :=
  ∃ kept, (∀ rest, prune 0 (marked ++ rest) = kept ++ prune 0 rest) ∧ List.Forall₂ Answered kept log

theorem tells_nil : Tells [] [] :=
  ⟨[], fun _ => rfl, .nil⟩

theorem Tells.append {marked others : Choice} {log more : Log} (tells : Tells marked log)
    (tellsMore : Tells others more) : Tells (marked ++ others) (log ++ more) := by
  rcases tells with ⟨kept, left, answered⟩
  rcases tellsMore with ⟨keptMore, leftMore, answeredMore⟩
  refine ⟨kept ++ keptMore, fun rest => ?_, List.rel_append answered answeredMore⟩
  rw [List.append_assoc, left, leftMore, List.append_assoc]

theorem Tells.answered {marked : Choice} {log : Log} (tells : Tells marked log) :
    List.Forall₂ Answered (prune 0 marked) log := by
  rcases tells with ⟨kept, left, answered⟩
  have whole := left []
  rw [List.append_nil, prune, List.append_nil] at whole
  rwa [whole]

/-- An event that opens no scope. -/
theorem tells_event {told : Event} (plain : ∀ opening, told ≠ .enter opening) (mark : Bool)
    (result : Except Fault Reply) : Tells [(told, mark)] [(told, result)] := by
  refine ⟨[(told, mark)], fun rest => ?_, .cons ⟨rfl, fun opening opens => absurd opens (plain opening)⟩ .nil⟩
  cases told with
  | enter opening => exact absurd rfl (plain opening)
  | _ => rfl

theorem tells_enter (opening : Opening) :
    Tells [(.enter opening, false)] [(.enter opening, .ok .entered)] :=
  ⟨[(.enter opening, false)], fun _ => rfl, .cons ⟨rfl, fun _ _ => rfl⟩ .nil⟩

theorem tells_declined {body : List Item} (closed : AreClosed body) {inside : Choice}
    (marks : inside.map Prod.fst = allEvents body) (opening : Opening) (atEnd : Bool) :
    Tells ((.enter opening, true) :: (inside ++ [(.finish, atEnd)]))
      [(.enter opening, .ok .declined)] := by
  refine ⟨[(.enter opening, true)], fun rest => ?_, .cons ⟨rfl, fun _ _ => rfl⟩ .nil⟩
  rw [List.cons_append, List.append_assoc]
  exact prune_declined closed marks opening atEnd rest

namespace Consumer

/-! ### Whoever goes on -/

/-- Whether a consumer never stops. -/
def GoesOn (consumer : Consumer σ) : Prop :=
  ∀ event state, ∃ reply next, (consumer.step event).run.run state = (.ok reply, next)

variable {consumer : Consumer σ}

theorem logged_step_eq_ok {event : Event} {log : Log} {state next : σ} {reply : Reply}
    (ran : (consumer.step event).run.run state = (.ok reply, next)) :
    (consumer.logged.step event).run.run (log, state) =
      (.ok reply, (event, .ok reply) :: log, next) := by
  rw [run_logged_step, ran]

theorem logged_discard_eq_ok {event : Event} {log : Log} {state next : σ} {reply : Reply}
    (ran : (consumer.step event).run.run state = (.ok reply, next)) :
    (discard (consumer.logged.step event) : Step (Log × σ) Unit).run.run (log, state) =
      (.ok (), (event, .ok reply) :: log, next) :=
  Step.bind_eq_ok.mpr ⟨reply, _, logged_step_eq_ok ran, rfl⟩

/-- Whether a telling from the given memory goes on to its end and takes down what is left of a marked
part of a story. -/
def Takes (step : Step (Log × σ) Unit) (log : Log) (state : σ) (marked : Choice) (next : σ) : Prop :=
  ∃ more, step.run.run (log, state) = (.ok (), more.reverse ++ log, next) ∧ Tells marked more

theorem Takes.bind {first second : Step (Log × σ) Unit} {log : Log} {state between next : σ}
    {marked others : Choice} (takes : Takes first log state marked between)
    (takesMore : ∀ log, Takes second log between others next) :
    Takes (do first; second) log state (marked ++ others) next := by
  rcases takes with ⟨taken, ran, tells⟩
  rcases takesMore (taken.reverse ++ log) with ⟨more, ranMore, tellsMore⟩
  refine ⟨taken ++ more, ?_, tells.append tellsMore⟩
  rw [List.reverse_append, List.append_assoc]
  exact Step.bind_eq_ok.mpr ⟨(), _, ran, ranMore⟩

theorem takes_discard {event : Event} {state next : σ} {reply : Reply}
    (ran : (consumer.step event).run.run state = (.ok reply, next))
    (plain : ∀ opening, event ≠ .enter opening) (log : Log) (mark : Bool) :
    Takes (discard (consumer.logged.step event)) log state [(event, mark)] next :=
  ⟨[(event, .ok reply)], logged_discard_eq_ok ran, tells_event plain mark _⟩

/-- A scope that is entered. -/
theorem takes_entered {opening : Opening} {body : List Item} {state inside : σ}
    (entered : (consumer.step (.enter opening)).run.run state = (.ok .entered, inside)) {log : Log}
    {marked : Choice} {next : σ}
    (takes : ∀ log, Takes (do consumer.logged.tell body; discard (consumer.logged.step .finish)) log inside
      marked next) :
    Takes (consumer.logged.tellItem (.scope opening body)) log state ((.enter opening, false) :: marked)
      next := by
  rcases takes ((.enter opening, .ok .entered) :: log) with ⟨more, ran, tells⟩
  refine ⟨(.enter opening, .ok .entered) :: more, ?_, (tells_enter opening).append tells⟩
  rw [Consumer.tellItem]
  refine Step.bind_eq_ok.mpr ⟨_, _, logged_step_eq_ok entered, ?_⟩
  rw [List.reverse_cons, List.append_assoc]
  exact ran

/-- A scope that is declined. -/
theorem takes_declined {opening : Opening} {body : List Item} (closed : AreClosed body) {state next : σ}
    (declined : (consumer.step (.enter opening)).run.run state = (.ok .declined, next)) {inside : Choice}
    (marks : inside.map Prod.fst = allEvents body) (atEnd : Bool) (log : Log) :
    Takes (consumer.logged.tellItem (.scope opening body)) log state
      ((.enter opening, true) :: (inside ++ [(.finish, atEnd)])) next := by
  refine ⟨[(.enter opening, .ok .declined)], ?_, tells_declined closed marks opening atEnd⟩
  rw [Consumer.tellItem]
  exact Step.bind_eq_ok.mpr ⟨_, _, logged_step_eq_ok declined, rfl⟩

mutual

theorem GoesOn.takes_item (goesOn : consumer.GoesOn) {item : Item} (closed : item.IsClosed)
    (whole : item.IsWhole) (state : σ) :
    ∃ marked next, marked.map Prod.fst = item.events ∧
      ∀ log, Takes (consumer.logged.tellItem item) log state marked next := by
  match item, closed, whole with
  | .event told, closed, _ =>
      rcases goesOn told state with ⟨reply, next, ran⟩
      refine ⟨[(told, false)], next, rfl, fun log => ?_⟩
      rw [Consumer.tellItem]
      refine takes_discard ran ?_ log false
      rintro opening rfl
      exact closed
  | .scope opening body, closed, whole =>
      rcases goesOn (.enter opening) state with ⟨_ | _, between, asked⟩
      · rcases goesOn.takes_items closed whole between with ⟨marked, inside, marks, takes⟩
        rcases goesOn .finish inside with ⟨reply, next, finished⟩
        refine ⟨(.enter opening, false) :: (marked ++ [(.finish, false)]), next, ?_, fun log => ?_⟩
        · rw [events, List.map_cons, List.map_append, marks]
          rfl
        · exact takes_entered asked fun log => (takes log).bind fun log =>
            takes_discard finished (fun _ => nofun) log false
      · refine ⟨(.enter opening, true) :: ((allEvents body).map (·, false) ++ [(.finish, false)]), between, ?_,
          takes_declined closed asked ?_ false⟩
        · simp [events, Function.comp_def]
        · simp [Function.comp_def]

/-- Whoever goes on is told a closed part of a story to its end, and marks it by the replies. -/
theorem GoesOn.takes_items (goesOn : consumer.GoesOn) {items : List Item} (closed : AreClosed items)
    (whole : AreWhole items) (state : σ) :
    ∃ marked next, marked.map Prod.fst = allEvents items ∧
      ∀ log, Takes (consumer.logged.tell items) log state marked next := by
  match items, closed, whole with
  | [], _, _ => exact ⟨[], state, rfl, fun log => ⟨[], rfl, tells_nil⟩⟩
  | item :: rest, closed, whole =>
      rcases goesOn.takes_item closed.1 whole.1 state with ⟨marked, between, marks, takes⟩
      rcases goesOn.takes_items closed.2 whole.2 between with ⟨others, next, marksOthers, takesOthers⟩
      refine ⟨marked ++ others, next, ?_, fun log => (takes log).bind takesOthers⟩
      rw [List.map_append, marks, marksOthers, allEvents]

end

/-! ### Whoever chooses beforehand -/

/-- The consumer that has the marked story in front of it that is told to it, and declines what is
marked there. -/
def choosing : Consumer Choice where
  step event := do
    match event, ← get with
    | .enter _, (_, true) :: rest =>
        set (skip 1 rest)
        return .declined
    | _, marked =>
        set marked.tail
        return .entered

theorem choosing_step {event : Event} (plain : ∀ opening, event ≠ .enter opening) (mark : Bool)
    (rest : Choice) :
    (choosing.step event).run.run ((event, mark) :: rest) = (.ok .entered, rest) := by
  cases event with
  | enter opening => exact absurd rfl (plain opening)
  | _ => rfl

theorem choosing_entered (opening : Opening) (rest : Choice) :
    (choosing.step (.enter opening)).run.run ((.enter opening, false) :: rest) = (.ok .entered, rest) :=
  rfl

theorem choosing_declined (opening : Opening) (rest : Choice) :
    (choosing.step (.enter opening)).run.run ((.enter opening, true) :: rest) =
      (.ok .declined, skip 1 rest) :=
  rfl

mutual

theorem takes_choosing_item {item : Item} (closed : item.IsClosed) (whole : item.IsWhole) {marked : Choice}
    (marks : marked.map Prod.fst = item.events) (rest : Choice) (log : Log) :
    Takes (choosing.logged.tellItem item) log (marked ++ rest) marked rest := by
  match item, closed, whole with
  | .event _, closed, _ =>
      rw [events, List.map_eq_singleton_iff] at marks
      rcases marks with ⟨⟨told, mark⟩, rfl, rfl⟩
      rw [Consumer.tellItem]
      have plain : ∀ opening, told ≠ .enter opening := by
        rintro opening rfl
        exact closed
      exact takes_discard (choosing_step plain mark rest) plain log mark
  | .scope opening body, closed, whole =>
      rw [events, List.map_eq_cons_iff] at marks
      rcases marks with ⟨⟨_, declines⟩, inside, rfl, rfl, marks⟩
      rw [List.map_eq_append_iff] at marks
      rcases marks with ⟨inside, last, rfl, marksInside, marks⟩
      rw [List.map_eq_singleton_iff] at marks
      rcases marks with ⟨⟨_, mark⟩, rfl, rfl⟩
      rw [List.cons_append, List.append_assoc, List.singleton_append]
      cases declines with
      | true =>
          have asked := choosing_declined opening (inside ++ (.finish, mark) :: rest)
          rw [skip_items closed marksInside, skip, skip] at asked
          exact takes_declined closed asked marksInside mark log
      | false =>
          have plain : ∀ opening, Event.finish ≠ .enter opening := fun _ => nofun
          refine takes_entered (choosing_entered opening _) fun log => ?_
          refine (takes_choosing_items closed whole marksInside _ log).bind fun log => ?_
          exact takes_discard (choosing_step plain mark rest) plain log mark

/-- Whoever chooses beforehand is told what is left of a closed part of the story. -/
theorem takes_choosing_items {items : List Item} (closed : AreClosed items) (whole : AreWhole items)
    {marked : Choice} (marks : marked.map Prod.fst = allEvents items) (rest : Choice) (log : Log) :
    Takes (choosing.logged.tell items) log (marked ++ rest) marked rest := by
  match items, closed, whole with
  | [], _, _ =>
      rw [allEvents, List.map_eq_nil_iff] at marks
      rw [marks]
      exact ⟨[], rfl, tells_nil⟩
  | item :: others, closed, whole =>
      rw [allEvents, List.map_eq_append_iff] at marks
      rcases marks with ⟨first, behind, rfl, marks, marksBehind⟩
      rw [List.append_assoc]
      exact (takes_choosing_item closed.1 whole.1 marks _ log).bind fun log =>
        takes_choosing_items closed.2 whole.2 marksBehind rest log

end

/-- The end of a class. -/
theorem takes_end {state next : σ} {reply : Reply}
    (finished : (consumer.step .finish).run.run state = (.ok reply, next)) (log : Log) (mark : Bool) :
    Takes (consumer.logged.tell [.event .finish]) log state [(.finish, mark)] next := by
  rcases takes_discard finished (fun _ => nofun) log mark with ⟨more, ran, tells⟩
  refine ⟨more, ?_, tells⟩
  rw [Consumer.tell, Consumer.tellItem]
  exact Step.bind_eq_ok.mpr ⟨(), _, ran, rfl⟩

/-- A story that is closed, with an end behind it, is told whole to whoever declines the chosen scopes. -/
theorem choosing_tells_story {items : List Item} (closed : AreClosed items) (whole : AreWhole items)
    {choice : Choice} (marks : choice.map Prod.fst = allEvents items ++ [.finish]) :
    ∃ log, (choosing.logged.tell (items ++ [.event .finish])).run.run ([], choice) = (.ok (), log, []) ∧
      List.Forall₂ Answered (prune 0 choice) log.reverse := by
  rw [List.map_eq_append_iff] at marks
  rcases marks with ⟨inside, last, rfl, marks, marksEnd⟩
  rw [List.map_eq_singleton_iff] at marksEnd
  rcases marksEnd with ⟨⟨_, mark⟩, rfl, rfl⟩
  have finished := @choosing_step .finish (fun _ => nofun) mark []
  rcases (takes_choosing_items closed whole marks _ []).bind (takes_end finished · mark) with
    ⟨log, ran, tells⟩
  rw [← tell_append, List.append_nil] at ran
  refine ⟨log.reverse, ran, ?_⟩
  rw [List.reverse_reverse]
  exact tells.answered

/-- Whoever never stops makes such a choice. -/
theorem GoesOn.tells_story {consumer : Consumer σ} (goesOn : consumer.GoesOn) {items : List Item}
    (closed : AreClosed items) (whole : AreWhole items) (state : σ) :
    ∃ choice log next, choice.map Prod.fst = allEvents items ++ [.finish] ∧
      (consumer.logged.tell (items ++ [.event .finish])).run.run ([], state) = (.ok (), log, next) ∧
      List.Forall₂ Answered (prune 0 choice) log.reverse := by
  rcases goesOn.takes_items closed whole state with ⟨inside, between, marks, takes⟩
  rcases goesOn .finish between with ⟨reply, next, finished⟩
  rcases (takes []).bind (takes_end finished · false) with ⟨log, ran, tells⟩
  rw [← tell_append, List.append_nil] at ran
  refine ⟨inside ++ [(.finish, false)], log.reverse, next, ?_, ran, ?_⟩
  · rw [List.map_append, marks]
    rfl
  · rw [List.reverse_reverse]
    exact tells.answered

end Consumer

/-! ### The whole class -/

/-- The story of a class without its end is closed. -/
theorem ClassImage.exists_script_eq {image : ClassImage} (whole : AreWhole (image.script {})) :
    ∃ items, image.script {} = items ++ [.event .finish] ∧ AreClosed items ∧ AreWhole items := by
  rcases (isClassStory_script (fun _ _ _ => rfl) whole).exists_eq with ⟨header, inside, same, -, inTurn⟩
  rw [← List.cons_append] at same
  rw [same, areWhole_iff, List.forall_mem_append] at whole
  refine ⟨_, same, ⟨trivial, areClosed_iff.mpr fun item member => ?_⟩, areWhole_iff.mpr whole.1⟩
  apply (inTurn.all_good item member).isClosed (whole.1 item (List.mem_cons_of_mem _ member))
  have apart : ∀ turn ∈ Turn.ofClass, turn ∉ [.finish, .other] := by decide
  exact apart _ (inTurn.turn_mem item member)

/-- Declining scopes only prunes the story of a class.  Let a class be told to its end to a listener that
enters every scope, and let any of its scopes be chosen, at whatever depth: a consumer that declines the
chosen scopes is told the class to its end too, and what it is told is the story without what is inside
the chosen scopes and without their ends.  And whoever never stops makes such a choice, whatever its
replies depend on.  A label stands for a place of its method, so it is the same in both stories. -/
theorem Consumer.decode_prunes {input : Input} {full : List Event}
    (decoded : (listener.decode input {}).run.run [] = (.ok (), full)) :
    (∀ choice : Choice, choice.map Prod.fst = full →
      ∃ log, (choosing.logged.decode input {}).run.run ([], choice) = (.ok (), log, []) ∧
        List.Forall₂ Answered (prune 0 choice) log.reverse) ∧
    ∀ (σ : Type) (consumer : Consumer σ) (state : σ), consumer.GoesOn →
      ∃ choice log next, choice.map Prod.fst = full ∧
        (consumer.logged.decode input {}).run.run ([], state) = (.ok (), log, next) ∧
        List.Forall₂ Answered (prune 0 choice) log.reverse := by
  unfold Consumer.decode at decoded ⊢
  cases read : ClassImage.ofInput? input with
  | error cause =>
      rw [read] at decoded
      cases decoded
  | ok image =>
      rw [read] at decoded
      rcases tell_listener_eq_ok.mp decoded with ⟨whole, rfl⟩
      rcases ClassImage.exists_script_eq whole with ⟨items, same, closed, wholeItems⟩
      have atEnd : allEvents (image.script {}) = allEvents items ++ [.finish] := by
        rw [same, allEvents_append]
        rfl
      rw [atEnd]
      show (∀ choice : Choice, _ → ∃ log, (choosing.logged.tell (image.script {})).run.run _ = _ ∧ _) ∧
        ∀ (σ : Type) (consumer : Consumer σ) (state : σ), _ →
          ∃ choice log next, _ ∧ (consumer.logged.tell (image.script {})).run.run _ = _ ∧ _
      rw [same]
      exact ⟨fun choice marks => choosing_tells_story closed wholeItems marks,
        fun σ consumer state goesOn => goesOn.tells_story closed wholeItems state⟩

open ClassImage in
/-- Where the only method of a class is declined, nothing but its start is told of it. -/
theorem Consumer.decode_prunes_twoJumps :
    ∃ log, (choosing.logged.decode twoJumps {}).run.run
        ([], (allEvents (twoJumpsImage.script {})).map fun event => (event, true)) = (.ok (), log, []) ∧
      log.reverse.map Prod.fst =
        [.classItem (.header ⟨.standard, 33, .ofString "A", none, none, []⟩),
          .enter (.method twoJumpsHeader), .finish] := by
  rcases (decode_prunes decode_listener_twoJumps).1 ((allEvents (twoJumpsImage.script {})).map fun event => (event, true))
      (by simp [Function.comp_def]) with ⟨log, ran, answered⟩
  refine ⟨log, ran, ?_⟩
  rw [map_fst_of_answered answered]
  simp [script_twoJumps, twoJumpsBody, plainScript, instructionItem, allEvents, events, prune]

end ClassFile
