import ClassFile.Proofs.InstructionList.Cursors
import Mathlib.Algebra.Ring.Nat

/-!
# Walks that edit

A walk to the end that edits on the way (`Cursor.revise`) comes to every element that was there at the
start, once and in order, and to no new one, and leaves what was chosen for each of them.  What carries
the induction is that the cursor stands between the elements that are done and those that are still to
come (`Zipper.Between`), on whatever element or gap a removal left it.

This holds of the lists of every workspace that a program of edits can leave.  How often places were
vacated does not matter: generations may start again (`Workspace.Holds.wrap`), since a new id has to
differ only from those in the list.
-/

namespace ClassFile

open Sequence

namespace Cursor

/-- What is done with an element. -/
inductive Treatment where
  | keep
  | change (change : InstructionTree → InstructionTree)
  | remove

/-- What is done at an element: the elements that are put in front of it, and what is done with it. -/
structure Choice where
  inFront : List InstructionTree
  treatment : Treatment

namespace Choice

/-- The steps that carry the choice out at the current element. -/
def actions (choice : Choice) : List Action :=
  choice.inFront.map .before ++
    match choice.treatment with
    | .keep => []
    | .change change => [.change change]
    | .remove => [.remove]

/-- What is left of the element itself. -/
def kept (choice : Choice) (element : NodeId × InstructionTree) : Sequence :=
  match choice.treatment with
  | .keep => [element]
  | .change change => [(element.1, change element.2)]
  | .remove => []

/-- The elements that stand in the place of the one that the choice was made for. -/
def replacement (choice : Choice) (element : NodeId × InstructionTree) : List InstructionTree :=
  choice.inFront ++ (choice.kept element).map Prod.snd

/-- Whether a part of a sequence is what comes of an element, with whatever ids for what is new. -/
def Yields (choice : Choice) (element : NodeId × InstructionTree) (part : Sequence) : Prop :=
  ∃ news : List NodeId, news.length = choice.inFront.length ∧
    part = news.zip choice.inFront ++ choice.kept element

end Choice

/-- Steps on a list, up to the first that is refused. -/
abbrev Program := ExceptT Panic (StateM Cursor)

/-- One step. -/
def step (action : Action) : Program Answer :=
  ExceptT.mk fun cursor => cursor.act action

/-- Several steps. -/
def steps (actions : List Action) : Program (List Answer) :=
  ExceptT.mk fun cursor => cursor.actAll [] actions

/-- Walks forwards until it comes to the gap, does at each element what is chosen there, and gives the
elements that it came to.  A walk of more than `rounds` elements would be endless. -/
def revise (choose : NodeId × InstructionTree → Choice) : (rounds : Nat) → Program Sequence
  | 0 => throw .endless
  | rounds + 1 => do
      let (some id, _) ← step .next | return []
      let (_, some tree) ← step .look | throw .notInList
      let _ ← steps (choose (id, tree)).actions
      return (id, tree) :: (← revise choose rounds)

/-- What comes of a walk that edits: it came to the elements of the sequence, and the list has what was
chosen for each of them, or there were too many new elements. -/
def Revises (choose : NodeId × InstructionTree → Choice) (cursor : Cursor) (sequence : Sequence)
    (outcome : Except Panic Sequence × Cursor) : Prop :=
  cursor.Keeps outcome.2 ∧
    ((∃ parts, outcome.1 = .ok sequence ∧ outcome.2.Shows (.gap parts.flatten) ∧
      List.Forall₂ (fun element part => (choose element).Yields element part) sequence parts ∧
      parts.flatten.map Prod.snd =
        sequence.flatMap fun element => (choose element).replacement element) ∨
    ∃ arena, outcome.1 = .error (.arenaFull arena) ∧ Arena.maxPlaces <
      sequence.length + (sequence.map fun element => (choose element).inFront.length).sum)

/-! ### Rounds of a walk -/

section Walks

variable {vacated : Vacated} {cursor : Cursor} {zipper : Zipper}

theorem Holds.act_of_not_inserts (holds : cursor.Holds vacated zipper) {action : Action}
    (inserts : ¬ action.Inserts) :
    ∃ vacated after, cursor.act action = (.ok (zipper.act default action).1, after) ∧
      after.Holds vacated (zipper.act default action).2 ∧ cursor.Keeps after := by
  rcases holds.act action with ⟨vacated, next, does, holdsNext, keeps⟩
  generalize cursor.act action = outcome at *
  rcases outcome with ⟨answer, after⟩
  cases does with
  | acts fresh =>
      rename_i new
      have same : zipper.act new action = zipper.act default action := by
        cases action with
        | before | after => exact absurd trivial inserts
        | _ => rfl
      rw [same] at holdsNext
      exact ⟨vacated, after, by rw [same], holdsNext, keeps⟩
  | full isInsert => exact absurd isInsert inserts

theorem Holds.act_before (holds : cursor.Holds vacated zipper) (tree : InstructionTree) :
    (∃ arena after, cursor.act (.before tree) = (.error (.arenaFull arena), after) ∧
      Arena.maxPlaces ≤ zipper.sequence.length ∧ cursor.Keeps after) ∨
    ∃ vacated new after, cursor.act (.before tree) = (.ok (some new, none), after) ∧
      after.Holds vacated (zipper.insertBefore (new, tree)) ∧ cursor.Keeps after := by
  rcases holds.act (.before tree) with ⟨vacated, next, does, holdsNext, keeps⟩
  generalize cursor.act (.before tree) = outcome at *
  rcases outcome with ⟨answer, after⟩
  cases does with
  | acts fresh => exact .inr ⟨vacated, _, after, rfl, holdsNext, keeps⟩
  | full inserts many => exact .inl ⟨_, after, rfl, many, keeps⟩

theorem actAll_cons {action : Action} {answer : Answer} {after : Cursor}
    (acted : cursor.act action = (.ok answer, after)) (done : List Answer) (rest : List Action) :
    cursor.actAll done (action :: rest) = after.actAll (answer :: done) rest := by
  rw [actAll, acted]

/-- New elements come in one after the other in front of the current one. -/
theorem Holds.actAll_before {before after : Sequence} {current : NodeId × InstructionTree}
    (holds : cursor.Holds vacated (.focus before current after)) (trees : List InstructionTree) :
    (∃ arena last, (∀ done more, cursor.actAll done (trees.map .before ++ more) =
        (.error (.arenaFull arena), last)) ∧
      Arena.maxPlaces < before.length + 1 + after.length + trees.length ∧ cursor.Keeps last) ∨
    ∃ vacated, ∃ news : List NodeId, ∃ last, news.length = trees.length ∧
      last.Holds vacated (.focus ((news.zip trees).reverse ++ before) current after) ∧
      cursor.Keeps last ∧
      ∀ done more, ∃ answers, cursor.actAll done (trees.map .before ++ more) =
        last.actAll answers more := by
  induction trees generalizing cursor before vacated with
  | nil => exact .inr ⟨vacated, [], cursor, rfl, holds, ⟨rfl, fun _ _ => rfl⟩,
      fun done more => ⟨done, rfl⟩⟩
  | cons tree rest ih =>
      rcases holds.act_before tree with
        ⟨arena, last, acted, many, keeps⟩ | ⟨vacated, new, middle, acted, holdsMiddle, keeps⟩
      · refine .inl ⟨arena, last, fun done more => ?_, ?_, keeps⟩
        · rw [List.map_cons, List.cons_append, actAll, acted]
        · rw [Zipper.sequence, List.length_append, List.length_reverse, List.length_cons] at many
          rw [List.length_cons]
          omega
      · rcases ih holdsMiddle with
          ⟨arena, last, ran, many, keepsRest⟩ | ⟨vacated, news, last, length, holdsLast, keepsRest, ran⟩
        · refine .inl ⟨arena, last, fun done more => ?_, ?_, keeps.trans keepsRest⟩
          · rw [List.map_cons, List.cons_append, actAll_cons acted]
            exact ran _ more
          · rw [List.length_cons] at many ⊢
            omega
        · refine .inr ⟨vacated, new :: news, last, congrArg Nat.succ length, ?_,
            keeps.trans keepsRest, fun done more => ?_⟩
          · rw [List.zip_cons_cons, List.reverse_cons, List.append_assoc, List.singleton_append]
            exact holdsLast
          · rw [List.map_cons, List.cons_append, actAll_cons acted]
            exact ran _ more

end Walks

end Cursor

namespace Zipper

/-- On the first element of `rest`, behind those of `done`, or on the gap if there is none. -/
def behind (done : Sequence) : (rest : Sequence) → Zipper
  | [] => gap done
  | first :: rest => focus done.reverse first rest

/-- Whether a zipper stands somewhere from which it goes on from the elements of `done` to those of
`rest`. -/
structure Between (zipper : Zipper) (done rest : Sequence) : Prop where
  whole : zipper.sequence = done ++ rest
  next : zipper.next = behind done rest

theorem between_gap (sequence : Sequence) : (gap sequence).Between [] sequence := by
  constructor
  · rfl
  · cases sequence <;> rfl

theorem between_focus (before : Sequence) (current : NodeId × InstructionTree)
    (after : Sequence) :
    (focus before current after).Between (before.reverse ++ [current]) after := by
  constructor
  · simp [Zipper.sequence]
  · cases after <;> simp [Zipper.next, behind]

/-- Where an element was taken out, the zipper stands on the one in front or on the gap. -/
theorem between_remove (before : Sequence) (current : NodeId × InstructionTree)
    (after : Sequence) :
    (focus before current after).remove.Between before.reverse after := by
  cases before with
  | nil => exact between_gap after
  | cons preceding before =>
      rw [List.reverse_cons]
      exact between_focus before preceding after

end Zipper

namespace Cursor

section Programs

variable {α β : Type} {first : Program α} {second : α → Program β} {cursor between : Cursor}

theorem run_bind {value : α} (ran : first.run.run cursor = (.ok value, between)) :
    (first >>= second).run.run cursor = (second value).run.run between := by
  rw [ExceptT.run_bind, StateT.run_bind, ran]
  rfl

theorem run_bind_error {panic : Panic} (ran : first.run.run cursor = (.error panic, between)) :
    (first >>= second).run.run cursor = (.error panic, between) := by
  rw [ExceptT.run_bind, StateT.run_bind, ran]
  rfl

theorem run_step_bind {action : Action} {answer : Answer} {second : Answer → Program β}
    (acted : cursor.act action = (.ok answer, between)) :
    (step action >>= second).run.run cursor = (second answer).run.run between :=
  @run_bind _ _ (step action) second cursor between answer acted

end Programs

section Walks

variable {vacated : Vacated} {cursor : Cursor} {zipper : Zipper}

/-- What is done with the current element leaves the cursor between those in front of it, with what is
kept of it, and those behind it. -/
theorem Holds.actAll_treatment {before after : Sequence} {current : NodeId × InstructionTree}
    (holds : cursor.Holds vacated (.focus before current after)) (choice : Choice) :
    ∃ vacated last treated, last.Holds vacated treated ∧
      treated.Between (before.reverse ++ choice.kept current) after ∧ cursor.Keeps last ∧
      ∀ done, ∃ answers, cursor.actAll done (match choice.treatment with
        | .keep => []
        | .change change => [.change change]
        | .remove => [.remove]) = (.ok answers, last) := by
  unfold Choice.kept
  cases choice.treatment with
  | keep =>
      exact ⟨vacated, cursor, _, holds, Zipper.between_focus before current after,
        ⟨rfl, fun _ _ => rfl⟩, fun done => ⟨_, rfl⟩⟩
  | change change =>
      rcases @Holds.act_of_not_inserts _ _ _ holds (.change change) id with
        ⟨vacated, last, acted, holdsLast, keeps⟩
      refine ⟨vacated, last, _, holdsLast,
        Zipper.between_focus before (current.1, change current.2) after, keeps, fun done => ?_⟩
      exact ⟨_, actAll_cons acted done []⟩
  | remove =>
      rcases @Holds.act_of_not_inserts _ _ _ holds .remove id with
        ⟨vacated, last, acted, holdsLast, keeps⟩
      refine ⟨vacated, last, _, holdsLast, ?_, keeps, fun done => ?_⟩
      · rw [List.append_nil]
        exact Zipper.between_remove before current after
      · exact ⟨_, actAll_cons acted done []⟩

/-- What comes of a walk from behind the elements of `done` over those of `rest`. -/
def RevisesFrom (choose : NodeId × InstructionTree → Choice) (cursor : Cursor) (done rest : Sequence)
    (outcome : Except Panic Sequence × Cursor) : Prop :=
  cursor.Keeps outcome.2 ∧
    ((∃ vacated parts, outcome.1 = .ok rest ∧
      outcome.2.Holds vacated (.gap (done ++ parts.flatten)) ∧
      List.Forall₂ (fun element part => (choose element).Yields element part) rest parts) ∨
    ∃ arena, outcome.1 = .error (.arenaFull arena) ∧ Arena.maxPlaces <
      done.length + rest.length + (rest.map fun element => (choose element).inFront.length).sum)

theorem Holds.act_next {done rest : Sequence} (holds : cursor.Holds vacated zipper)
    (between : zipper.Between done rest) :
    ∃ vacated after, cursor.act .next = (.ok ((Zipper.behind done rest).id?, none), after) ∧
      after.Holds vacated (Zipper.behind done rest) ∧ cursor.Keeps after := by
  rcases @Holds.act_of_not_inserts _ _ _ holds .next id with
    ⟨vacated, after, acted, holdsAfter, keeps⟩
  simp only [Zipper.act, between.next] at acted holdsAfter
  exact ⟨vacated, after, acted, holdsAfter, keeps⟩

theorem Holds.act_look (holds : cursor.Holds vacated zipper) :
    ∃ vacated after, cursor.act .look = (.ok (zipper.id?, zipper.tree?), after) ∧
      after.Holds vacated zipper ∧ cursor.Keeps after :=
  @Holds.act_of_not_inserts _ _ _ holds .look id

/-- All that is done in a round at the first element of `rest`. -/
theorem Holds.steps_actions {done rest : Sequence} {element : NodeId × InstructionTree}
    (holds : cursor.Holds vacated (.focus done.reverse element rest)) (choice : Choice) :
    (∃ arena last, (steps choice.actions).run.run cursor = (.error (.arenaFull arena), last) ∧
      Arena.maxPlaces < done.length + 1 + rest.length + choice.inFront.length ∧
      cursor.Keeps last) ∨
    ∃ vacated answers last treated part,
      (steps choice.actions).run.run cursor = (.ok answers, last) ∧
      last.Holds vacated treated ∧ treated.Between (done ++ part) rest ∧
      choice.Yields element part ∧ cursor.Keeps last := by
  rcases holds.actAll_before choice.inFront with
    ⟨arena, last, ran, many, keeps⟩ | ⟨vacated, news, middle, length, holdsMiddle, keeps, ran⟩
  · rw [List.length_reverse] at many
    exact .inl ⟨arena, last, ran [] _, many, keeps⟩
  · rcases holdsMiddle.actAll_treatment choice with
      ⟨vacated, last, treated, holdsLast, between, keepsLast, ranRest⟩
    rcases ran [] (match choice.treatment with
      | .keep => []
      | .change change => [.change change]
      | .remove => [.remove]) with ⟨between', ranFront⟩
    rcases ranRest between' with ⟨answers, ranBack⟩
    refine .inr ⟨vacated, answers, last, treated, news.zip choice.inFront ++ choice.kept element,
      ranFront.trans ranBack, holdsLast, ?_, ⟨news, length, rfl⟩, keeps.trans keepsLast⟩
    rw [List.reverse_append, List.reverse_reverse, List.reverse_reverse, List.append_assoc] at between
    exact between

theorem Choice.Yields.length_le {choice : Choice} {element : NodeId × InstructionTree}
    {part : Sequence} (yields : choice.Yields element part) :
    part.length ≤ choice.inFront.length + 1 := by
  rcases yields with ⟨news, length, rfl⟩
  have kept : (choice.kept element).length ≤ 1 := by
    unfold Choice.kept
    split <;> simp
  rw [List.length_append, List.length_zip, length, Nat.min_self]
  omega

theorem Holds.revise {choose : NodeId × InstructionTree → Choice} {done rest : Sequence}
    {rounds : Nat} (holds : cursor.Holds vacated zipper) (between : zipper.Between done rest)
    (enough : rest.length < rounds) :
    RevisesFrom choose cursor done rest ((Cursor.revise choose rounds).run.run cursor) := by
  induction rest generalizing cursor zipper vacated done rounds with
  | nil =>
      rcases rounds with _ | rounds
      · cases enough
      rcases holds.act_next between with ⟨vacated, after, acted, holdsAfter, keeps⟩
      have ran : (Cursor.revise choose (rounds + 1)).run.run cursor = (.ok [], after) :=
        run_step_bind acted
      rw [ran]
      refine ⟨keeps, .inl ⟨vacated, [], rfl, ?_, .nil⟩⟩
      rw [List.flatten_nil, List.append_nil]
      exact holdsAfter
  | cons element rest ih =>
      rcases rounds with _ | rounds
      · cases enough
      rcases holds.act_next between with ⟨_, before, moved, holdsBefore, keepsBefore⟩
      rcases holdsBefore.act_look with ⟨_, here, looked, holdsHere, keepsHere⟩
      have keeps := keepsBefore.trans keepsHere
      -- The round, up to the point where it has done what is chosen here.
      have ran : (Cursor.revise choose (rounds + 1)).run.run cursor =
          (do
            let _ ← steps (choose element).actions
            return element :: (← Cursor.revise choose rounds) : Program Sequence).run.run here :=
        (run_step_bind moved).trans (run_step_bind looked)
      rw [ran]
      rcases holdsHere.steps_actions (choose element) with
        ⟨arena, last, stopped, many, keepsLast⟩ |
        ⟨_, answers, last, treated, part, acted, holdsLast, betweenLast, yields, keepsLast⟩
      · rw [run_bind_error stopped]
        refine ⟨keeps.trans keepsLast, .inr ⟨arena, rfl, ?_⟩⟩
        rw [List.length_cons, List.map_cons, List.sum_cons]
        omega
      · have size := yields.length_le
        rw [List.length_cons] at enough
        rw [run_bind acted]
        rcases ih holdsLast betweenLast (Nat.lt_of_succ_lt_succ enough) with ⟨keepsRest, outcome⟩
        generalize outcomeRest : (Cursor.revise choose rounds).run.run last = reached at *
        rcases reached with ⟨result, final⟩
        rcases outcome with ⟨vacated, parts, rfl, holdsFinal, yieldsRest⟩ | ⟨arena, rfl, many⟩
        · rw [run_bind outcomeRest]
          refine ⟨(keeps.trans keepsLast).trans keepsRest,
            .inl ⟨vacated, part :: parts, rfl, ?_, .cons yields yieldsRest⟩⟩
          rw [List.flatten_cons, ← List.append_assoc]
          exact holdsFinal
        · rw [run_bind_error outcomeRest]
          refine ⟨(keeps.trans keepsLast).trans keepsRest, .inr ⟨arena, rfl, ?_⟩⟩
          rw [List.length_append] at many
          rw [List.length_cons, List.map_cons, List.sum_cons]
          omega

theorem Choice.Yields.trees {choice : Choice} {element : NodeId × InstructionTree}
    {part : Sequence} (yields : choice.Yields element part) :
    part.map Prod.snd = choice.replacement element := by
  rcases yields with ⟨news, length, rfl⟩
  rw [List.map_append, List.map_snd_zip (Nat.le_of_eq length.symm)]
  rfl

theorem trees_flatten {choose : NodeId × InstructionTree → Choice} {sequence : Sequence}
    {parts : List Sequence}
    (yields : List.Forall₂ (fun element part => (choose element).Yields element part) sequence parts) :
    parts.flatten.map Prod.snd =
      sequence.flatMap fun element => (choose element).replacement element := by
  induction yields with
  | nil => rfl
  | cons here _ ih => rw [List.flatten_cons, List.map_append, here.trees, ih, List.flatMap_cons]

theorem RevisesFrom.revises {choose : NodeId × InstructionTree → Choice} {sequence : Sequence}
    {outcome : Except Panic Sequence × Cursor}
    (revises : RevisesFrom choose cursor [] sequence outcome) :
    Revises choose cursor sequence outcome := by
  rcases revises with ⟨keeps, ⟨vacated, parts, visited, holds, yields⟩ | ⟨arena, full, many⟩⟩
  · exact ⟨keeps, .inl ⟨parts, visited, holds.shows, yields, trees_flatten yields⟩⟩
  · rw [List.length_nil, Nat.zero_add] at many
    exact ⟨keeps, .inr ⟨arena, full, many⟩⟩

end Walks

end Cursor

/-! ### The lists of a workspace -/

/-- How often places were vacated, as far as generations tell. -/
def Vacated.wrapped (vacated : Vacated) : Vacated :=
  fun arena place => vacated arena place % 4294967296

theorem InstructionList.Holds.wrap {vacated : Vacated} {list : InstructionList} {sequence : Sequence}
    (holds : list.Holds vacated sequence) : list.Holds vacated.wrapped sequence :=
  { holds with
    sound := ⟨fun arena member => by
      have sound := holds.sound.each arena member
      refine ⟨sound.free, sound.nodup, sound.size, fun there => ?_, fun place beyond => ?_⟩
      · rw [sound.generation there, ← UInt32.toNat_inj]
        simp [Vacated.wrapped]
      · rw [Vacated.wrapped, sound.unused place beyond],
      holds.sound.distinct, holds.sound.nonempty⟩ }

namespace Workspace

open InstructionList

variable {vacated : Vacated} {workspace : Workspace} {contents : Contents}

/-- If it does not matter which ids were given away, then generations may start again. -/
theorem Holds.wrap (holds : workspace.Holds vacated contents) :
    workspace.Holds vacated.wrapped ⟨contents.lists, []⟩ where
  count := holds.count
  lists here there := (holds.lists here there).wrap
  apart := holds.apart
  below := holds.below
  unused arena beyond place := by rw [Vacated.wrapped, holds.unused arena beyond place]
  gone id member := absurd member List.not_mem_nil

theorem Holds.run (holds : workspace.Holds vacated contents) (edits : List Edit) :
    ∃ vacated contents, (workspace.run edits).2.Holds vacated contents := by
  induction edits generalizing vacated workspace contents with
  | nil => exact ⟨vacated, contents, holds⟩
  | cons edit rest ih =>
      have rare : Rare vacated.wrapped := fun arena place => Nat.mod_lt _ (by decide)
      rcases holds.wrap.edit rare edit with ⟨next, -, holdsNext⟩
      exact ih holdsNext

/-- In every list that a program of edits leaves, a cursor does step by step what a zipper does, and a
walk that edits comes to just the elements of the list and leaves what was chosen for them. -/
theorem cursor_refines_zipper (edits : List Edit) {number : Nat} {list : InstructionList}
    (here : (({} : Workspace).run edits).2.lists[number]? = some list) :
    ∃ sequence, list.Shows sequence ∧
      (∀ actions, Cursor.Follows { workspace := (({} : Workspace).run edits).2, number }
        (.gap sequence) actions) ∧
      ∀ choose rounds, sequence.length < rounds →
        Cursor.Revises choose { workspace := (({} : Workspace).run edits).2, number } sequence
          ((Cursor.revise choose rounds).run.run
            { workspace := (({} : Workspace).run edits).2, number }) := by
  rcases Workspace.holds_empty.run edits with ⟨vacated, contents, holds⟩
  rcases holds.exists_sequence here with ⟨sequence, -, holdsList⟩
  have holdsCursor : Cursor.Holds vacated { workspace := (({} : Workspace).run edits).2, number }
      (.gap sequence) := ⟨⟨list, here, holdsList⟩, rfl⟩
  refine ⟨sequence, holdsList.shows, holdsCursor.follows, fun choose rounds enough => ?_⟩
  exact (holdsCursor.revise (Zipper.between_gap sequence) enough).revises

/-- A list of three constants. -/
def threeConstants : List Edit :=
  [.collect [⟨.simple .iconst0, []⟩, ⟨.simple .iconst1, []⟩, ⟨.simple .iconst2, []⟩]]

/-- Takes each zero out, makes a three of each one, and puts a one in front of each two. -/
def reviseConstant : NodeId × InstructionTree → Cursor.Choice
  | (_, ⟨.simple .iconst0, _⟩) => ⟨[], .remove⟩
  | (_, ⟨.simple .iconst1, _⟩) =>
      ⟨[], .change fun tree => { tree with instruction := .simple .iconst3 }⟩
  | (_, ⟨.simple .iconst2, _⟩) => ⟨[⟨.simple .iconst1, []⟩], .keep⟩
  | _ => ⟨[], .keep⟩

theorem cursor_refines_zipper_threeConstants :
    ∃ list sequence, (({} : Workspace).run threeConstants).2.lists[0]? = some list ∧
      list.Shows sequence ∧
      Cursor.Follows { workspace := (({} : Workspace).run threeConstants).2, number := 0 }
        (.gap sequence) [.previous, .after ⟨.simple .pop, []⟩, .remove, .next] ∧
      Cursor.Revises reviseConstant
        { workspace := (({} : Workspace).run threeConstants).2, number := 0 } sequence
        ((Cursor.revise reviseConstant 4).run.run
          { workspace := (({} : Workspace).run threeConstants).2, number := 0 }) := by
  rcases @cursor_refines_zipper threeConstants 0 _ rfl with ⟨sequence, shows, follows, revises⟩
  have enough : sequence.length < 4 := by
    rw [← shows.length]
    decide
  exact ⟨_, sequence, rfl, shows, follows _, revises _ 4 enough⟩

example : ((Cursor.revise reviseConstant 4).run.run
    { workspace := (({} : Workspace).run threeConstants).2, number := 0 }).2.workspace.lists.map
      (·.trees) =
    [.ok [⟨.simple .iconst3, []⟩, ⟨.simple .iconst1, []⟩, ⟨.simple .iconst2, []⟩]] := by
  cbv

end Workspace

end ClassFile
