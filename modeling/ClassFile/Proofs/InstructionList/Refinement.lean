import ClassFile.Proofs.InstructionList.Workspaces

/-!
# Edits do what they mean

Every edit of a workspace that holds contents answers and leaves what the edit means
(`Workspace.Holds.edit`), and by induction so does every edit of a program
(`Workspace.follows_of_vacated_lt`), as long as no place is vacated so often that its generations
start again.
-/

namespace ClassFile

open Sequence

theorem Contents.put_self {contents : Contents} {number : Nat} {sequence : Sequence}
    (here : contents.lists[number]? = some sequence) : contents.put number sequence = contents := by
  rcases List.getElem?_eq_some_iff.mp here with ⟨bound, rfl⟩
  rw [put, List.set_getElem_self]

namespace Workspace

open InstructionList

/-- How often places were vacated when an edit has given its answer. -/
def vacatedBy (vacated : Vacated) : Edit → Except Panic Answer → Vacated
  | .remove _ id, .ok _ => vacated.after id
  | _, _ => vacated

/-- How often places were vacated when a program has run. -/
def vacatedIn (workspace : Workspace) (vacated : Vacated) : List Edit → Vacated
  | [] => vacated
  | edit :: rest =>
      (workspace.edit edit).2.vacatedIn (vacatedBy vacated edit (workspace.edit edit).1) rest

/-- Whether what comes of an edit is what the edit means. -/
def Refines (vacated : Vacated) (contents : Contents) (edit : Edit)
    (outcome : Except Panic Answer × Workspace) : Prop :=
  ∃ next, contents.Does edit outcome.1 next ∧
    outcome.2.Holds (vacatedBy vacated edit outcome.1) next

@[simp]
theorem vacatedBy_error (vacated : Vacated) (edit : Edit) (panic : Panic) :
    vacatedBy vacated edit (.error panic) = vacated := by
  cases edit <;> rfl

theorem vacatedBy_of_inserts {vacated : Vacated} {edit : Edit} {number : Nat}
    {before after : Sequence} {tree : InstructionTree}
    (inserts : Contents.Inserts edit number before tree after) (answer : Except Panic Answer) :
    vacatedBy vacated edit answer = vacated := by
  cases inserts <;> rfl

theorem vacatedBy_of_moves {vacated : Vacated} {edit : Edit} {number other : Nat}
    {before after : Sequence} (moves : Contents.Moves edit number other before after)
    (answer : Except Panic Answer) : vacatedBy vacated edit answer = vacated := by
  cases moves <;> rfl

theorem le_vacatedBy (vacated : Vacated) (edit : Edit) (answer : Except Panic Answer)
    (arena place : Nat) :
    vacated arena place ≤ vacatedBy vacated edit answer arena place ∧
      vacatedBy vacated edit answer arena place ≤ vacated arena place + 1 := by
  rcases answer with panic | answer
  · simp
  cases edit with
  | remove number id =>
      simp only [vacatedBy, Vacated.after]
      split <;> omega
  | _ => exact ⟨Nat.le_refl _, Nat.le_succ _⟩

theorem le_vacatedIn (workspace : Workspace) (vacated : Vacated) (edits : List Edit)
    (arena place : Nat) : vacated arena place ≤ workspace.vacatedIn vacated edits arena place := by
  induction edits generalizing workspace vacated with
  | nil => exact Nat.le_refl _
  | cons edit rest ih => exact Nat.le_trans (le_vacatedBy ..).1 (ih ..)

/-- An edit vacates at most one place. -/
theorem vacatedIn_le (workspace : Workspace) (vacated : Vacated) (edits : List Edit)
    (arena place : Nat) :
    workspace.vacatedIn vacated edits arena place ≤ vacated arena place + edits.length := by
  induction edits generalizing workspace vacated with
  | nil => exact Nat.le_refl _
  | cons edit rest ih =>
      have step := (le_vacatedBy vacated edit (workspace.edit edit).1 arena place).2
      have run := ih (workspace.edit edit).2 (vacatedBy vacated edit (workspace.edit edit).1)
      rw [List.length_cons]
      exact Nat.le_trans run (by omega)

section Edits

variable {vacated : Vacated} {workspace : Workspace} {contents : Contents}

theorem list_eq_ok {number : Nat} {list : InstructionList}
    (here : workspace.lists[number]? = some list) : workspace.list number = .ok list := by
  rw [Workspace.list, here]

theorem Holds.list_eq_error (holds : workspace.Holds vacated contents) {number : Nat}
    (missing : contents.lists.length ≤ number) : workspace.list number = .error .outOfRange := by
  rw [Workspace.list, List.getElem?_eq_none (holds.count ▸ missing)]

/-- An edit that is refused changes nothing. -/
theorem Holds.fails (holds : workspace.Holds vacated contents) {edit : Edit} {panic : Panic}
    (does : contents.Does edit (.error panic) contents) :
    Refines vacated contents edit (.error panic, workspace) :=
  ⟨contents, does, by rwa [vacatedBy_error]⟩

/-! ### New elements -/

theorem Holds.onList (holds : workspace.Holds vacated contents) {α : Type} {edit : Edit}
    {number : Nat} {answer : α → Answer} {change : InstructionList → Except Panic (α × InstructionList)}
    (named : number ∈ Contents.numbers edit)
    (refines : ∀ {list : InstructionList} {sequence : Sequence},
      workspace.lists[number]? = some list → contents.lists[number]? = some sequence →
        list.Holds vacated sequence → Refines vacated contents edit
          (workspace.settle ((change list).map fun (result, next) =>
            (answer result, workspace.put number next)))) :
    Refines vacated contents edit (workspace.settle (workspace.onList number answer change)) := by
  rcases Nat.lt_or_ge number contents.lists.length with bound | missing
  · have there := List.getElem?_eq_getElem bound
    rcases holds.exists_list there with ⟨list, here, holdsList⟩
    have refined := refines here there holdsList
    rw [Workspace.onList, list_eq_ok here, ok_bind]
    cases changed : change list with
    | ok result => rwa [changed] at refined
    | error panic => rwa [changed] at refined
  · rw [Workspace.onList, holds.list_eq_error missing, error_bind]
    exact holds.fails (.noList named missing)

theorem Holds.refuses (holds : workspace.Holds vacated contents) {edit : Edit} {number : Nat}
    {id : NodeId} {sequence : Sequence} (given : Contents.given? edit = some (number, id))
    (only : Contents.numbers edit = [number]) (here : contents.lists[number]? = some sequence)
    (absent : id ∉ ids sequence) :
    Refines vacated contents edit (.error .notInList, workspace) :=
  holds.fails (.refuse given here absent (by
    simpa [only] using (List.getElem?_eq_some_iff.mp here).1))

theorem Holds.inserts (holds : workspace.Holds vacated contents) (rare : Rare vacated) {edit : Edit}
    {number : Nat} {before after : Sequence} {tree : InstructionTree} {list : InstructionList}
    {result : Except Panic (NodeId × InstructionList)}
    (inserts : Contents.Inserts edit number before tree after)
    (here : workspace.lists[number]? = some list)
    (there : contents.lists[number]? = some (before ++ after))
    (inserted : list.Inserted vacated before tree after result) :
    Refines vacated contents edit (workspace.settle (result.map fun (id, next) =>
      (.node id, workspace.put number next))) := by
  rcases inserted with ⟨arena, rfl, many⟩ | ⟨id, next, rfl, new, holdsNext, arenaIds⟩
  · exact holds.fails (.insertFull inserts there many)
  · refine ⟨_, .insert inserts there (holds.fresh rare here there new), ?_⟩
    rw [vacatedBy_of_inserts inserts]
    exact holds.replace here holdsNext arenaIds

/-- The elements of a new list have ids of their own. -/
theorem Holds.collects (holds : workspace.Holds vacated contents) (rare : Rare vacated)
    (trees : List InstructionTree) :
    (∃ arena, workspace.collect trees = .error (.arenaFull arena) ∧
      Arena.maxPlaces < trees.length) ∨
    ∃ (news : List NodeId) (next : Workspace),
      workspace.collect trees = .ok (.list contents.lists.length, next) ∧
      news.length = trees.length ∧ news.Nodup ∧ (∀ id ∈ news, contents.Fresh id) ∧
      next.Holds vacated (contents.collect (news.zip trees)) := by
  have holdsEmpty : (empty workspace.nextArena).Holds vacated [] :=
    InstructionList.holds_empty fun place => holds.unused _ (Nat.le_refl _) place
  rcases holdsEmpty.addAll trees with
    ⟨arena, full, many⟩ | ⟨news, next, ran, length, places, holdsNext, arenaIds⟩
  · refine .inl ⟨arena, ?_, by simpa using many⟩
    rw [Workspace.collect, full]
    rfl
  have newIds : ids (news.zip trees) = news := List.map_fst_zip (Nat.le_of_eq length)
  have own : ∀ id ∈ news, id.arena = workspace.nextArena := fun id member =>
    List.mem_singleton.mp (places id member).1
  refine .inr ⟨news, _, ?_, length, newIds ▸ holdsNext.nodup, fun id member => ⟨?_, ?_⟩,
    holds.collect holdsNext arenaIds⟩
  · rw [Workspace.collect, ran, ← holds.count]
    rfl
  · exact holds.not_mem_gone rare (places id member).2 (.inr (Nat.le_of_eq (own id member).symm))
  · intro sequence inContents inside
    rcases List.getElem?_of_mem inContents with ⟨number, there⟩
    rcases holds.exists_list there with ⟨list, here, holdsList⟩
    have below := holds.below here _ (holdsList.mem_arenaIds inside)
    exact absurd (own id member) (Nat.ne_of_lt below)

/-! ### Elements that move -/

theorem Holds.moves (holds : workspace.Holds vacated contents) {edit : Edit} {number other : Nat}
    {before after : Sequence} {list : InstructionList}
    {change : InstructionList → InstructionList → Nat → Except Panic Moved}
    (moves : Contents.Moves edit number other before after)
    (here : workspace.lists[number]? = some list)
    (there : contents.lists[number]? = some (before ++ after))
    (splices : ∀ other nextArena, change list other nextArena =
      list.splice other (back? none before) (front? after none) nextArena)
    (bound : other < contents.lists.length) :
    Refines vacated contents edit (workspace.settle (workspace.move number other change)) := by
  have holdsList := holds.lists here there
  rw [Workspace.move, list_eq_ok here, ok_bind]
  by_cases same : number = other
  · subst same
    have first : (empty workspace.nextArena).first? = none := rfl
    refine ⟨contents, ?_, ?_⟩
    · rw [if_pos rfl, splices, InstructionList.splice, first]
      exact .stay moves there
    · rw [if_pos rfl, splices, InstructionList.splice, first, vacatedBy_of_moves moves]
      exact holds
  have thereOther := List.getElem?_eq_getElem bound
  rcases holds.exists_list thereOther with ⟨otherList, hereOther, holdsOther⟩
  rcases holdsList.splice holdsOther (holds.apart here hereOther same)
    (holds.unused _ (Nat.le_refl _)) with ⟨moved, spliced, holdsMoved, holdsRest, kept⟩
  rw [if_neg same, list_eq_ok hereOther, ok_bind, splices, spliced, ok_bind]
  refine ⟨_, .move moves same there thereOther, ?_⟩
  rw [vacatedBy_of_moves moves]
  rcases kept with keeps | rfl
  · exact holds.move same here hereOther holdsMoved holdsRest keeps
  · have first := holds.replace here holdsMoved rfl
    refine first.replace ?_ holdsRest rfl
    rw [Workspace.put, List.getElem?_set_ne same]
    exact hereOther

theorem Holds.onLists (holds : workspace.Holds vacated contents) {edit : Edit} {number other : Nat}
    {change : InstructionList → InstructionList → Nat → Except Panic Moved}
    (named : Contents.numbers edit = [number, other])
    (refines : ∀ {list : InstructionList} {sequence : Sequence},
      workspace.lists[number]? = some list → contents.lists[number]? = some sequence →
        list.Holds vacated sequence → other < contents.lists.length →
          Refines vacated contents edit (workspace.settle (workspace.move number other change))) :
    Refines vacated contents edit (workspace.settle (workspace.move number other change)) := by
  rcases Nat.lt_or_ge number contents.lists.length with bound | missing
  · have there := List.getElem?_eq_getElem bound
    rcases holds.exists_list there with ⟨list, here, holdsList⟩
    rcases Nat.lt_or_ge other contents.lists.length with boundOther | missing
    · exact refines here there holdsList boundOther
    · have different : number ≠ other := by omega
      rw [Workspace.move, list_eq_ok here, ok_bind, if_neg different, holds.list_eq_error missing,
        error_bind]
      exact holds.fails (.noList (by simp [named]) missing)
  · rw [Workspace.move, holds.list_eq_error missing, error_bind]
    exact holds.fails (.noList (by simp [named]) missing)

theorem Holds.moves_refused (holds : workspace.Holds vacated contents) {edit : Edit}
    {number other : Nat} {id : NodeId} {list : InstructionList} {sequence : Sequence}
    {change : InstructionList → InstructionList → Nat → Except Panic Moved}
    (given : Contents.given? edit = some (number, id))
    (named : Contents.numbers edit = [number, other])
    (here : workspace.lists[number]? = some list) (there : contents.lists[number]? = some sequence)
    (refused : ∀ other nextArena, change list other nextArena = .error .notInList)
    (absent : id ∉ ids sequence) (bound : other < contents.lists.length) :
    Refines vacated contents edit (workspace.settle (workspace.move number other change)) := by
  have refuses := holds.fails (.refuse given there absent (by
    simpa [named, bound] using (List.getElem?_eq_some_iff.mp there).1))
  rw [Workspace.move, list_eq_ok here, ok_bind]
  by_cases same : number = other
  · rw [if_pos same, refused]
    exact refuses
  · rcases holds.exists_list (List.getElem?_eq_getElem bound) with ⟨otherList, hereOther, -⟩
    rw [if_neg same, list_eq_ok hereOther, ok_bind, refused]
    exact refuses

/-! ### Every edit -/

theorem Holds.edit (holds : workspace.Holds vacated contents) (rare : Rare vacated) (edit : Edit) :
    Refines vacated contents edit (workspace.edit edit) := by
  cases edit with
  | collect trees =>
      rw [Workspace.edit]
      rcases holds.collects rare trees with
        ⟨arena, full, many⟩ | ⟨news, next, ran, length, nodup, fresh, holdsNext⟩
      · rw [full]
        exact holds.fails (.collectFull many)
      · rw [ran]
        exact ⟨_, .collect length nodup fresh, holdsNext⟩
  | clone number =>
      rw [Workspace.edit]
      rcases Nat.lt_or_ge number contents.lists.length with bound | missing
      · have there := List.getElem?_eq_getElem bound
        rcases holds.exists_list there with ⟨list, here, holdsList⟩
        have trees : list.trees = .ok (contents.lists[number].map Prod.snd) := by
          rw [InstructionList.trees, holdsList.elements_eq]
          rfl
        rw [list_eq_ok here, ok_bind, trees, ok_bind]
        rcases holds.collects rare (contents.lists[number].map Prod.snd) with
          ⟨arena, full, many⟩ | ⟨news, next, ran, length, nodup, fresh, holdsNext⟩
        · rw [full]
          exact holds.fails (.cloneFull there (by simpa using many))
        · rw [ran]
          exact ⟨_, .clone there (by simpa using length) nodup fresh, holdsNext⟩
      · rw [holds.list_eq_error missing, error_bind]
        exact holds.fails (.noList (by simp [Contents.numbers]) missing)
  | add number tree =>
      refine holds.onList (by simp [Contents.numbers]) fun here there holdsList => ?_
      exact holds.inserts rare .add here (by simpa using there) (holdsList.add tree)
  | insert number tree =>
      refine holds.onList (by simp [Contents.numbers]) fun here there holdsList => ?_
      exact holds.inserts rare .insert here there (holdsList.insert tree)
  | before number anchor tree =>
      refine holds.onList (by simp [Contents.numbers]) fun {list sequence} here there holdsList => ?_
      by_cases member : anchor ∈ ids sequence
      · rcases exists_split member with ⟨before, old, after, rfl⟩
        exact holds.inserts rare .before here there (holdsList.insertBefore tree)
      · rw [InstructionList.insertBefore, holdsList.slot_eq_error member]
        exact holds.refuses rfl rfl there member
  | after number anchor tree =>
      refine holds.onList (by simp [Contents.numbers]) fun {list sequence} here there holdsList => ?_
      by_cases member : anchor ∈ ids sequence
      · rcases exists_split member with ⟨before, old, after, rfl⟩
        exact holds.inserts rare .after here (by simpa using there) (holdsList.insertAfter tree)
      · rw [InstructionList.insertAfter, holdsList.slot_eq_error member]
        exact holds.refuses rfl rfl there member
  | remove number id =>
      refine holds.onList (by simp [Contents.numbers]) fun {list sequence} here there holdsList => ?_
      by_cases member : id ∈ ids sequence
      · have own := holdsList.mem_arenaIds member
        rcases exists_split member with ⟨before, old, after, rfl⟩
        rcases holdsList.remove with ⟨generation, next, removed, holdsNext, arenaIds⟩
        rw [removed]
        refine ⟨_, .remove there, holds.put here holdsNext arenaIds [id] (vacated.le_after id) ?_ ?_⟩
        · intro arena outside place
          exact if_neg fun (same : arena = id.arena ∧ place = id.place) => outside (same.1 ▸ own)
        · intro other isId
          rw [List.mem_singleton.mp isId, generation, vacated.after_self,
            UInt32.toNat_ofNat_of_lt' (rare id.arena id.place)]
          exact Nat.lt_succ_self _
      · rw [InstructionList.remove, InstructionList.release, holdsList.slot_eq_error member]
        exact holds.refuses rfl rfl there member
  | set number id tree =>
      refine holds.onList (by simp [Contents.numbers]) fun {list sequence} here there holdsList => ?_
      by_cases member : id ∈ ids sequence
      · rcases exists_split member with ⟨before, old, after, rfl⟩
        rcases holdsList.change fun _ => tree with ⟨next, changed, holdsNext, arenaIds⟩
        rw [InstructionList.set, holdsList.node_eq, ok_bind, changed]
        exact ⟨_, .set there, holds.replace here holdsNext arenaIds⟩
      · rw [InstructionList.set, InstructionList.node, holdsList.slot_eq_error member]
        exact holds.refuses rfl rfl there member
  | change number id change =>
      refine holds.onList (by simp [Contents.numbers]) fun {list sequence} here there holdsList => ?_
      by_cases member : id ∈ ids sequence
      · rcases exists_split member with ⟨before, old, after, rfl⟩
        rcases holdsList.change change with ⟨next, changed, holdsNext, arenaIds⟩
        rw [changed]
        exact ⟨_, .change there, holds.replace here holdsNext arenaIds⟩
      · rw [InstructionList.change, update_eq_error (holdsList.slotIn_eq_none.mpr member)]
        exact holds.refuses rfl rfl there member
  | clear number =>
      rw [Workspace.edit]
      rcases Nat.lt_or_ge number contents.lists.length with bound | missing
      · have there := List.getElem?_eq_getElem bound
        rcases holds.exists_list there with ⟨list, here, holdsList⟩
        rw [list_eq_ok here]
        exact ⟨_, .clear there, holds.clear here there⟩
      · rw [holds.list_eq_error missing]
        exact holds.fails (.noList (by simp [Contents.numbers]) missing)
  | appendList number other =>
      refine holds.onLists rfl fun {list sequence} here there holdsList bound => ?_
      refine holds.moves .appendList here (by simpa using there) (fun _ _ => ?_) bound
      rw [InstructionList.appendList, holdsList.last]
      rfl
  | insertList number other =>
      refine holds.onLists rfl fun {list sequence} here there holdsList bound => ?_
      refine holds.moves .insertList here there (fun _ _ => ?_) bound
      rw [InstructionList.insertList, holdsList.first]
      rfl
  | listBefore number anchor other =>
      refine holds.onLists rfl fun {list sequence} here there holdsList bound => ?_
      by_cases member : anchor ∈ ids sequence
      · rcases exists_split member with ⟨before, old, after, rfl⟩
        refine holds.moves .listBefore here there (fun _ _ => ?_) bound
        rw [InstructionList.insertListBefore, slot_eq_ok.mpr holdsList.slot_eq, ok_bind]
        rfl
      · refine holds.moves_refused rfl rfl here there (fun _ _ => ?_) member bound
        rw [InstructionList.insertListBefore, holdsList.slot_eq_error member, error_bind]
  | listAfter number anchor other =>
      refine holds.onLists rfl fun {list sequence} here there holdsList bound => ?_
      by_cases member : anchor ∈ ids sequence
      · rcases exists_split member with ⟨before, old, after, rfl⟩
        refine holds.moves .listAfter here (by simpa using there) (fun _ _ => ?_) bound
        rw [InstructionList.insertListAfter, slot_eq_ok.mpr holdsList.slot_eq, ok_bind, back?_append]
        rfl
      · refine holds.moves_refused rfl rfl here there (fun _ _ => ?_) member bound
        rw [InstructionList.insertListAfter, holdsList.slot_eq_error member, error_bind]
  | get number position =>
      rw [Workspace.edit, Workspace.ask]
      rcases Nat.lt_or_ge number contents.lists.length with bound | missing
      · have there := List.getElem?_eq_getElem bound
        rcases holds.exists_list there with ⟨list, here, holdsList⟩
        rcases holdsList.get_eq position with ⟨next, got, holdsNext, arenaIds⟩
        have kept := holds.replace here holdsNext arenaIds
        rw [Contents.put_self there] at kept
        rw [list_eq_ok here]
        dsimp only
        rw [got]
        refine ⟨contents, ?_, kept⟩
        have does : contents.Does (.get number position) _ contents := .get there
        cases at_ : (ids contents.lists[number])[position]? <;> rwa [at_] at does
      · rw [holds.list_eq_error missing]
        exact holds.fails (.noList (by simp [Contents.numbers]) missing)
  | indexOf number id =>
      rw [Workspace.edit, Workspace.ask]
      rcases Nat.lt_or_ge number contents.lists.length with bound | missing
      · have there := List.getElem?_eq_getElem bound
        rcases holds.exists_list there with ⟨list, here, holdsList⟩
        rw [list_eq_ok here]
        dsimp only
        by_cases member : id ∈ ids contents.lists[number]
        · rcases exists_split member with ⟨before, old, after, split⟩
          rw [split] at there holdsList
          rcases holdsList.indexOf_eq with ⟨next, found, holdsNext, arenaIds⟩
          have kept := holds.replace here holdsNext arenaIds
          rw [Contents.put_self there] at kept
          rw [found]
          exact ⟨contents, .indexOf there, kept⟩
        · have kept := holds.replace here holdsList rfl
          rw [Contents.put_self there] at kept
          rw [holdsList.indexOf_eq_error member]
          refine ⟨contents, .refuse rfl there member (by simpa [Contents.numbers] using bound), kept⟩
      · rw [holds.list_eq_error missing]
        exact holds.fails (.noList (by simp [Contents.numbers]) missing)

/-! ### Programs -/

theorem Holds.follows (holds : workspace.Holds vacated contents) {edits : List Edit}
    (rare : Rare (workspace.vacatedIn vacated edits)) : Follows workspace contents edits := by
  induction edits generalizing vacated workspace contents with
  | nil => exact .done (holds.shows rare)
  | cons edit rest ih =>
      have rareNow : Rare vacated := fun arena place =>
        Nat.lt_of_le_of_lt (le_vacatedIn ..) (rare arena place)
      rcases holds.edit rareNow edit with ⟨next, does, holdsNext⟩
      exact .step (holds.shows rareNow) does (ih holdsNext rare)

end Edits

/-- Programs of edits do step by step to sequences what they mean, and every list shows its
sequence all along, as long as no place is vacated so often that its generations start again. -/
theorem follows_of_vacatedIn_lt (edits : List Edit)
    (rare : ∀ arena place,
      ({} : Workspace).vacatedIn (fun _ _ => 0) edits arena place < 4294967296) :
    Follows {} ⟨[], []⟩ edits :=
  holds_empty.follows rare

/-- A list of two, of which the second is taken out; what comes next gets its place and moves to a copy
of the list. -/
def reuse : List Edit :=
  [.collect [⟨.simple .nop, []⟩, ⟨.simple .pop, []⟩], .clone 0, .remove 0 ⟨0, 1, 0⟩,
    .add 0 ⟨.simple .dup, []⟩, .remove 0 ⟨0, 1, 0⟩, .listAfter 1 ⟨1, 0, 0⟩ 0, .indexOf 1 ⟨0, 1, 1⟩]

theorem follows_of_vacatedIn_lt_reuse :
    ({} : Workspace).vacatedIn (fun _ _ => 0) reuse 0 1 = 1 ∧ Follows {} ⟨[], []⟩ reuse := by
  refine ⟨by decide, follows_of_vacatedIn_lt reuse fun arena place => ?_⟩
  exact Nat.lt_of_le_of_lt (vacatedIn_le ..) (by decide)

end Workspace

end ClassFile
