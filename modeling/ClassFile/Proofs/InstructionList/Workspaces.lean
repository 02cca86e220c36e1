import ClassFile.Proofs.InstructionList.Contents

/-!
# Workspaces hold sequences

A workspace holds contents (`Workspace.Holds`) if each list holds its sequence and no arena belongs to
two lists.  Arenas only move to other lists as a whole or come in new (`Workspace.Regroups`), so lists
keep apart whatever happens to them.

Ids stay unique because the generation of a place counts how often the place was vacated.
-/

namespace ClassFile

open Sequence

namespace InstructionList

variable {vacated : Vacated} {list : InstructionList} {sequence : Sequence}

theorem Holds.contains_iff (holds : list.Holds vacated sequence) (id : NodeId) :
    list.contains id = true ↔ id ∈ ids sequence := by
  rw [contains, Option.isSome_iff_ne_none, ne_eq, holds.slotIn_eq_none, not_not]

theorem Holds.slot_eq_error (holds : list.Holds vacated sequence) {id : NodeId}
    (absent : id ∉ ids sequence) : list.slot id = .error .notInList := by
  rw [slot, holds.slotIn_eq_none.mpr absent]

theorem Holds.indexOf_eq_error (holds : list.Holds vacated sequence) {id : NodeId}
    (absent : id ∉ ids sequence) : list.indexOf id = (.error .notInList, list) := by
  rw [indexOf, holds.slot_eq_error absent]

/-- What is vacated in other arenas does not matter. -/
theorem Holds.elsewhere {vacated' : Vacated} (holds : list.Holds vacated sequence)
    (same : ∀ arena ∈ list.arenaIds, ∀ place, vacated' arena place = vacated arena place) :
    list.Holds vacated' sequence :=
  { holds with
    sound := ⟨fun arena member => by
      have sound := holds.sound.each arena member
      have same := same arena.id (List.mem_map_of_mem member)
      exact ⟨sound.free, sound.nodup, sound.size, fun there => by rw [same, sound.generation there],
        fun place beyond => by rw [same, sound.unused place beyond]⟩,
      holds.sound.distinct, holds.sound.nonempty⟩ }

theorem exists_split {id : NodeId} (member : id ∈ ids sequence) :
    ∃ before tree after, sequence = before ++ (id, tree) :: after := by
  rcases List.mem_map.mp member with ⟨⟨id', tree⟩, inside, rfl⟩
  rcases List.append_of_mem inside with ⟨before, after, split⟩
  exact ⟨before, tree, after, split⟩

theorem Holds.indexOf_iff (holds : list.Holds vacated sequence) (position : Nat) (id : NodeId) :
    (list.indexOf id).1 = .ok position ↔ (ids sequence)[position]? = some id := by
  by_cases member : id ∈ ids sequence
  · rcases exists_split member with ⟨before, tree, after, rfl⟩
    rcases holds.indexOf_eq with ⟨next, found, -⟩
    have length : (ids before).length = before.length := List.length_map ..
    have here : (ids (before ++ (id, tree) :: after))[before.length]? = some id := by
      rw [ids_append, List.getElem?_append_right (by omega), length]
      simp
    rw [found]
    refine ⟨fun same => ?_, fun there => ?_⟩
    · rw [← Except.ok.inj same, here]
    · have bound := (List.getElem?_eq_some_iff.mp here).1
      rw [(List.getElem?_inj bound holds.nodup).mp (here.trans there.symm)]
  · rw [holds.indexOf_eq_error member]
    exact ⟨(by cases ·), fun there => absurd (List.mem_of_getElem? there) member⟩

theorem Holds.shows (holds : list.Holds vacated sequence) : list.Shows sequence where
  length := holds.length
  forwards := by
    rw [holds.first]
    exact passes_next holds.linked
  backwards := by
    rw [holds.last]
    exact passes_previous holds.linked
  contains := holds.contains_iff
  node {id tree} member := by
    rcases List.append_of_mem member with ⟨before, after, rfl⟩
    exact holds.node_eq
  refuses {id} absent := by
    rw [node, next, previous, holds.slot_eq_error absent]
    exact ⟨rfl, rfl, rfl⟩
  get position := by
    rcases holds.get_eq position with ⟨next, got, -⟩
    exact congrArg Prod.fst got
  indexOf position id := by
    rcases holds.get_eq position with ⟨next, got, -⟩
    rw [holds.indexOf_iff, got]
    cases (ids sequence)[position]? <;> simp
  walks sides := by
    rcases holds.covers.steps sides with ⟨rest, ran, remaining⟩
    exact ⟨rest, ran, remaining, fun done => taken_perm (by omega)⟩

end InstructionList

namespace Workspace

open InstructionList

/-- Whether the lists of a workspace hold contents. -/
structure Holds (vacated : Vacated) (workspace : Workspace) (contents : Contents) : Prop where
  count : workspace.lists.length = contents.lists.length
  lists : ∀ {number : Nat} {list : InstructionList} {sequence : Sequence},
    workspace.lists[number]? = some list → contents.lists[number]? = some sequence →
      list.Holds vacated sequence
  apart : ∀ {one two : Nat} {first second : InstructionList},
    workspace.lists[one]? = some first → workspace.lists[two]? = some second → one ≠ two →
      first.arenaIds.Disjoint second.arenaIds
  below : ∀ {number : Nat} {list : InstructionList}, workspace.lists[number]? = some list →
    ∀ arena ∈ list.arenaIds, arena < workspace.nextArena
  unused : ∀ arena, workspace.nextArena ≤ arena → ∀ place, vacated arena place = 0
  gone : ∀ id ∈ contents.gone, id.generation.toNat < vacated id.arena id.place ∨
    id.arena < workspace.nextArena ∧
      ∀ {number : Nat} {list : InstructionList}, workspace.lists[number]? = some list →
        id.arena ∉ list.arenaIds

/-- Whether no place was vacated so often that its generations start again. -/
def Rare (vacated : Vacated) : Prop :=
  ∀ arena place, vacated arena place < 4294967296

section Holds

variable {vacated : Vacated} {workspace : Workspace} {contents : Contents}

theorem holds_empty : Holds (fun _ _ => 0) {} ⟨[], []⟩ where
  count := rfl
  lists here := by simp at here
  apart here := by simp at here
  below here := by simp at here
  unused _ _ _ := rfl
  gone := by simp

theorem Holds.exists_list (holds : workspace.Holds vacated contents) {number : Nat}
    {sequence : Sequence} (here : contents.lists[number]? = some sequence) :
    ∃ list, workspace.lists[number]? = some list ∧ list.Holds vacated sequence := by
  have bound := (List.getElem?_eq_some_iff.mp here).1
  rw [← holds.count] at bound
  exact ⟨_, List.getElem?_eq_getElem bound, holds.lists (List.getElem?_eq_getElem bound) here⟩

theorem Holds.exists_sequence (holds : workspace.Holds vacated contents) {number : Nat}
    {list : InstructionList} (here : workspace.lists[number]? = some list) :
    ∃ sequence, contents.lists[number]? = some sequence ∧ list.Holds vacated sequence := by
  have bound := (List.getElem?_eq_some_iff.mp here).1
  rw [holds.count] at bound
  exact ⟨_, List.getElem?_eq_getElem bound, holds.lists here (List.getElem?_eq_getElem bound)⟩

/-- An id of a generation that a place has just reached was not given out before. -/
theorem Holds.not_mem_gone (holds : workspace.Holds vacated contents) (rare : Rare vacated)
    {id : NodeId} (generation : id.generation = UInt32.ofNat (vacated id.arena id.place))
    (used : (∃ (number : Nat) (list : InstructionList), workspace.lists[number]? = some list ∧
      id.arena ∈ list.arenaIds) ∨ workspace.nextArena ≤ id.arena) : id ∉ contents.gone := by
  intro member
  rcases holds.gone id member with older | ⟨below, outside⟩
  · rw [generation, UInt32.toNat_ofNat_of_lt' (rare id.arena id.place)] at older
    omega
  · rcases used with ⟨number, list, here, inside⟩ | beyond
    · exact outside here inside
    · omega

theorem Holds.fresh (holds : workspace.Holds vacated contents) (rare : Rare vacated) {number : Nat}
    {list : InstructionList} {sequence : Sequence} (here : workspace.lists[number]? = some list)
    (there : contents.lists[number]? = some sequence) {id : NodeId} (new : list.IsNew vacated id) :
    contents.Fresh id := by
  refine ⟨holds.not_mem_gone rare new.generation (.inl ⟨number, list, here, new.own⟩),
    fun other member inside => ?_⟩
  rcases List.getElem?_of_mem member with ⟨position, at_⟩
  rcases holds.exists_list at_ with ⟨otherList, otherHere, otherHolds⟩
  by_cases same : position = number
  · subst same
    cases there.symm.trans at_
    exact ((holds.lists here there).slotIn_eq_none.mp new.vacant) inside
  · exact holds.apart otherHere here same (otherHolds.mem_arenaIds inside) new.own

theorem Holds.shows (holds : workspace.Holds vacated contents) (rare : Rare vacated) :
    workspace.Shows contents where
  count := holds.count
  lists here there := (holds.lists here there).shows
  living {number sequence id} here member {other list} there := by
    rcases holds.exists_sequence there with ⟨otherSequence, otherHere, otherHolds⟩
    rcases holds.exists_list here with ⟨own, ownHere, ownHolds⟩
    rw [otherHolds.contains_iff]
    refine ⟨fun inside => ?_, fun same => ?_⟩
    · by_contra different
      exact holds.apart there ownHere different (otherHolds.mem_arenaIds inside)
        (ownHolds.mem_arenaIds member)
    · subst same
      cases here.symm.trans otherHere
      exact member
  gone id member list inside := by
    rcases List.getElem?_of_mem inside with ⟨number, here⟩
    rcases holds.exists_sequence here with ⟨sequence, there, holdsList⟩
    rw [← Bool.not_eq_true, holdsList.contains_iff]
    intro living
    exact holds.not_mem_gone rare (holdsList.generation_eq living)
      (.inl ⟨number, list, here, holdsList.mem_arenaIds living⟩) member

/-- Arenas come to the list with the number `place source` from the list `source`, or are new and come
to the list with the number `new`. -/
structure Regroups (workspace next : Workspace) (place : Nat → Nat) (new : Nat) : Prop where
  comes : ∀ {number : Nat} {list : InstructionList}, next.lists[number]? = some list →
    ∀ arena ∈ list.arenaIds,
      (∃ (source : Nat) (old : InstructionList), workspace.lists[source]? = some old ∧
        arena ∈ old.arenaIds ∧ number = place source) ∨
      (workspace.nextArena ≤ arena ∧ arena < next.nextArena ∧ number = new)
  later : workspace.nextArena ≤ next.nextArena

theorem Holds.regroup {vacated' : Vacated} {next : Workspace} {nextContents : Contents}
    {place : Nat → Nat} {new : Nat} (holds : workspace.Holds vacated contents)
    (regroups : workspace.Regroups next place new)
    (count : next.lists.length = nextContents.lists.length)
    (lists : ∀ {number : Nat} {list : InstructionList} {sequence : Sequence},
      next.lists[number]? = some list → nextContents.lists[number]? = some sequence →
        list.Holds vacated' sequence)
    (grows : ∀ arena place, vacated arena place ≤ vacated' arena place)
    (unused : ∀ arena, next.nextArena ≤ arena → ∀ place, vacated' arena place = 0)
    (gone : ∀ id ∈ nextContents.gone, id ∈ contents.gone ∨
      id.generation.toNat < vacated' id.arena id.place ∨ id.arena < next.nextArena ∧
        ∀ {number : Nat} {list : InstructionList}, next.lists[number]? = some list →
          id.arena ∉ list.arenaIds) :
    next.Holds vacated' nextContents where
  count := count
  lists := lists
  apart {one two first second} atOne atTwo different arena inFirst inSecond := by
    rcases regroups.comes atOne arena inFirst with
      ⟨source, old, there, inside, rfl⟩ | ⟨beyond, -, isNew⟩ <;>
    rcases regroups.comes atTwo arena inSecond with
      ⟨source', old', there', inside', rfl⟩ | ⟨beyond', -, isNew'⟩
    · by_cases same : source = source'
      · exact different (congrArg place same)
      · exact holds.apart there there' same inside inside'
    · exact absurd (holds.below there arena inside) (Nat.not_lt.mpr beyond')
    · exact absurd (holds.below there' arena inside') (Nat.not_lt.mpr beyond)
    · exact different (isNew.trans isNew'.symm)
  below {number list} here arena member := by
    rcases regroups.comes here arena member with ⟨source, old, there, inside, -⟩ | ⟨-, bound, -⟩
    · exact Nat.lt_of_lt_of_le (holds.below there arena inside) regroups.later
    · exact bound
  unused := unused
  gone id member := by
    rcases gone id member with before | counted
    · rcases holds.gone id before with older | ⟨below, outside⟩
      · exact .inl (Nat.lt_of_lt_of_le older (grows ..))
      · refine .inr ⟨Nat.lt_of_lt_of_le below regroups.later, fun {number list} here inside => ?_⟩
        rcases regroups.comes here _ inside with ⟨source, old, there, inOld, -⟩ | ⟨beyond, -, -⟩
        · exact outside there inOld
        · omega
    · exact counted

theorem of_getElem?_set {α : Type} {values : List α} {number other : Nat} {new found : α}
    (at_ : (values.set number new)[other]? = some found) :
    other = number ∧ found = new ∨ other ≠ number ∧ values[other]? = some found := by
  rw [List.getElem?_set] at at_
  by_cases same : number = other
  · subst same
    rw [if_pos rfl] at at_
    split at at_
    · exact .inl ⟨rfl, (Option.some.inj at_).symm⟩
    · cases at_
  · rw [if_neg same] at at_
    exact .inr ⟨Ne.symm same, at_⟩

theorem of_getElem?_concat {α : Type} {values : List α} {last found : α} {number : Nat}
    (at_ : (values ++ [last])[number]? = some found) :
    number < values.length ∧ values[number]? = some found ∨
      number = values.length ∧ found = last := by
  rcases Nat.lt_or_ge number values.length with bound | beyond
  · exact .inl ⟨bound, by rwa [List.getElem?_append_left bound] at at_⟩
  · rw [List.getElem?_append_right beyond, List.getElem?_singleton] at at_
    split at at_
    · exact .inr ⟨by omega, (Option.some.inj at_).symm⟩
    · cases at_

/-- A list can be replaced by one with the same arenas. -/
theorem Holds.put {vacated' : Vacated} (holds : workspace.Holds vacated contents) {number : Nat}
    {list next : InstructionList} {sequence : Sequence}
    (here : workspace.lists[number]? = some list) (holdsNext : next.Holds vacated' sequence)
    (same : next.arenaIds = list.arenaIds) (gone : List NodeId)
    (grows : ∀ arena place, vacated arena place ≤ vacated' arena place)
    (elsewhere : ∀ arena ∉ list.arenaIds, ∀ place, vacated' arena place = vacated arena place)
    (older : ∀ id ∈ gone, id.generation.toNat < vacated' id.arena id.place) :
    (workspace.put number next).Holds vacated' ((contents.put number sequence).without gone) := by
  refine @Holds.regroup _ _ _ _ _ _ id 0 holds ⟨fun {other found} at_ arena member => ?_, Nat.le_refl _⟩
    (by simp [Workspace.put, Contents.put, Contents.without, holds.count])
    (fun {other found sequenceFound} at_ there => ?_) grows (fun arena beyond place => ?_)
    (fun id member => ?_)
  · rcases of_getElem?_set at_ with ⟨rfl, rfl⟩ | ⟨-, at_⟩
    · exact .inl ⟨other, list, here, same ▸ member, rfl⟩
    · exact .inl ⟨other, found, at_, member, rfl⟩
  · rcases of_getElem?_set at_ with ⟨rfl, rfl⟩ | ⟨different, at_⟩ <;>
    rcases of_getElem?_set there with ⟨same, rfl⟩ | ⟨different', there⟩
    · exact holdsNext
    · exact absurd rfl different'
    · exact absurd same different
    · refine (holds.lists at_ there).elsewhere fun arena member => elsewhere arena fun inside => ?_
      exact holds.apart at_ here different member inside
  · rw [elsewhere arena (fun inside => ?_) place, holds.unused arena beyond place]
    exact absurd (holds.below here arena inside) (Nat.not_lt.mpr beyond)
  · exact (List.mem_append.mp member).elim (fun new => .inr (.inl (older id new))) .inl

/-- Replacing a list by one with the same arenas, without taking anything out. -/
theorem Holds.replace (holds : workspace.Holds vacated contents) {number : Nat}
    {list next : InstructionList} {sequence : Sequence}
    (here : workspace.lists[number]? = some list) (holdsNext : next.Holds vacated sequence)
    (same : next.arenaIds = list.arenaIds) :
    (workspace.put number next).Holds vacated (contents.put number sequence) :=
  holds.put here holdsNext same [] (fun _ _ => Nat.le_refl _) (fun _ _ _ => rfl)
    (fun _ member => absurd member List.not_mem_nil)

/-- A new list has a new arena. -/
theorem Holds.collect (holds : workspace.Holds vacated contents) {next : InstructionList}
    {sequence : Sequence} (holdsNext : next.Holds vacated sequence)
    (new : next.arenaIds = [workspace.nextArena]) :
    Holds vacated { lists := workspace.lists ++ [next], nextArena := workspace.nextArena + 1 }
      (contents.collect sequence) := by
  refine @Holds.regroup _ _ _ _ _ _ id workspace.lists.length holds
    ⟨fun {number list} here arena member => ?_, Nat.le_succ _⟩
    (by simp [Contents.collect, holds.count]) (fun {number list sequenceFound} here there => ?_)
    (fun _ _ => Nat.le_refl _) (fun arena beyond => holds.unused arena (Nat.le_of_succ_le beyond))
    (fun id member => .inl member)
  · rcases of_getElem?_concat here with ⟨-, here⟩ | ⟨last, rfl⟩
    · exact .inl ⟨number, list, here, member, rfl⟩
    · rw [new, List.mem_singleton] at member
      subst member
      exact .inr ⟨Nat.le_refl _, Nat.lt_succ_self _, last⟩
  · rcases of_getElem?_concat here with ⟨bound, here⟩ | ⟨last, rfl⟩ <;>
    rcases of_getElem?_concat there with ⟨bound', there⟩ | ⟨last', rfl⟩
    · exact holds.lists here there
    · rw [← holds.count] at last'
      omega
    · rw [← holds.count] at bound'
      omega
    · exact holdsNext

/-- A list whose elements are all taken out has a new arena. -/
theorem Holds.clear (holds : workspace.Holds vacated contents) {number : Nat}
    {list : InstructionList} {sequence : Sequence} (here : workspace.lists[number]? = some list)
    (there : contents.lists[number]? = some sequence) :
    Holds vacated { workspace.put number (.empty workspace.nextArena) with
        nextArena := workspace.nextArena + 1 }
      ((contents.put number []).without (ids sequence)) := by
  have holdsEmpty : (empty workspace.nextArena).Holds vacated [] :=
    InstructionList.holds_empty fun place => holds.unused _ (Nat.le_refl _) place
  refine @Holds.regroup _ _ _ _ _ _ id number holds
    ⟨fun {other found} at_ arena member => ?_, Nat.le_succ _⟩
    (by simp [Workspace.put, Contents.put, Contents.without, holds.count])
    (fun {other found sequenceFound} at_ there' => ?_) (fun _ _ => Nat.le_refl _)
    (fun arena beyond => holds.unused arena (Nat.le_of_succ_le beyond)) (fun id member => ?_)
  · rcases of_getElem?_set at_ with ⟨rfl, rfl⟩ | ⟨-, at_⟩
    · rw [show (empty workspace.nextArena).arenaIds = [workspace.nextArena] from rfl,
        List.mem_singleton] at member
      subst member
      exact .inr ⟨Nat.le_refl _, Nat.lt_succ_self _, rfl⟩
    · exact .inl ⟨other, found, at_, member, rfl⟩
  · rcases of_getElem?_set at_ with ⟨rfl, rfl⟩ | ⟨different, at_⟩ <;>
    rcases of_getElem?_set there' with ⟨same, rfl⟩ | ⟨different', there'⟩
    · exact holdsEmpty
    · exact absurd rfl different'
    · exact absurd same different
    · exact holds.lists at_ there'
  · rcases List.mem_append.mp member with taken | before
    · have own := (holds.lists here there).mem_arenaIds taken
      have below := holds.below here _ own
      refine .inr (.inr ⟨Nat.lt_succ_of_lt below, fun {other found} at_ inside => ?_⟩)
      rcases of_getElem?_set at_ with ⟨rfl, rfl⟩ | ⟨different, at_⟩
      · exact absurd (List.mem_singleton.mp inside) (Nat.ne_of_lt below)
      · exact holds.apart at_ here different inside own
    · exact .inl before

/-- Elements that move to another list move there with their arenas. -/
theorem Holds.move (holds : workspace.Holds vacated contents) {number other : Nat}
    {list otherList : InstructionList} {moved : Moved} {sequence : Sequence}
    (different : number ≠ other) (here : workspace.lists[number]? = some list)
    (there : workspace.lists[other]? = some otherList)
    (holdsList : moved.list.Holds vacated sequence) (holdsOther : moved.other.Holds vacated [])
    (keeps : moved.Keeps list otherList workspace.nextArena) :
    Holds vacated { (workspace.put number moved.list).put other moved.other with
        nextArena := moved.nextArena }
      ((contents.put number sequence).put other []) := by
  refine @Holds.regroup _ _ _ _ _ _ (fun source => if source = other then number else source) other
    holds ⟨fun {position found} at_ arena member => ?_, by simp [keeps.next]⟩
    (by simp [Workspace.put, Contents.put, holds.count])
    (fun {position found sequenceFound} at_ at_' => ?_) (fun _ _ => Nat.le_refl _)
    (fun arena beyond => holds.unused arena ?_) (fun id member => .inl member)
  · rcases of_getElem?_set at_ with ⟨rfl, rfl⟩ | ⟨notOther, at_⟩
    · rw [keeps.other, List.mem_singleton] at member
      subst member
      exact .inr ⟨Nat.le_refl _, by simp [keeps.next], rfl⟩
    rcases of_getElem?_set at_ with ⟨rfl, rfl⟩ | ⟨notNumber, at_⟩
    · rw [keeps.list] at member
      rcases List.mem_append.mp member with inList | inOther
      · exact .inl ⟨position, list, here, inList, (if_neg notOther).symm⟩
      · exact .inl ⟨other, otherList, there, inOther, (if_pos rfl).symm⟩
    · exact .inl ⟨position, found, at_, member, (if_neg notOther).symm⟩
  · rcases of_getElem?_set at_ with ⟨rfl, rfl⟩ | ⟨notOther, at_⟩ <;>
    rcases of_getElem?_set at_' with ⟨same, rfl⟩ | ⟨notOther', at_'⟩
    · exact holdsOther
    · exact absurd rfl notOther'
    · exact absurd same notOther
    rcases of_getElem?_set at_ with ⟨rfl, rfl⟩ | ⟨notNumber, at_⟩ <;>
    rcases of_getElem?_set at_' with ⟨same, rfl⟩ | ⟨notNumber', at_'⟩
    · exact holdsList
    · exact absurd rfl notNumber'
    · exact absurd same notNumber
    · exact holds.lists at_ at_'
  · simp only [keeps.next] at beyond
    exact Nat.le_of_succ_le beyond

end Holds

end Workspace

end ClassFile
