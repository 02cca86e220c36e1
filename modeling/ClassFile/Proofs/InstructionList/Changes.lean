import ClassFile.Proofs.InstructionList.Links
import Mathlib.Data.List.Perm.Subperm

/-!
# Changes of a list

What every operation does to the sequence that a list holds.  A new element comes in with an id whose
generation is the number of times that its place was vacated, and the arenas of a list stay the same
but for those that come with another list.
-/

namespace ClassFile

namespace InstructionList

open Sequence

variable {vacated : Vacated} {list : InstructionList}

/-- The ids of the arenas. -/
def arenaIds (list : InstructionList) : List Nat :=
  list.arenas.map Arena.id

theorem Holds.mem_arenaIds {sequence : Sequence} (holds : list.Holds vacated sequence) {id : NodeId}
    (member : id ∈ ids sequence) : id.arena ∈ list.arenaIds := by
  cases stored : slotIn list.arenas id with
  | none => exact absurd member (holds.slotIn_eq_none.mp stored)
  | some slot => exact mem_arenas_of_slotIn stored

/-- Whether an id may be given out by a list. -/
structure IsNew (vacated : Vacated) (list : InstructionList) (id : NodeId) : Prop where
  own : id.arena ∈ list.arenaIds
  generation : id.generation = UInt32.ofNat (vacated id.arena id.place)
  vacant : slotIn list.arenas id = none

/-- A list is full only if it holds as many elements as an arena can have. -/
theorem Holds.length_of_full {sequence : Sequence} (holds : list.Holds vacated sequence)
    {arena : Arena} (member : arena ∈ list.arenas) (noneVacant : arena.free = [])
    (size : arena.entries.size = Arena.maxPlaces) : Arena.maxPlaces ≤ sequence.length := by
  have sound := holds.sound.each arena member
  let idAt (place : Nat) : NodeId := ⟨arena.id, place, UInt32.ofNat (vacated arena.id place)⟩
  have inside : (List.range Arena.maxPlaces).map idAt ⊆ ids sequence := by
    intro id inRange
    rcases List.mem_map.mp inRange with ⟨place, bound, rfl⟩
    rw [List.mem_range, ← size] at bound
    have there := Array.getElem?_eq_getElem bound
    have generation := sound.generation there
    rcases entry : arena.entries[place] with ⟨reached, _ | slot⟩
    · have vacant : place ∈ arena.free := (sound.free place).mpr ⟨reached, by rw [there, entry]⟩
      rw [noneVacant] at vacant
      cases vacant
    · rw [entry] at there generation
      cases generation
      rcases List.getElem?_of_mem member with ⟨position, here⟩
      have found := isFound_of_getElem? holds.sound.distinct here
      have stored : slotIn list.arenas (idAt place) = arena.slot? (idAt place) := found.slotIn_eq
      exact holds.only (stored ▸ Arena.slot?_eq_some.mpr there)
  have distinct : ((List.range Arena.maxPlaces).map idAt).Nodup :=
    List.nodup_range.map fun one two same => congrArg NodeId.place same
  have counted := (List.subperm_of_subset distinct inside).length_le
  rwa [List.length_map, List.length_range, ids, List.length_map] at counted

/-- What comes of an attempt to put a new element between `before` and `after`. -/
def Inserted (vacated : Vacated) (list : InstructionList) (before : Sequence) (tree : InstructionTree)
    (after : Sequence) (result : Except Panic (NodeId × InstructionList)) : Prop :=
  (∃ arena, result = .error (.arenaFull arena) ∧ Arena.maxPlaces ≤ (before ++ after).length) ∨
  ∃ id next, result = .ok (id, next) ∧ list.IsNew vacated id ∧
    next.Holds vacated (before ++ (id, tree) :: after) ∧ next.arenaIds = list.arenaIds

theorem Holds.insertBetween {before after : Sequence}
    (holds : list.Holds vacated (before ++ after)) (tree : InstructionTree) :
    list.Inserted vacated before tree after
      (list.insertBetween tree (back? none before) (front? after none)) := by
  rcases allocate_cases holds.sound ⟨tree, back? none before, front? after none⟩ with
    ⟨arena, member, full, noneVacant, size⟩ |
    ⟨id, arenas, allocated, own, generation, vacant, restores, sound⟩
  · refine .inl ⟨arena.id, ?_, holds.length_of_full member noneVacant size⟩
    rw [InstructionList.insertBetween, full]
    rfl
  · have fresh := holds.slotIn_eq_none.mp vacant
    have others : ∀ other ∈ ids (before ++ after), slotIn arenas other = slotIn list.arenas other :=
      fun other member => by
        rw [restores.slots]
        exact Function.update_of_ne (ne_of_mem_of_not_mem member fresh) ..
    rw [ids_append, List.mem_append, not_or] at fresh
    have front : ({ list with arenas } : InstructionList).Front before (front? after none) :=
      ⟨holds.front.linked.congr fun other member => others other (by simp [member]),
        holds.front.first⟩
    have back : ({ list with arenas } : InstructionList).Back (back? none before) after :=
      ⟨holds.back.linked.congr fun other member => others other (by simp [member]),
        holds.back.last⟩
    have here : Linked (slotIn arenas) (back? none before) [(id, tree)] (front? after none) := by
      simp [Linked, restores.slots, front?]
    have nodup : (ids (before ++ [(id, tree)] ++ after)).Nodup := by
      have nodup := holds.nodup
      rw [ids_append] at nodup
      rw [List.append_assoc, List.singleton_append, ids_append, ids_cons, List.nodup_middle,
        List.nodup_cons, List.mem_append, not_or]
      exact ⟨fresh, nodup⟩
    have vacantElsewhere : ∀ other, other ∉ ids (before ++ [(id, tree)] ++ after) →
        slotIn arenas other = none := fun other outside => by
      simp only [ids_append, ids_cons, ids_nil, List.mem_append, List.mem_singleton, not_or]
        at outside
      rw [restores.slots, Function.update_of_ne outside.1.2, holds.slotIn_eq_none]
      simp [outside]
    rcases exists_holds front back here nodup vacantElsewhere sound with
      ⟨middle, next, linkedNext, linkedPrevious, length, arenaIds, holdsNext⟩
    refine .inr ⟨id, { next with order? := none, length := list.length + 1 }, ?_,
      ⟨own, generation, vacant⟩, ?_, arenaIds.trans restores.ids⟩
    · rw [InstructionList.insertBetween, allocated, ok_bind]
      dsimp only
      rw [link_eq_ok linkedNext linkedPrevious, ok_bind, length]
      rfl
    · have whole := holdsNext (list.length + 1) (by simp [holds.length]; omega)
      rwa [List.append_assoc] at whole

theorem Holds.add {sequence : Sequence} (holds : list.Holds vacated sequence)
    (tree : InstructionTree) : list.Inserted vacated sequence tree [] (list.add tree) := by
  have inserted := @Holds.insertBetween vacated list sequence [] (by simpa using holds) tree
  rwa [← holds.last] at inserted

theorem Holds.insert {sequence : Sequence} (holds : list.Holds vacated sequence)
    (tree : InstructionTree) : list.Inserted vacated [] tree sequence (list.insert tree) := by
  have inserted := @Holds.insertBetween vacated list [] sequence holds tree
  rwa [← holds.first] at inserted

theorem Holds.insertBefore {before after : Sequence} {anchor : NodeId} {old : InstructionTree}
    (holds : list.Holds vacated (before ++ (anchor, old) :: after)) (tree : InstructionTree) :
    list.Inserted vacated before tree ((anchor, old) :: after) (list.insertBefore anchor tree) := by
  have inserted := holds.insertBetween tree
  rwa [InstructionList.insertBefore, slot_eq_ok.mpr holds.slot_eq, ok_bind]

theorem Holds.insertAfter {before after : Sequence} {anchor : NodeId} {old : InstructionTree}
    (holds : list.Holds vacated (before ++ (anchor, old) :: after)) (tree : InstructionTree) :
    list.Inserted vacated (before ++ [(anchor, old)]) tree after (list.insertAfter anchor tree) := by
  have inserted := @Holds.insertBetween vacated list (before ++ [(anchor, old)]) after
    (by simpa using holds) tree
  rw [back?_append] at inserted
  rwa [InstructionList.insertAfter, slot_eq_ok.mpr holds.slot_eq, ok_bind]

/-- New elements come in at the end one after the other. -/
theorem Holds.addAll {sequence : Sequence} (holds : list.Holds vacated sequence)
    (trees : List InstructionTree) :
    (∃ arena, list.addAll trees = .error (.arenaFull arena) ∧
      Arena.maxPlaces < sequence.length + trees.length) ∨
    ∃ (news : List NodeId) (next : InstructionList), list.addAll trees = .ok next ∧ news.length = trees.length ∧
      (∀ id ∈ news, id.arena ∈ list.arenaIds ∧
        id.generation = UInt32.ofNat (vacated id.arena id.place)) ∧
      next.Holds vacated (sequence ++ news.zip trees) ∧ next.arenaIds = list.arenaIds := by
  induction trees generalizing list sequence with
  | nil => exact .inr ⟨[], list, rfl, rfl, by simp, by simpa using holds, rfl⟩
  | cons tree rest ih =>
      rcases holds.add tree with ⟨arena, full, length⟩ | ⟨id, middle, added, new, grown, arenaIds⟩
      · refine .inl ⟨arena, by rw [InstructionList.addAll, full]; rfl, ?_⟩
        rw [List.append_nil] at length
        rw [List.length_cons]
        omega
      rw [InstructionList.addAll, added, ok_bind]
      rcases ih grown with ⟨arena, full, length⟩ | ⟨news, next, ran, same, fresh, holdsNext, kept⟩
      · refine .inl ⟨arena, full, ?_⟩
        simp only [List.length_append, List.length_cons, List.length_nil] at length ⊢
        omega
      · refine .inr ⟨id :: news, next, ran, by simp [same], ?_, ?_, kept.trans arenaIds⟩
        · rw [arenaIds] at fresh
          exact List.forall_mem_cons.mpr ⟨⟨new.own, new.generation⟩, fresh⟩
        · simpa using holdsNext

theorem Holds.remove {before after : Sequence} {id : NodeId} {tree : InstructionTree}
    (holds : list.Holds vacated (before ++ (id, tree) :: after)) :
    id.generation = UInt32.ofNat (vacated id.arena id.place) ∧
      ∃ next, list.remove id = .ok (tree, next) ∧
        next.Holds (vacated.after id) (before ++ after) ∧ next.arenaIds = list.arenaIds := by
  have stored := holds.slot_eq
  rcases release_eq_ok stored with ⟨arenas, released, restores, keeps⟩
  rcases keeps vacated holds.sound with ⟨generation, sound⟩
  have nodup := holds.nodup
  rw [ids_append, ids_cons, List.nodup_middle, List.nodup_cons, List.mem_append, not_or] at nodup
  rcases nodup with ⟨fresh, nodup⟩
  have others : ∀ other, other ≠ id → slotIn arenas other = slotIn list.arenas other :=
    fun other different => by
      rw [restores.slots]
      exact Function.update_of_ne different ..
  have front : ({ list with arenas } : InstructionList).Front before (some id) :=
    ⟨holds.front.linked.congr fun other member => others other (ne_of_mem_of_not_mem member fresh.1),
      holds.front.first⟩
  have behind : list.Back (some id) after := by
    have back := holds.back
    exact ⟨back.linked.2, back.last⟩
  have back : ({ list with arenas } : InstructionList).Back (some id) after :=
    ⟨behind.linked.congr fun other member => others other (ne_of_mem_of_not_mem member fresh.2),
      behind.last⟩
  have vacant : ∀ other, other ∉ ids (before ++ [] ++ after) → slotIn arenas other = none :=
    fun other outside => by
      by_cases same : other = id
      · rw [same, restores.slots, Function.update_self]
      · rw [others other same, holds.slotIn_eq_none]
        simp only [List.append_nil, ids_append, List.mem_append] at outside
        simp [same, outside]
  rcases @exists_holds _ { list with arenas } before [] after _ _ front back trivial
      (by simpa using nodup) vacant sound with
    ⟨middle, next, linkedNext, linkedPrevious, length, arenaIds, holdsNext⟩
  have counted : list.length = (before ++ after).length + 1 := by
    rw [holds.length]
    simp
    omega
  refine ⟨generation, { next with length := (before ++ after).length, order? := none }, ?_, ?_,
    arenaIds.trans restores.ids⟩
  · have filled : next.length ≠ 0 := by
      rw [length]
      show list.length ≠ 0
      omega
    replace linkedNext : ({ list with arenas } : InstructionList).linkNext (back? none before)
      (front? after none) = .ok middle := linkedNext
    replace linkedPrevious : middle.linkPrevious (front? after none) (back? none before) =
      .ok next := linkedPrevious
    rw [InstructionList.remove, released, ok_bind]
    dsimp only
    rw [linkedNext, ok_bind, linkedPrevious, ok_bind, if_neg filled, length]
    simp [counted]
  · simpa using holdsNext (before ++ after).length (by simp)

/-- What is stored under an id can change as long as the links stay. -/
theorem Linked.setTree {slots : NodeId → Option ListSlot} {before after : Sequence} {id : NodeId}
    {tree : InstructionTree} (linked : Linked slots none (before ++ (id, tree) :: after) none)
    (freshBefore : id ∉ ids before) (freshAfter : id ∉ ids after) (tree' : InstructionTree) :
    Linked (Function.update slots id (some ⟨tree', back? none before, front? after none⟩)) none
      (before ++ (id, tree') :: after) none := by
  rcases linked_append.mp linked with ⟨linkedBefore, -, linkedAfter⟩
  refine linked_append.mpr ⟨linkedBefore.congr fun other member => ?_, by simp,
    linkedAfter.congr fun other member => ?_⟩
  · exact Function.update_of_ne (ne_of_mem_of_not_mem member freshBefore) ..
  · exact Function.update_of_ne (ne_of_mem_of_not_mem member freshAfter) ..

theorem Holds.change {before after : Sequence} {id : NodeId} {tree : InstructionTree}
    (holds : list.Holds vacated (before ++ (id, tree) :: after))
    (change : InstructionTree → InstructionTree) :
    ∃ next, list.change id change = .ok next ∧
      next.Holds vacated (before ++ (id, change tree) :: after) ∧
      next.arenaIds = list.arenaIds := by
  have stored := holds.slot_eq
  have nodup := holds.nodup
  rw [ids_append, ids_cons, List.nodup_middle, List.nodup_cons, List.mem_append, not_or] at nodup
  rcases update_relinks stored fun slot => { slot with tree := change slot.tree } with
    ⟨next, updated, relinks, slots, first, last⟩
  have sameIds : ids (before ++ (id, change tree) :: after) = ids (before ++ (id, tree) :: after) := by
    simp
  refine ⟨next, updated, ⟨?_, ?_, ?_, ?_, ?_, ?_, ?_, relinks.sound vacated holds.sound⟩,
    relinks.arenas⟩
  · rw [slots]
    exact Linked.setTree holds.linked nodup.1.1 nodup.1.2 (change tree)
  · rw [first, holds.first, front?_append, front?_append]
    rfl
  · rw [last, holds.last, back?_append, back?_append]
    rfl
  · rw [relinks.length, holds.length]
    simp
  · exact sameIds ▸ holds.nodup
  · intro other slot there
    rw [sameIds]
    by_contra outside
    rw [(relinks.vacant other).mpr (holds.slotIn_eq_none.mpr outside)] at there
    cases there
  · intro order noted
    rw [sameIds]
    exact holds.order (relinks.order ▸ noted)

theorem Holds.node_eq {before after : Sequence} {id : NodeId} {tree : InstructionTree}
    (holds : list.Holds vacated (before ++ (id, tree) :: after)) : list.node id = .ok tree := by
  rw [node, slot_eq_ok.mpr holds.slot_eq]
  rfl

theorem front?_of_ne_nil {part : Sequence} (nonempty : part ≠ []) (one two : Option NodeId) :
    front? part one = front? part two := by
  cases part with
  | nil => exact absurd rfl nonempty
  | cons element rest => rfl

theorem back?_of_ne_nil {part : Sequence} (nonempty : part ≠ []) (one two : Option NodeId) :
    back? one part = back? two part := by
  cases part with
  | nil => exact absurd rfl nonempty
  | cons element rest => rfl

/-- The ends of a part that stands alone can be linked to what will stand around it. -/
theorem exists_joined {list : InstructionList} {part : Sequence} {first last : NodeId}
    (linked : Linked (slotIn list.arenas) none part none) (nodup : (ids part).Nodup)
    (starts : front? part none = some first) (ends : back? none part = some last)
    (before? after? : Option NodeId) :
    ∃ middle next, list.update first (fun slot => { slot with previous? := before? }) = .ok middle ∧
      middle.update last (fun slot => { slot with next? := after? }) = .ok next ∧
      Linked (slotIn next.arenas) before? part after? ∧ list.Relinks next (ids part) ∧
      next.first? = list.first? ∧ next.last? = list.last? := by
  have nonempty : part ≠ [] := by
    rintro rfl
    cases starts
  have front : ∃ middle, list.update first (fun slot => { slot with previous? := before? }) =
      .ok middle ∧ Linked (slotIn middle.arenas) before? part none ∧
        list.Relinks middle (ids part) ∧ middle.first? = list.first? ∧
          middle.last? = list.last? := by
    rcases List.exists_cons_of_ne_nil nonempty with ⟨⟨id, tree⟩, rest, rfl⟩
    cases starts
    rcases linked.setPrevious (List.nodup_cons.mp nodup).1 before? with ⟨stored, linkedMiddle⟩
    rcases update_relinks stored fun slot => { slot with previous? := before? } with
      ⟨middle, updated, relinks, slots, first, last⟩
    exact ⟨middle, updated, slots ▸ linkedMiddle, relinks.mono (by simp), first, last⟩
  rcases front with ⟨middle, updated, linkedMiddle, relinks, firstMiddle, lastMiddle⟩
  rcases List.eq_nil_or_concat part with rfl | ⟨rest, ⟨id, tree⟩, rfl⟩
  · exact absurd rfl nonempty
  rw [List.concat_eq_append] at *
  rw [back?_append] at ends
  cases ends
  have fresh : last ∉ ids rest := fun member => by
    rw [ids_append] at nodup
    exact List.disjoint_of_nodup_append nodup member List.mem_cons_self
  rcases linkedMiddle.setNext fresh after? with ⟨stored, linkedNext⟩
  rcases update_relinks stored fun slot => { slot with next? := after? } with
    ⟨next, updatedNext, relinksNext, slots, firstNext, lastNext⟩
  refine ⟨middle, next, updated, updatedNext, slots ▸ linkedNext, ?_, firstNext.trans firstMiddle,
    lastNext.trans lastMiddle⟩
  exact (relinks.trans relinksNext).mono (by simp)

theorem slotIn_append {one two : List Arena} {id : NodeId} (outside : id.arena ∉ one.map Arena.id) :
    slotIn (one ++ two) id = slotIn two id := by
  have skipped : one.find? (fun arena => arena.id == id.arena) = none := by
    simpa using outside
  simp [slotIn, List.find?_append, skipped]

theorem slotIn_append_left {one : List Arena} {id : NodeId} (inside : id.arena ∈ one.map Arena.id)
    (two : List Arena) : slotIn (one ++ two) id = slotIn one id := by
  have found : (one.find? fun arena => arena.id == id.arena).isSome := by
    simpa using inside
  rcases Option.isSome_iff_exists.mp found with ⟨arena, first⟩
  simp [slotIn, List.find?_append, first]

theorem AreSound.append {one two : List Arena} (sound : AreSound vacated one)
    (other : AreSound vacated two) (apart : (one.map Arena.id).Disjoint (two.map Arena.id)) :
    AreSound vacated (one ++ two) where
  each arena member := (List.mem_append.mp member).elim (sound.each arena) (other.each arena)
  distinct := by
    rw [List.map_append]
    exact List.Nodup.append sound.distinct other.distinct apart
  nonempty := by simp [sound.nonempty]

/-- What moves between lists, and whose arenas are whose afterwards. -/
structure Moved.Keeps (moved : Moved) (list other : InstructionList) (nextArena : Nat) : Prop where
  list : moved.list.arenaIds = list.arenaIds ++ other.arenaIds
  other : moved.other.arenaIds = [nextArena]
  next : moved.nextArena = nextArena + 1

/-- All elements of another list come in between. -/
theorem Holds.splice {other : InstructionList} {before between after : Sequence}
    (holds : list.Holds vacated (before ++ after)) (holdsOther : other.Holds vacated between)
    (apart : list.arenaIds.Disjoint other.arenaIds) {nextArena : Nat}
    (unused : ∀ place, vacated nextArena place = 0) :
    ∃ moved, list.splice other (back? none before) (front? after none) nextArena = .ok moved ∧
      moved.list.Holds vacated (before ++ between ++ after) ∧ moved.other.Holds vacated [] ∧
      (moved.Keeps list other nextArena ∨ moved = ⟨list, other, nextArena⟩) := by
  by_cases nonempty : between = []
  · subst nonempty
    refine ⟨⟨list, other, nextArena⟩, ?_, by simpa using holds, holdsOther, .inr rfl⟩
    have first : other.first? = none := holdsOther.first
    rw [InstructionList.splice, first]
  have starts : ∃ first, front? between none = some first := by
    cases between with
    | nil => exact absurd rfl nonempty
    | cons element rest => exact ⟨_, rfl⟩
  have ends : ∃ last, back? none between = some last := by
    rcases List.eq_nil_or_concat between with rfl | ⟨rest, element, rfl⟩
    · exact absurd rfl nonempty
    · exact ⟨element.1, by rw [List.concat_eq_append, back?_append]; rfl⟩
  rcases starts with ⟨first, starts⟩
  rcases ends with ⟨last, ends⟩
  have inList : ∀ id ∈ ids (before ++ after),
      slotIn (list.arenas ++ other.arenas) id = slotIn list.arenas id :=
    fun id member => slotIn_append_left (holds.mem_arenaIds member) _
  have outsideList : ∀ id ∈ ids between, id.arena ∉ list.arenaIds :=
    fun id member inside => apart inside (holdsOther.mem_arenaIds member)
  have inOther : ∀ id ∈ ids between,
      slotIn (list.arenas ++ other.arenas) id = slotIn other.arenas id :=
    fun id member => slotIn_append (outsideList id member)
  have apartIds : (ids (before ++ after)).Disjoint (ids between) :=
    fun id one two => outsideList id two (holds.mem_arenaIds one)
  rcases @exists_joined { list with arenas := list.arenas ++ other.arenas } between first last
    (holdsOther.linked.congr inOther) holdsOther.nodup starts ends (back? none before)
    (front? after none) with ⟨middle, joined, updatedFirst, updatedLast, linked, relinks, sameFirst,
      sameLast⟩
  have kept : ∀ id ∈ ids (before ++ after), slotIn joined.arenas id = slotIn list.arenas id :=
    fun id member => (relinks.others id (apartIds member)).trans (inList id member)
  have front : joined.Front before (front? after none) :=
    ⟨holds.front.linked.congr fun id member => kept id (by simp [member]),
      sameFirst.trans holds.front.first⟩
  have back : joined.Back (back? none before) after :=
    ⟨holds.back.linked.congr fun id member => kept id (by simp [member]),
      sameLast.trans holds.back.last⟩
  have nodup : (ids (before ++ between ++ after)).Nodup := by
    have perm : (ids (before ++ between ++ after)).Perm (ids (before ++ after) ++ ids between) := by
      simp only [ids_append, List.append_assoc]
      exact List.perm_append_comm.append_left _
    exact perm.nodup_iff.mpr (List.Nodup.append holds.nodup holdsOther.nodup apartIds)
  have vacant : ∀ id, id ∉ ids (before ++ between ++ after) → slotIn joined.arenas id = none :=
    fun id outside => by
      simp only [ids_append, List.mem_append, not_or] at outside
      rw [relinks.vacant]
      by_cases inside : id.arena ∈ list.arenaIds
      · rw [slotIn_append_left inside, holds.slotIn_eq_none]
        simp [outside]
      · rw [slotIn_append inside, holdsOther.slotIn_eq_none]
        exact outside.1.2
  have sound := relinks.sound vacated (holds.sound.append holdsOther.sound apart)
  rcases exists_holds front back linked nodup vacant sound with
    ⟨behind, next, linkedNext, linkedPrevious, length, arenaIds, holdsNext⟩
  rw [front?_of_ne_nil nonempty _ none, starts] at linkedNext
  rw [back?_of_ne_nil nonempty _ none, ends] at linkedPrevious
  refine ⟨⟨{ next with length := list.length + other.length, order? := none }, empty nextArena,
    nextArena + 1⟩, ?_, ?_, holds_empty unused, .inl ⟨?_, rfl, rfl⟩⟩
  · rw [InstructionList.splice, holdsOther.first, holdsOther.last, starts, ends]
    dsimp only
    rw [updatedFirst, ok_bind, updatedLast, ok_bind, link_eq_ok linkedNext linkedPrevious, ok_bind,
      length, relinks.length]
    rfl
  · refine holdsNext _ ?_
    rw [holds.length, holdsOther.length]
    simp
    omega
  · exact arenaIds.trans (relinks.arenas.trans List.map_append)

end InstructionList

end ClassFile
