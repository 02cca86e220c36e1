import ClassFile.Proofs.InstructionList.Arenas

/-!
# Linked sequences

A list holds a sequence if the links of its slots run through the sequence in both directions
(`InstructionList.Holds`).  A change of the list is a change of links at the two ends of parts of
the sequence: `linkNext` lets another element follow the part in front, `linkPrevious` lets another
one precede the part behind, and between them parts come in and go out.
-/

namespace ClassFile

/-- Elements with their ids. -/
abbrev Sequence := List (NodeId × InstructionTree)

namespace Sequence

/-- The ids of the elements. -/
def ids (sequence : Sequence) : List NodeId :=
  sequence.map Prod.fst

/-- What comes first in front of `after?`. -/
def front? : Sequence → Option NodeId → Option NodeId
  | [], after? => after?
  | (id, _) :: _, _ => some id

/-- What comes last behind `before?`. -/
def back? : Option NodeId → Sequence → Option NodeId
  | before?, [] => before?
  | _, (id, _) :: rest => back? (some id) rest

@[simp]
theorem ids_append (first second : Sequence) : ids (first ++ second) = ids first ++ ids second :=
  List.map_append

@[simp]
theorem ids_cons (id : NodeId) (tree : InstructionTree) (rest : Sequence) :
    ids ((id, tree) :: rest) = id :: ids rest :=
  rfl

@[simp]
theorem ids_nil : ids [] = [] :=
  rfl

theorem front?_append (first second : Sequence) (after? : Option NodeId) :
    front? (first ++ second) after? = front? first (front? second after?) := by
  cases first <;> rfl

theorem back?_append (before? : Option NodeId) (first second : Sequence) :
    back? before? (first ++ second) = back? (back? before? first) second := by
  induction first generalizing before? with
  | nil => rfl
  | cons element rest ih => exact ih (some element.1)

/-- Whether the links run through the sequence, which stands between `before?` and `after?`. -/
def Linked (slots : NodeId → Option ListSlot) : Option NodeId → Sequence → Option NodeId → Prop
  | _, [], _ => True
  | before?, (id, tree) :: rest, after? =>
      slots id = some ⟨tree, before?, front? rest after?⟩ ∧ Linked slots (some id) rest after?

section Linked

variable {slots slots' : NodeId → Option ListSlot} {before? after? : Option NodeId}

theorem linked_append {first second : Sequence} :
    Linked slots before? (first ++ second) after? ↔
      Linked slots before? first (front? second after?) ∧
        Linked slots (back? before? first) second after? := by
  induction first generalizing before? with
  | nil => simp [Linked, back?]
  | cons element rest ih =>
      rcases element with ⟨id, tree⟩
      simp only [List.cons_append, Linked, back?, ih, front?_append, and_assoc]

theorem Linked.congr {sequence : Sequence} (linked : Linked slots before? sequence after?)
    (same : ∀ id ∈ ids sequence, slots' id = slots id) :
    Linked slots' before? sequence after? := by
  induction sequence generalizing before? with
  | nil => trivial
  | cons element rest ih =>
      rcases element with ⟨id, tree⟩
      exact ⟨(same id List.mem_cons_self).trans linked.1,
        ih linked.2 fun other member => same other (List.mem_cons_of_mem _ member)⟩

theorem Linked.exists_slot {sequence : Sequence} (linked : Linked slots before? sequence after?)
    {id : NodeId} {tree : InstructionTree} (member : (id, tree) ∈ sequence) :
    ∃ previous? next?, slots id = some ⟨tree, previous?, next?⟩ := by
  rcases List.append_of_mem member with ⟨first, second, rfl⟩
  exact ⟨_, _, (linked_append.mp linked).2.1⟩

/-- The last element of a part can be followed by another one. -/
theorem Linked.setNext {rest : Sequence} {id : NodeId} {tree : InstructionTree}
    (linked : Linked slots before? (rest ++ [(id, tree)]) after?) (fresh : id ∉ ids rest)
    (next? : Option NodeId) :
    slots id = some ⟨tree, back? before? rest, after?⟩ ∧
      Linked (Function.update slots id (some ⟨tree, back? before? rest, next?⟩)) before?
        (rest ++ [(id, tree)]) next? := by
  rcases linked_append.mp linked with ⟨linkedRest, here, -⟩
  refine ⟨here, linked_append.mpr ⟨linkedRest.congr fun other member => ?_, ?_, trivial⟩⟩
  · exact Function.update_of_ne (ne_of_mem_of_not_mem member fresh) ..
  · simp [front?]

/-- The first element of a part can be preceded by another one. -/
theorem Linked.setPrevious {rest : Sequence} {id : NodeId} {tree : InstructionTree}
    (linked : Linked slots before? ((id, tree) :: rest) after?) (fresh : id ∉ ids rest)
    (previous? : Option NodeId) :
    slots id = some ⟨tree, before?, front? rest after?⟩ ∧
      Linked (Function.update slots id (some ⟨tree, previous?, front? rest after?⟩)) previous?
        ((id, tree) :: rest) after? := by
  refine ⟨linked.1, by simp, linked.2.congr fun other member => ?_⟩
  exact Function.update_of_ne (ne_of_mem_of_not_mem member fresh) ..

end Linked

end Sequence

namespace InstructionList

open Sequence

/-- Whether a list starts with a part that `after?` follows. -/
structure Front (list : InstructionList) (part : Sequence) (after? : Option NodeId) : Prop where
  linked : Linked (slotIn list.arenas) none part after?
  first : list.first? = front? part after?

/-- Whether a list ends with a part that `before?` precedes. -/
structure Back (list : InstructionList) (before? : Option NodeId) (part : Sequence) : Prop where
  linked : Linked (slotIn list.arenas) before? part none
  last : list.last? = back? before? part

/-- Whether only links of the elements with the given ids differ. -/
structure Relinks (list next : InstructionList) (ids : List NodeId) : Prop where
  others : ∀ id ∉ ids, slotIn next.arenas id = slotIn list.arenas id
  vacant : ∀ id, slotIn next.arenas id = none ↔ slotIn list.arenas id = none
  arenas : next.arenas.map Arena.id = list.arenas.map Arena.id
  sound : ∀ vacated, AreSound vacated list.arenas → AreSound vacated next.arenas
  length : next.length = list.length
  order : next.order? = list.order?

theorem Relinks.refl {list next : InstructionList} (arenas : next.arenas = list.arenas)
    (length : next.length = list.length) (order : next.order? = list.order?) (ids : List NodeId) :
    list.Relinks next ids :=
  ⟨fun _ _ => by rw [arenas], fun _ => by rw [arenas], by rw [arenas], fun _ => by rw [arenas]; exact id,
    length, order⟩

theorem Relinks.trans {first second third : InstructionList} {one two : List NodeId}
    (left : first.Relinks second one) (right : second.Relinks third two) :
    first.Relinks third (one ++ two) where
  others id outside := by
    rw [List.mem_append, not_or] at outside
    rw [right.others id outside.2, left.others id outside.1]
  vacant id := (right.vacant id).trans (left.vacant id)
  arenas := right.arenas.trans left.arenas
  sound vacated sound := right.sound vacated (left.sound vacated sound)
  length := right.length.trans left.length
  order := right.order.trans left.order

theorem update_relinks {list : InstructionList} {id : NodeId} {slot : ListSlot}
    (stored : slotIn list.arenas id = some slot) (change : ListSlot → ListSlot) :
    ∃ next, list.update id change = .ok next ∧ list.Relinks next [id] ∧
      slotIn next.arenas = Function.update (slotIn list.arenas) id (some (change slot)) ∧
      next.first? = list.first? ∧ next.last? = list.last? := by
  rcases update_eq_ok stored change with ⟨arenas, updated, restores, sound⟩
  refine ⟨_, updated, ⟨fun other outside => ?_, fun other => ?_, restores.ids, sound, rfl, rfl⟩,
    restores.slots, rfl, rfl⟩
  · rw [restores.slots]
    exact Function.update_of_ne (by simpa using outside) ..
  · rw [restores.slots, Function.update_apply]
    split
    · rename_i same
      simp [same, stored]
    · rfl

theorem Relinks.mono {list next : InstructionList} {one two : List NodeId}
    (relinks : list.Relinks next one) (more : one ⊆ two) : list.Relinks next two :=
  { relinks with others := fun id outside => relinks.others id fun inside => outside (more inside) }

theorem Front.linkNext {list : InstructionList} {part : Sequence} {after? : Option NodeId}
    (front : list.Front part after?) (nodup : (ids part).Nodup) (target? : Option NodeId) :
    ∃ next, list.linkNext (back? none part) target? = .ok next ∧ next.Front part target? ∧
      list.Relinks next (ids part) ∧ next.last? = list.last? := by
  rcases List.eq_nil_or_concat part with rfl | ⟨rest, ⟨id, tree⟩, rfl⟩
  · exact ⟨{ list with first? := target? }, rfl, ⟨trivial, rfl⟩,
      @Relinks.refl list { list with first? := target? } rfl rfl rfl _, rfl⟩
  · rw [List.concat_eq_append] at front nodup ⊢
    have fresh : id ∉ ids rest := fun member => by
      rw [ids_append] at nodup
      exact List.disjoint_of_nodup_append nodup member List.mem_cons_self
    rcases front.linked.setNext fresh target? with ⟨stored, linked⟩
    rcases update_relinks stored fun slot => { slot with next? := target? } with
      ⟨next, updated, relinks, slots, first, last⟩
    refine ⟨next, ?_, ⟨slots ▸ linked, ?_⟩, relinks.mono (by simp), last⟩
    · rw [back?_append]
      exact updated
    · rw [first, front.first, front?_append, front?_append]
      rfl

theorem Back.linkPrevious {list : InstructionList} {part : Sequence} {before? : Option NodeId}
    (back : list.Back before? part) (nodup : (ids part).Nodup) (target? : Option NodeId) :
    ∃ next, list.linkPrevious (front? part none) target? = .ok next ∧ next.Back target? part ∧
      list.Relinks next (ids part) ∧ next.first? = list.first? := by
  cases part with
  | nil =>
      exact ⟨{ list with last? := target? }, rfl, ⟨trivial, rfl⟩,
        @Relinks.refl list { list with last? := target? } rfl rfl rfl _, rfl⟩
  | cons element rest =>
      rcases element with ⟨id, tree⟩
      rcases back.linked.setPrevious (List.nodup_cons.mp nodup).1 target? with ⟨stored, linked⟩
      rcases update_relinks stored fun slot => { slot with previous? := target? } with
        ⟨next, updated, relinks, slots, first, last⟩
      refine ⟨next, updated, ⟨slots ▸ linked, ?_⟩, relinks.mono (by simp), first⟩
      rw [last, back.last]
      rfl

theorem Front.relinked {list next : InstructionList} {part : Sequence} {after? : Option NodeId}
    {changed : List NodeId} (front : list.Front part after?) (relinks : list.Relinks next changed)
    (disjoint : (ids part).Disjoint changed) (first : next.first? = list.first?) :
    next.Front part after? :=
  ⟨front.linked.congr fun id member => relinks.others id (disjoint member), first.trans front.first⟩

theorem Back.relinked {list next : InstructionList} {part : Sequence} {before? : Option NodeId}
    {changed : List NodeId} (back : list.Back before? part) (relinks : list.Relinks next changed)
    (disjoint : (ids part).Disjoint changed) (last : next.last? = list.last?) :
    next.Back before? part :=
  ⟨back.linked.congr fun id member => relinks.others id (disjoint member), last.trans back.last⟩

/-- Whether a list holds a sequence. -/
structure Holds (vacated : Vacated) (list : InstructionList) (sequence : Sequence) : Prop where
  linked : Linked (slotIn list.arenas) none sequence none
  first : list.first? = front? sequence none
  last : list.last? = back? none sequence
  length : list.length = sequence.length
  nodup : (ids sequence).Nodup
  only : ∀ {id slot}, slotIn list.arenas id = some slot → id ∈ ids sequence
  order : ∀ {order}, list.order? = some order → order = ids sequence
  sound : AreSound vacated list.arenas

/-- What stands between a part in front and a part behind and points at both is linked in. -/
theorem exists_holds {vacated : Vacated} {list : InstructionList} {before between after : Sequence}
    {before? after? : Option NodeId} (front : list.Front before after?)
    (back : list.Back before? after)
    (linked : Linked (slotIn list.arenas) (back? none before) between (front? after none))
    (distinct : (ids (before ++ between ++ after)).Nodup)
    (vacant : ∀ id, id ∉ ids (before ++ between ++ after) → slotIn list.arenas id = none)
    (sound : AreSound vacated list.arenas) :
    ∃ middle next,
      list.linkNext (back? none before) (front? between (front? after none)) = .ok middle ∧
      middle.linkPrevious (front? after none) (back? (back? none before) between) = .ok next ∧
      next.length = list.length ∧ next.arenas.map Arena.id = list.arenas.map Arena.id ∧
      ∀ length, length = (before ++ between ++ after).length →
        ({ next with length, order? := none } : InstructionList).Holds vacated
          (before ++ between ++ after) := by
  have nodup := distinct
  simp only [ids_append, List.append_assoc] at nodup
  have behind := nodup.of_append_right
  have disjoint : (ids before).Disjoint (ids between ++ ids after) :=
    List.disjoint_of_nodup_append nodup
  have disjointAfter : (ids between).Disjoint (ids after) := List.disjoint_of_nodup_append behind
  rw [List.disjoint_append_right] at disjoint
  rcases front.linkNext nodup.of_append_left (front? between (front? after none)) with
    ⟨middle, linkedNext, frontMiddle, relinksFirst, lastMiddle⟩
  have backMiddle := back.relinked relinksFirst (fun id inAfter inBefore => disjoint.2 inBefore inAfter)
    lastMiddle
  rcases backMiddle.linkPrevious behind.of_append_right (back? (back? none before) between) with
    ⟨next, linkedPrevious, backNext, relinksSecond, firstNext⟩
  have frontNext := frontMiddle.relinked relinksSecond disjoint.2 firstNext
  have relinks := relinksFirst.trans relinksSecond
  have linkedNext' : Linked (slotIn next.arenas) (back? none before) between (front? after none) :=
    linked.congr fun id member => relinks.others id fun changed => by
      rcases List.mem_append.mp changed with inBefore | inAfter
      · exact disjoint.1 inBefore member
      · exact disjointAfter member inAfter
  refine ⟨middle, next, linkedNext, linkedPrevious, relinks.length, relinks.arenas,
    fun length counted => ?_⟩
  refine ⟨?_, ?_, ?_, counted, distinct, fun {id slot} stored => ?_, by simp,
    relinks.sound vacated sound⟩
  · rw [List.append_assoc, linked_append, linked_append, front?_append]
    exact ⟨frontNext.linked, linkedNext', backNext.linked⟩
  · rw [frontNext.first, List.append_assoc, front?_append, front?_append]
  · rw [backNext.last, back?_append, back?_append]
  · by_contra outside
    rw [(relinks.vacant id).mpr (vacant id outside)] at stored
    cases stored

theorem link_eq_ok {list middle next : InstructionList} {first last : NodeId}
    {previous? next? : Option NodeId} (linkedNext : list.linkNext previous? (some first) = .ok middle)
    (linkedPrevious : middle.linkPrevious next? (some last) = .ok next) :
    list.link first last previous? next? = .ok { next with order? := none } := by
  rw [link, linkedNext, ok_bind, linkedPrevious, ok_bind]
  rfl

section Holds

variable {vacated : Vacated} {list : InstructionList}

theorem Holds.front {before after : Sequence} (holds : list.Holds vacated (before ++ after)) :
    list.Front before (front? after none) :=
  ⟨(linked_append.mp holds.linked).1, by rw [holds.first, front?_append]⟩

theorem Holds.back {before after : Sequence} (holds : list.Holds vacated (before ++ after)) :
    list.Back (back? none before) after :=
  ⟨(linked_append.mp holds.linked).2, by rw [holds.last, back?_append]⟩

theorem Holds.slot_eq {before after : Sequence} {id : NodeId} {tree : InstructionTree}
    (holds : list.Holds vacated (before ++ (id, tree) :: after)) :
    slotIn list.arenas id = some ⟨tree, back? none before, front? after none⟩ :=
  (linked_append.mp holds.linked).2.1

theorem Holds.slotIn_eq_none {sequence : Sequence} (holds : list.Holds vacated sequence)
    {id : NodeId} : slotIn list.arenas id = none ↔ id ∉ ids sequence := by
  cases stored : slotIn list.arenas id with
  | some slot => simpa using holds.only stored
  | none =>
      refine iff_of_true rfl fun member => ?_
      rcases List.mem_map.mp member with ⟨⟨id', tree⟩, inside, rfl⟩
      rcases holds.linked.exists_slot inside with ⟨_, _, found⟩
      rw [stored] at found
      cases found

theorem holds_empty {arena : Nat} (unused : ∀ place, vacated arena place = 0) :
    (empty arena).Holds vacated [] where
  linked := trivial
  first := rfl
  last := rfl
  length := rfl
  nodup := List.nodup_nil
  only {id slot} stored := by
    rcases exists_isFound stored with ⟨before, found, after, isFound, inArena⟩
    have member : found ∈ [Arena.empty arena] := by
      have split := isFound.split
      simp only [empty] at split
      simp [split]
    rw [List.mem_singleton.mp member] at inArena
    simp [Arena.slot?, Arena.empty] at inArena
  order noted := by simp [empty] at noted
  sound := ⟨by simpa [empty] using Arena.isSound_empty unused, by simp [empty], by simp [empty]⟩

end Holds

end InstructionList

end ClassFile
