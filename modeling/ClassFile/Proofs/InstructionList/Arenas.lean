import ClassFile.InstructionList
import ClassFile.Proofs.Bytes
import Mathlib.Logic.Function.Basic
import Mathlib.Data.List.Nodup

/-!
# What arenas store

Arenas are seen through the map from ids to what is stored under them.  Changing, storing and taking
out an element each change that map under one id.

The generation of a place counts how often the place was vacated (`Arena.IsSound`), so an id that is
given out anew is one that was never given out before, as long as the count does not start again.
-/

namespace ClassFile

/-- How often each place of each arena was vacated. -/
abbrev Vacated := Nat → Nat → Nat

/-- One more for the place of an id. -/
def Vacated.after (vacated : Vacated) (id : NodeId) : Vacated :=
  fun arena place =>
    if arena = id.arena ∧ place = id.place then vacated arena place + 1 else vacated arena place

theorem Vacated.le_after (vacated : Vacated) (id : NodeId) (arena place : Nat) :
    vacated arena place ≤ vacated.after id arena place := by
  unfold after
  split <;> omega

@[simp]
theorem Vacated.after_self (vacated : Vacated) (id : NodeId) :
    vacated.after id id.arena id.place = vacated id.arena id.place + 1 := by
  simp [after]

namespace Arena

/-- Whether an arena is as its operations leave it. -/
structure IsSound (vacated : Vacated) (arena : Arena) : Prop where
  free : ∀ place, place ∈ arena.free ↔
    ∃ generation, arena.entries[place]? = some ⟨generation, none⟩
  nodup : arena.free.Nodup
  size : arena.entries.size ≤ maxPlaces
  generation : ∀ {place entry}, arena.entries[place]? = some entry →
    entry.generation = UInt32.ofNat (vacated arena.id place)
  unused : ∀ place, arena.entries.size ≤ place → vacated arena.id place = 0

/-- Whether `next` stores `value?` under an id and all else as `arena` does. -/
structure Stores (arena next : Arena) (id : NodeId) (value? : Option ListSlot) : Prop where
  sameId : next.id = arena.id
  size : arena.entries.size ≤ next.entries.size
  slots : ∀ other : NodeId, other.arena = id.arena →
    next.slot? other = if other = id then value? else arena.slot? other

theorem isSound_empty {vacated : Vacated} {id : Nat} (unused : ∀ place, vacated id place = 0) :
    (empty id).IsSound vacated where
  free := by simp [empty]
  nodup := List.nodup_nil
  size := Nat.zero_le _
  generation := by simp [empty]
  unused place _ := unused place

theorem slot?_eq_some {arena : Arena} {id : NodeId} {slot : ListSlot} :
    arena.slot? id = some slot ↔ arena.entries[id.place]? = some ⟨id.generation, some slot⟩ := by
  unfold slot?
  rcases arena.entries[id.place]? with _ | ⟨generation, slot?⟩
  · simp
  · by_cases same : generation = id.generation <;> simp [same]

@[simp]
theorem id_put (arena : Arena) (place : Nat) (entry : ArenaEntry) :
    (arena.put place entry).id = arena.id :=
  rfl

theorem getElem?_put {arena : Arena} {place : Nat} {old : ArenaEntry}
    (there : arena.entries[place]? = some old) (entry : ArenaEntry) (other : Nat) :
    (arena.put place entry).entries[other]? =
      if other = place then some entry else arena.entries[other]? := by
  have bound : place < arena.entries.size := (Array.getElem?_eq_some_iff.mp there).1
  by_cases same : place = other
  · subst same
    simp [put, bound]
  · simp [put, same, Ne.symm same]

/-- Putting another entry in the place of an id changes what is stored under that id only, unless
something was stored in that place under another generation. -/
theorem stores_put {arena : Arena} {id : NodeId} {old entry : ArenaEntry} {value? : Option ListSlot}
    (there : arena.entries[id.place]? = some old)
    (before : old.generation = id.generation ∨ old.slot? = none)
    (after : entry.slot? = none ∨ entry.generation = id.generation)
    (value : (if entry.generation = id.generation then entry.slot? else none) = value?) :
    arena.Stores (arena.put id.place entry) id value? where
  sameId := rfl
  size := by simp [put]
  slots other sameArena := by
    unfold slot?
    rw [getElem?_put there]
    by_cases samePlace : other.place = id.place
    · by_cases sameGeneration : other.generation = id.generation
      · have same : other = id := by
          cases other
          cases id
          simp_all
        subst same
        simpa [there] using value
      · have different : other ≠ id := fun same => sameGeneration (congrArg _ same)
        simp only [samePlace, if_true, there, different, if_false]
        rcases before with sameOld | vacant
        · rw [sameOld, if_neg (Ne.symm sameGeneration)]
          rcases after with vacant | sameNew
          · simp [vacant]
          · rw [sameNew, if_neg (Ne.symm sameGeneration)]
        · rw [vacant]
          rcases after with vacant | sameNew
          · simp [vacant]
          · rw [sameNew, if_neg (Ne.symm sameGeneration)]
            simp
    · have different : other ≠ id := fun same => samePlace (congrArg _ same)
      simp [samePlace, different]

/-- Putting another entry in a place keeps an arena as it should be, if the entry has the generation
that the place has reached and the place is free exactly when the entry is vacant. -/
theorem IsSound.put {vacated vacated' : Vacated} {arena : Arena} (sound : arena.IsSound vacated)
    {place : Nat} {old entry : ArenaEntry} (there : arena.entries[place]? = some old)
    {free : List Nat} (nodup : free.Nodup) (vacant : place ∈ free ↔ entry.slot? = none)
    (others : ∀ other, other ≠ place → (other ∈ free ↔ other ∈ arena.free))
    (generation : entry.generation = UInt32.ofNat (vacated' arena.id place))
    (same : ∀ other, other ≠ place → vacated' arena.id other = vacated arena.id other) :
    ({ arena.put place entry with free } : Arena).IsSound vacated' where
  free other := by
    show other ∈ free ↔ ∃ generation, (arena.put place entry).entries[other]? = _
    rw [getElem?_put there]
    by_cases here : other = place
    · subst here
      rcases entry with ⟨generation, slot?⟩
      simp [vacant]
    · simpa [here, others other here] using sound.free other
  nodup := nodup
  size := by simpa [Arena.put] using sound.size
  generation {other found} at_ := by
    replace at_ : (arena.put place entry).entries[other]? = some found := at_
    show found.generation = UInt32.ofNat (vacated' arena.id other)
    rw [getElem?_put there] at at_
    split at at_
    · rename_i here
      cases at_
      rw [here, generation]
    · rename_i elsewhere
      rw [same other elsewhere]
      exact sound.generation at_
  unused other beyond := by
    have bound : place < arena.entries.size := (Array.getElem?_eq_some_iff.mp there).1
    have beyond : arena.entries.size ≤ other := by simpa [Arena.put] using beyond
    show vacated' arena.id other = 0
    rw [same other (by omega)]
    exact sound.unused other beyond

theorem update?_eq_some {arena next : Arena} {id : NodeId} {change : ListSlot → ListSlot}
    (updated : arena.update? id change = some next) :
    ∃ slot, arena.slot? id = some slot ∧ arena.Stores next id (some (change slot)) ∧
      ∀ vacated, arena.IsSound vacated → next.IsSound vacated := by
  unfold update? at updated
  cases stored : arena.slot? id with
  | none => simp [stored] at updated
  | some slot =>
      rw [stored] at updated
      cases updated
      have there := slot?_eq_some.mp stored
      refine ⟨slot, rfl, stores_put there (.inl rfl) (.inr rfl) (by simp), fun vacated sound => ?_⟩
      have filled : id.place ∉ arena.free := by
        rw [sound.free, there]
        simp
      have generation : id.generation = UInt32.ofNat (vacated arena.id id.place) :=
        sound.generation there
      exact sound.put there sound.nodup (by simpa using filled) (fun _ _ => Iff.rfl) generation
        fun _ _ => rfl

theorem release?_eq_some {arena next : Arena} {id : NodeId} {slot : ListSlot}
    (released : arena.release? id = some (slot, next)) (own : arena.id = id.arena) :
    arena.slot? id = some slot ∧ arena.Stores next id none ∧
      ∀ vacated, arena.IsSound vacated →
        id.generation = UInt32.ofNat (vacated id.arena id.place) ∧
          next.IsSound (vacated.after id) := by
  unfold release? at released
  cases stored : arena.slot? id with
  | none => simp [stored] at released
  | some stored' =>
      rw [stored] at released
      cases released
      have there := slot?_eq_some.mp stored
      have stores : arena.Stores (arena.put id.place ⟨id.generation + 1, none⟩) id none :=
        stores_put there (.inl rfl) (.inl rfl) (by simp)
      refine ⟨rfl, ⟨stores.sameId, stores.size, stores.slots⟩, fun vacated sound => ?_⟩
      have filled : id.place ∉ arena.free := by
        rw [sound.free, there]
        simp
      have generation : id.generation = UInt32.ofNat (vacated arena.id id.place) :=
        sound.generation there
      refine ⟨own ▸ generation, sound.put there (List.nodup_cons.mpr ⟨filled, sound.nodup⟩)
        (by simp) (fun other elsewhere => by simp [elsewhere]) ?_ fun other elsewhere => by
          simp [Vacated.after, elsewhere]⟩
      show id.generation + 1 = UInt32.ofNat (vacated.after id arena.id id.place)
      rw [own, Vacated.after_self, generation, own, UInt32.ofNat_add]
      rfl

/-- A new place at the end. -/
theorem stores_push (arena : Arena) (slot : ListSlot) :
    arena.Stores { arena with entries := arena.entries.push ⟨0, some slot⟩ }
      ⟨arena.id, arena.entries.size, 0⟩ (some slot) where
  sameId := rfl
  size := by simp
  slots other sameArena := by
    unfold slot?
    rw [Array.getElem?_push]
    by_cases new : other.place = arena.entries.size
    · by_cases first : other.generation = 0
      · have same : other = ⟨arena.id, arena.entries.size, 0⟩ := by
          cases other
          simp_all
        simp [same]
      · have different : other ≠ ⟨arena.id, arena.entries.size, 0⟩ := fun same =>
          first (congrArg NodeId.generation same)
        simp [new, different, Ne.symm first]
    · have different : other ≠ ⟨arena.id, arena.entries.size, 0⟩ := fun same =>
        new (congrArg NodeId.place same)
      simp [new, different]

theorem IsSound.push {vacated : Vacated} {arena : Arena} (sound : arena.IsSound vacated)
    (room : arena.entries.size < maxPlaces) (slot : ListSlot) :
    ({ arena with entries := arena.entries.push ⟨0, some slot⟩ } : Arena).IsSound vacated where
  free place := by
    rw [Array.getElem?_push]
    by_cases new : place = arena.entries.size
    · simpa [new] using sound.free arena.entries.size
    · simpa [new] using sound.free place
  nodup := sound.nodup
  size := by
    rw [Array.size_push]
    exact room
  generation {place entry} found := by
    rw [Array.getElem?_push] at found
    split at found
    · rename_i new
      cases found
      simp [new, sound.unused arena.entries.size (Nat.le_refl _)]
    · exact sound.generation found
  unused place beyond := sound.unused place (by simp at beyond; omega)

/-- An arena has no room only if all of the places that it can have are filled. -/
theorem allocate_cases {vacated : Vacated} {arena : Arena} (sound : arena.IsSound vacated)
    (slot : ListSlot) :
    (arena.allocate slot = .error (.arenaFull arena.id) ∧ arena.free = [] ∧
      arena.entries.size = maxPlaces) ∨
    ∃ id next, arena.allocate slot = .ok (id, next) ∧ id.arena = arena.id ∧
      id.generation = UInt32.ofNat (vacated id.arena id.place) ∧ arena.slot? id = none ∧
      arena.Stores next id (some slot) ∧ next.IsSound vacated := by
  unfold allocate
  cases vacant : arena.free with
  | nil =>
      by_cases room : arena.entries.size < maxPlaces
      · have pushed := sound.push room slot
        have stores := stores_push arena slot
        rw [vacant] at pushed stores
        refine .inr ⟨_, _, if_pos room, rfl, ?_, ?_, stores, pushed⟩
        · simp [sound.unused arena.entries.size (Nat.le_refl _)]
        · simp [slot?]
      · refine .inl ⟨if_neg room, rfl, ?_⟩
        have size := sound.size
        omega
  | cons place rest =>
      rcases (sound.free place).mp (by simp [vacant]) with ⟨generation, there⟩
      have nodup := sound.nodup
      rw [vacant, List.nodup_cons] at nodup
      have reached : generation = UInt32.ofNat (vacated arena.id place) := sound.generation there
      have stores : arena.Stores (arena.put place ⟨generation, some slot⟩)
          ⟨arena.id, place, generation⟩ (some slot) :=
        @stores_put arena ⟨arena.id, place, generation⟩ _ _ _ there (.inr rfl) (.inr rfl) (if_pos rfl)
      have filled : ({ arena.put place ⟨generation, some slot⟩ with free := rest } : Arena).IsSound
          vacated :=
        sound.put there nodup.2 (by simpa using nodup.1)
          (fun other elsewhere => by
            rw [vacant, List.mem_cons]
            exact ⟨.inr, fun member => member.resolve_left elsewhere⟩) reached fun _ _ => rfl
      refine .inr ⟨⟨arena.id, place, generation⟩,
        { arena.put place ⟨generation, some slot⟩ with free := rest }, ?_, rfl, reached, ?_,
        ⟨stores.sameId, stores.size, stores.slots⟩, filled⟩
      · simp [there]
      · simp [slot?, there]

end Arena

namespace InstructionList

/-- Whether arenas are as the operations of a list leave them. -/
structure AreSound (vacated : Vacated) (arenas : List Arena) : Prop where
  each : ∀ arena ∈ arenas, arena.IsSound vacated
  distinct : (arenas.map Arena.id).Nodup
  nonempty : arenas ≠ []

/-- Whether `next` stores `value?` under an id and all else as `arenas` do. -/
structure Restores (arenas next : List Arena) (id : NodeId) (value? : Option ListSlot) : Prop where
  slots : slotIn next = Function.update (slotIn arenas) id value?
  ids : next.map Arena.id = arenas.map Arena.id

/-- The arena with a given id, and the arenas before it, which have other ids. -/
structure IsFound (arenas : List Arena) (id : Nat) (before : List Arena) (arena : Arena)
    (after : List Arena) : Prop where
  split : arenas = before ++ arena :: after
  own : arena.id = id
  others : ∀ other ∈ before, other.id ≠ id

theorem IsFound.slotIn_eq {arenas before after : List Arena} {arena : Arena} {id : NodeId}
    (found : IsFound arenas id.arena before arena after) : slotIn arenas id = arena.slot? id := by
  have skipped : before.find? (fun other => other.id == id.arena) = none := by
    simpa using found.others
  simp [slotIn, found.split, found.own, List.find?_append, skipped]

theorem exists_isFound {arenas : List Arena} {id : NodeId} {slot : ListSlot}
    (stored : slotIn arenas id = some slot) :
    ∃ before arena after, IsFound arenas id.arena before arena after ∧
      arena.slot? id = some slot := by
  rcases Option.bind_eq_some_iff.mp stored with ⟨arena, first, inArena⟩
  rcases List.find?_eq_some_iff_append.mp first with ⟨own, before, after, split, others⟩
  exact ⟨before, arena, after, ⟨split, by simpa using own, by simpa using others⟩, inArena⟩

theorem IsFound.onArena?_eq {arenas before after : List Arena} {arena next : Arena} {id : Nat}
    (found : IsFound arenas id before arena after) {change : Arena → Option Arena}
    (changed : change arena = some next) :
    onArena? change id arenas = some (before ++ next :: after) := by
  rcases found with ⟨rfl, own, others⟩
  induction before with
  | nil => simp [onArena?, own, changed]
  | cons other rest ih =>
      rcases List.forall_mem_cons.mp others with ⟨different, others⟩
      simp [onArena?, different, ih others]

theorem IsFound.restores {arenas before after : List Arena} {arena next : Arena} {id : NodeId}
    (found : IsFound arenas id.arena before arena after) {value? : Option ListSlot}
    (stores : arena.Stores next id value?) :
    Restores arenas (before ++ next :: after) id value? where
  slots := by
    funext other
    by_cases same : other.arena = id.arena
    · have foundNext : IsFound (before ++ next :: after) other.arena before next after :=
        ⟨rfl, by rw [stores.sameId, found.own, same], same ▸ found.others⟩
      have foundOther : IsFound arenas other.arena before arena after := same ▸ found
      rw [foundNext.slotIn_eq, stores.slots other same, Function.update_apply,
        foundOther.slotIn_eq]
    · have different : other ≠ id := fun same' => same (congrArg _ same')
      rw [Function.update_of_ne different]
      simp [slotIn, found.split, List.find?_append, stores.sameId, found.own, Ne.symm same]
  ids := by simp [found.split, stores.sameId]

theorem IsFound.areSound {arenas before after : List Arena} {arena next : Arena} {id : Nat}
    (found : IsFound arenas id before arena after) {vacated vacated' : Vacated}
    (sound : AreSound vacated arenas) (own : next.IsSound vacated') (sameId : next.id = arena.id)
    (elsewhere : ∀ other place, other ≠ id → vacated' other place = vacated other place) :
    AreSound vacated' (before ++ next :: after) where
  each other member := by
    have distinct := sound.distinct
    simp only [found.split, List.map_append, List.map_cons] at distinct
    rw [List.mem_append, List.mem_cons] at member
    have keep : other ∈ arenas → other.id ≠ id → other.IsSound vacated' := fun inside different => by
      have before := sound.each other inside
      exact ⟨before.free, before.nodup, before.size,
        fun there => by rw [elsewhere _ _ different]; exact before.generation there,
        fun place beyond => by rw [elsewhere _ _ different]; exact before.unused place beyond⟩
    rcases member with inBefore | rfl | inAfter
    · exact keep (by simp [found.split, inBefore]) (found.others other inBefore)
    · exact own
    · refine keep (by simp [found.split, inAfter]) fun same => ?_
      have fresh := (List.nodup_cons.mp (List.nodup_append.mp distinct).2.1).1
      exact fresh (found.own ▸ same ▸ List.mem_map_of_mem inAfter)
  distinct := by simpa [found.split, sameId] using sound.distinct
  nonempty := by simp

theorem isFound_of_getElem? {arenas : List Arena} {position : Nat} {arena : Arena}
    (distinct : (arenas.map Arena.id).Nodup) (there : arenas[position]? = some arena) :
    IsFound arenas arena.id (arenas.take position) arena (arenas.drop (position + 1)) where
  split := by
    rcases List.getElem?_eq_some_iff.mp there with ⟨bound, rfl⟩
    simp
  own := rfl
  others other member same := by
    rcases List.getElem?_eq_some_iff.mp there with ⟨bound, rfl⟩
    rcases List.mem_take_iff_getElem.mp member with ⟨earlier, before, rfl⟩
    have samePlace : earlier = position := by
      have inside : earlier < (arenas.map Arena.id).length := by
        rw [List.length_map]
        omega
      refine (List.getElem?_inj inside distinct).mp ?_
      simp [List.getElem?_eq_getElem (show earlier < arenas.length by omega),
        List.getElem?_eq_getElem bound, same]
    omega

theorem slot_eq_ok {list : InstructionList} {id : NodeId} {slot : ListSlot} :
    list.slot id = .ok slot ↔ slotIn list.arenas id = some slot := by
  unfold InstructionList.slot
  cases slotIn list.arenas id <;> simp

theorem mem_arenas_of_slotIn {arenas : List Arena} {id : NodeId} {slot : ListSlot}
    (stored : slotIn arenas id = some slot) : id.arena ∈ arenas.map Arena.id := by
  rcases exists_isFound stored with ⟨before, arena, after, found, -⟩
  simp [found.split, ← found.own]

theorem update_eq_ok {list : InstructionList} {id : NodeId} {slot : ListSlot}
    (stored : slotIn list.arenas id = some slot) (change : ListSlot → ListSlot) :
    ∃ arenas, list.update id change = .ok { list with arenas } ∧
      Restores list.arenas arenas id (some (change slot)) ∧
      ∀ vacated, AreSound vacated list.arenas → AreSound vacated arenas := by
  rcases exists_isFound stored with ⟨before, arena, after, found, inArena⟩
  have updated : arena.update? id change =
      some (arena.put id.place ⟨id.generation, some (change slot)⟩) := by
    simp [Arena.update?, inArena]
  rcases Arena.update?_eq_some updated with ⟨stored', inArena', stores, keeps⟩
  cases inArena.symm.trans inArena'
  refine ⟨_, by rw [update, found.onArena?_eq updated], found.restores stores, fun vacated sound => ?_⟩
  exact found.areSound sound (keeps vacated (sound.each arena (by simp [found.split]))) stores.sameId
    fun _ _ _ => rfl

theorem update_eq_error {list : InstructionList} {id : NodeId}
    (vacant : slotIn list.arenas id = none) (change : ListSlot → ListSlot) :
    list.update id change = .error .notInList := by
  have none_ : ∀ arenas, slotIn arenas id = none →
      onArena? (·.update? id change) id.arena arenas = none := by
    intro arenas vacant
    induction arenas with
    | nil => rfl
    | cons arena rest ih =>
        by_cases own : arena.id = id.arena
        · have inArena : arena.slot? id = none := by simpa [slotIn, own] using vacant
          rw [onArena?, if_pos own, Arena.update?, inArena]
          rfl
        · have inRest : slotIn rest id = none := by simpa [slotIn, own] using vacant
          rw [onArena?, if_neg own, ih inRest]
          rfl
  rw [update, none_ list.arenas vacant]

theorem release_eq_ok {list : InstructionList} {id : NodeId} {slot : ListSlot}
    (stored : slotIn list.arenas id = some slot) :
    ∃ arenas, list.release id = .ok (slot, { list with arenas }) ∧
      Restores list.arenas arenas id none ∧
      ∀ vacated, AreSound vacated list.arenas →
        id.generation = UInt32.ofNat (vacated id.arena id.place) ∧
          AreSound (vacated.after id) arenas := by
  rcases exists_isFound stored with ⟨before, arena, after, found, inArena⟩
  rcases released : arena.release? id with _ | ⟨slot', next⟩
  case none => simp [Arena.release?, inArena] at released
  case some =>
    rcases Arena.release?_eq_some released found.own with ⟨inArena', stores, keeps⟩
    cases inArena.symm.trans inArena'
    have changed := @IsFound.onArena?_eq _ _ _ _ next _ found
      (fun arena => (arena.release? id).map Prod.snd) (by simp [released])
    refine ⟨before ++ next :: after, ?_, found.restores stores, fun vacated sound => ?_⟩
    · rw [release, slot_eq_ok.mpr stored, ok_bind]
      simp only [changed]
      rfl
    · rcases keeps vacated (sound.each arena (by simp [found.split])) with ⟨generation, own⟩
      refine ⟨generation, found.areSound sound own stores.sameId fun other place elsewhere => ?_⟩
      simp [Vacated.after, elsewhere]

theorem allocate_cases {vacated : Vacated} {list : InstructionList}
    (sound : AreSound vacated list.arenas) (slot : ListSlot) :
    (∃ arena ∈ list.arenas, list.allocate slot = .error (.arenaFull arena.id) ∧ arena.free = [] ∧
      arena.entries.size = Arena.maxPlaces) ∨
    ∃ id arenas, list.allocate slot = .ok (id, { list with arenas }) ∧
      id.arena ∈ list.arenas.map Arena.id ∧
      id.generation = UInt32.ofNat (vacated id.arena id.place) ∧ slotIn list.arenas id = none ∧
      Restores list.arenas arenas id (some slot) ∧ AreSound vacated arenas := by
  have first : ∃ position arena,
      (list.arenas.findIdx? fun arena => ! arena.free.isEmpty).getD 0 = position ∧
        list.arenas[position]? = some arena := by
    cases vacant : list.arenas.findIdx? fun arena => ! arena.free.isEmpty with
    | none =>
        rcases List.exists_cons_of_ne_nil sound.nonempty with ⟨arena, rest, split⟩
        exact ⟨0, arena, rfl, by simp [split]⟩
    | some position =>
        rcases List.findIdx?_eq_some_iff_getElem.mp vacant with ⟨bound, -⟩
        exact ⟨position, _, rfl, List.getElem?_eq_getElem bound⟩
  rcases first with ⟨position, arena, chosen, there⟩
  have found := isFound_of_getElem? sound.distinct there
  have member := List.mem_of_getElem? there
  have own := sound.each arena member
  rcases Arena.allocate_cases own slot with ⟨full, noneVacant, size⟩ |
    ⟨id, next, allocated, inArena, generation, vacant, stores, keeps⟩
  · refine .inl ⟨arena, member, ?_, noneVacant, size⟩
    rw [allocate, chosen]
    simp only [there, full]
    rfl
  · have set : list.arenas.set position next =
        list.arenas.take position ++ next :: list.arenas.drop (position + 1) := by
      rw [List.set_eq_take_append_cons_drop, if_pos (List.getElem?_eq_some_iff.mp there).1]
    have foundId : IsFound list.arenas id.arena (list.arenas.take position) arena
        (list.arenas.drop (position + 1)) := inArena ▸ found
    refine .inr ⟨id, list.arenas.set position next, ?_, ?_, generation, ?_, ?_, ?_⟩
    · rw [allocate, chosen]
      simp only [there, allocated]
      rfl
    · rw [inArena]
      exact List.mem_map_of_mem member
    · rw [foundId.slotIn_eq, vacant]
    · rw [set]
      exact foundId.restores stores
    · rw [set]
      exact found.areSound sound keeps stores.sameId fun _ _ _ => rfl

end InstructionList

end ClassFile
