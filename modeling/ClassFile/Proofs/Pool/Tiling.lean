import ClassFile.Proofs.Pool.Records
import Mathlib.Data.List.Induction

/-!
# How the entries of a pool fill it

The indices that have an entry are those that no wide entry takes along with the one in front of
them.  In the order of these indices the entries stand one behind the other and fill the bytes of
the pool (`Pool.Tiles`), a look-up at any other index fails, and the entries are listed at just these
indices (`Pool.IsTiled`).

All of it is read off the list of records that a pool holds: the record behind those of `front` has
the index `1 + (recordSlots front).length`, and the walk over the entries goes from one such index
to the next (`Held.entriesFrom_eq`).
-/

namespace ClassFile

namespace Pool

/-- The bytes of an entry, with its tag in front. -/
def encoding (pool : Pool) (index : UInt16) : Except ClassError (List UInt8) := do
  let (tag, body) ← pool.rawEntry index
  return tag.code :: body

/-- Whether the pool has an entry with a given index. -/
def HasEntry (pool : Pool) (index : UInt16) : Prop :=
  ∃ found, pool.rawEntry index = .ok found

/-- Whether an index is taken along by a long or double entry in front of it. -/
def IsShadowed (pool : Pool) (index : UInt16) : Prop :=
  ∃ before : UInt16, before.toNat + 1 = index.toNat ∧
    (pool.tag before = .ok .long ∨ pool.tag before = .ok .double)

/-- The failure of a look-up at an index that has no entry. -/
def noEntryError (pool : Pool) (index : UInt16) : ClassError :=
  if index.toNat < pool.size then .noPoolEntry index else .badPoolIndex index pool.size

/-- Whether the entries with the given indices stand one behind the other between two offsets. -/
inductive Tiles (pool : Pool) : Nat → List UInt16 → Nat → Prop where
  | nil (offset : Nat) : Tiles pool offset [] offset
  | cons {offset stop : Nat} {index : UInt16} {bytes : List UInt8} {rest : List UInt16}
      (here : pool.offsetOf index = .ok offset) (encoded : pool.encoding index = .ok bytes)
      (behind : Tiles pool (offset + bytes.length) rest stop) :
      Tiles pool offset (index :: rest) stop

/-- Whether the entries of a pool are those at the given indices, and fill it. -/
structure IsTiled (pool : Pool) (indices : List UInt16) : Prop where
  increasing : indices.Pairwise (· < ·)
  complete (index : UInt16) : index ∈ indices ↔ pool.HasEntry index
  unshadowed (index : UInt16) :
    pool.HasEntry index ↔ 0 < index ∧ index.toNat < pool.size ∧ ¬ pool.IsShadowed index
  contiguous : pool.Tiles firstOffset indices pool.stop
  covered : ∃ encodings bytes, indices.mapM pool.encoding = .ok encodings ∧
    pool.rawBytes = .ok bytes ∧ bytes.toList = encodings.flatten
  /-- Where there is no entry, all look-ups fail alike. -/
  absent (index : UInt16) : ¬ pool.HasEntry index →
    pool.rawEntry index = .error (pool.noEntryError index) ∧
      pool.tag index = .error (pool.noEntryError index) ∧
      pool.entry index = .error (pool.noEntryError index) ∧
      ∀ expected, pool.bodyOf expected index = .error (pool.noEntryError index)
  listed : pool.entries.toList = indices.map pool.entry

end Pool

/-! ### The indices of a list of records -/

/-- The indices of the entries if the first one has the index `next`. -/
def recordIndices (next : Nat) : List PoolRecord → List UInt16
  | [] => []
  | record :: rest => next.toUInt16 :: recordIndices (next + record.width) rest

section Indices

variable {records front back : List PoolRecord} {record : PoolRecord} {index : Nat}

theorem PoolRecord.width_pos (record : PoolRecord) : 0 < record.width := by
  unfold width
  split <;> decide

theorem PoolRecord.width_le (record : PoolRecord) : record.width ≤ 2 := by
  unfold width
  split <;> decide

/-- The index of an entry is one behind those that the entries in front of it take. -/
theorem recordAt_eq_some_iff :
    recordAt records index = some record ↔
      ∃ front back, records = front ++ record :: back ∧
        index = (recordSlots front).length + 1 := by
  constructor
  · intro found
    induction records using List.reverseRecOn with
    | nil => cases recordAt_mem found
    | append_singleton records last ih =>
        rcases recordAt_concat.mp found with earlier | ⟨isLast, rfl⟩
        · rcases ih earlier with ⟨front, back, rfl, place⟩
          exact ⟨front, back ++ [last], by simp, place⟩
        · exact ⟨records, [], rfl, isLast⟩
  · rintro ⟨front, back, rfl, rfl⟩
    rw [List.append_cons]
    exact recordAt_append (recordAt_concat.mpr (.inr ⟨rfl, rfl⟩)) back

/-- An index that is taken has an entry or stands behind a wide one. -/
theorem recordAt_or_wide (positive : 0 < index) (taken : index ≤ (recordSlots records).length) :
    (∃ record, recordAt records index = some record) ∨
      ∃ record, recordAt records (index - 1) = some record ∧ record.tag.isWide = true := by
  induction records using List.reverseRecOn with
  | nil =>
      rw [show recordSlots [] = [] from rfl, List.length_nil] at taken
      omega
  | append_singleton records last ih =>
      rw [recordSlots_append, recordSlots_singleton, List.length_append, last.length_slots] at taken
      rcases Nat.lt_trichotomy index ((recordSlots records).length + 1) with
        before | here | behind
      · rcases ih (by omega) with ⟨record, found⟩ | ⟨record, found, wide⟩
        · exact .inl ⟨record, recordAt_append found _⟩
        · exact .inr ⟨record, recordAt_append found _, wide⟩
      · exact .inl ⟨last, recordAt_concat.mpr (.inr ⟨here, rfl⟩)⟩
      · have width := last.width_le
        refine .inr ⟨last, recordAt_concat.mpr (.inr ⟨by omega, rfl⟩), ?_⟩
        by_contra narrow
        rw [PoolRecord.width, if_neg narrow] at taken
        omega

/-- Behind a wide entry there is none at the next index. -/
theorem recordAt_succ_of_wide (found : recordAt records index = some record)
    (wide : record.tag.isWide = true) : recordAt records (index + 1) = none := by
  rcases recordAt_eq_some_iff.mp found with ⟨front, back, rfl, rfl⟩
  rw [recordAt, recordSlots_append, List.getElem?_append_right (by omega), recordSlots_cons,
    Nat.add_sub_cancel_left, PoolRecord.slots, if_pos wide]
  rfl

theorem mem_recordIndices {next : Nat} {index : UInt16} :
    index ∈ recordIndices next records ↔
      ∃ front record back, records = front ++ record :: back ∧
        index = (next + (recordSlots front).length).toUInt16 := by
  induction records generalizing next with
  | nil => simp [recordIndices]
  | cons first rest ih =>
      rw [recordIndices, List.mem_cons, ih]
      constructor
      · rintro (rfl | ⟨front, record, back, rfl, rfl⟩)
        · exact ⟨[], first, rest, rfl, rfl⟩
        · refine ⟨first :: front, record, back, rfl, ?_⟩
          rw [recordSlots_cons, List.length_append, first.length_slots, Nat.add_assoc]
      · rintro ⟨front, record, back, split, rfl⟩
        cases front with
        | nil => exact .inl rfl
        | cons _ front =>
            cases split
            refine .inr ⟨front, record, back, rfl, ?_⟩
            rw [recordSlots_cons, List.length_append, first.length_slots, Nat.add_assoc]

theorem le_of_mem_recordIndices {next : Nat} {index : UInt16}
    (small : next + (recordSlots records).length ≤ 65535)
    (listed : index ∈ recordIndices next records) : next ≤ index.toNat := by
  rcases mem_recordIndices.mp listed with ⟨front, record, back, rfl, rfl⟩
  rw [recordSlots_append, List.length_append] at small
  simp
  omega

theorem recordIndices_pairwise {next : Nat} (small : next + (recordSlots records).length ≤ 65535) :
    (recordIndices next records).Pairwise (· < ·) := by
  induction records generalizing next with
  | nil => exact List.Pairwise.nil
  | cons record rest ih =>
      rw [recordSlots_cons, List.length_append, record.length_slots] at small
      refine List.Pairwise.cons ?_ (ih (by omega))
      intro index listed
      have later := le_of_mem_recordIndices (by omega) listed
      have positive := record.width_pos
      rw [UInt16.lt_iff_toNat_lt]
      simp
      omega

theorem mem_recordIndices_one {index : UInt16} (small : 1 + (recordSlots records).length ≤ 65535) :
    index ∈ recordIndices 1 records ↔ ∃ record, recordAt records index.toNat = some record := by
  rw [mem_recordIndices]
  constructor
  · rintro ⟨front, record, back, rfl, rfl⟩
    refine ⟨record, recordAt_eq_some_iff.mpr ⟨front, back, rfl, ?_⟩⟩
    rw [recordSlots_append, List.length_append] at small
    simp
    omega
  · rintro ⟨record, found⟩
    rcases recordAt_eq_some_iff.mp found with ⟨front, back, rfl, place⟩
    refine ⟨front, record, back, rfl, ?_⟩
    rw [Nat.add_comm, ← place]
    exact UInt16.ofNat_toNat.symm

theorem recordOffsets_append (offset : Nat) (front back : List PoolRecord) :
    recordOffsets offset (front ++ back) =
      recordOffsets offset front ++ recordOffsets (offset + (recordBytes front).length) back := by
  induction front generalizing offset with
  | nil => rfl
  | cons record rest ih =>
      rw [List.cons_append, recordOffsets, ih, recordOffsets, recordBytes_cons, List.length_append,
        Nat.add_assoc, List.append_assoc]

theorem length_recordOffsets (offset : Nat) (records : List PoolRecord) :
    (recordOffsets offset records).length = (recordSlots records).length := by
  induction records generalizing offset with
  | nil => rfl
  | cons record rest ih =>
      rw [recordOffsets, recordSlots_cons, List.length_append, List.length_append, ih,
        PoolRecord.slots]
      congr 1
      cases record.tag.isWide <;> rfl

/-- The offset of an entry is behind the entries in front of it. -/
theorem recordOffsets_getElem? (offset : Nat) (front : List PoolRecord) (record : PoolRecord)
    (back : List PoolRecord) :
    (recordOffsets offset (front ++ record :: back))[(recordSlots front).length]? =
      some (offset + (recordBytes front).length) := by
  rw [recordOffsets_append, ← length_recordOffsets offset front, List.getElem?_append_right (by rfl),
    Nat.sub_self]
  rfl

end Indices

namespace Pool

section Held

variable {pool : Pool} {records front back : List PoolRecord} {record : PoolRecord}

theorem Held.hasEntry_iff (held : pool.Held records) {index : UInt16} :
    pool.HasEntry index ↔ ∃ record, recordAt records index.toNat = some record := by
  constructor
  · rintro ⟨found, read⟩
    rcases bind_eq_ok.mp read with ⟨offset, known, -⟩
    rcases held.recordAt_of_offsetOf known with ⟨record, found, -⟩
    exact ⟨record, found⟩
  · rintro ⟨record, found⟩
    exact ⟨_, held.rawEntry_eq_ok found⟩

theorem Held.tag_eq_ok_iff (held : pool.Held records) {index : UInt16} {tag : PoolTag} :
    pool.tag index = .ok tag ↔
      ∃ record, recordAt records index.toNat = some record ∧ record.tag = tag := by
  rw [Pool.tag_eq_ok]
  constructor
  · rintro ⟨offset, known, tagged⟩
    rcases held.recordAt_of_offsetOf known with ⟨record, found, recordHeld⟩
    refine ⟨record, found, ?_⟩
    have read := tagAt_eq_ok.mpr tagged
    rw [tagAt_eq_ok.mpr (PoolRecord.hasAt_bytes.mp recordHeld).1] at read
    exact Except.ok.inj read
  · rintro ⟨record, found, rfl⟩
    rcases held.offsetOf_of_recordAt found with ⟨offset, known, recordHeld⟩
    exact ⟨offset, known, (PoolRecord.hasAt_bytes.mp recordHeld).1⟩

theorem Held.isShadowed_iff (held : pool.Held records) {index : UInt16} :
    pool.IsShadowed index ↔ ∃ before record, before + 1 = index.toNat ∧
      recordAt records before = some record ∧ record.tag.isWide = true := by
  have wide_iff (tag : PoolTag) : tag.isWide = true ↔ tag = .long ∨ tag = .double := by
    simp [PoolTag.isWide]
  unfold IsShadowed
  simp only [held.tag_eq_ok_iff]
  constructor
  · rintro ⟨before, next, ⟨record, found, tagged⟩ | ⟨record, found, tagged⟩⟩
    · exact ⟨before.toNat, record, next, found, (wide_iff _).mpr (.inl tagged)⟩
    · exact ⟨before.toNat, record, next, found, (wide_iff _).mpr (.inr tagged)⟩
  · rintro ⟨before, record, next, found, wide⟩
    have bound := index.toNat_lt
    have number : before.toUInt16.toNat = before := by
      simp
      omega
    refine ⟨before.toUInt16, by rw [number, next], ?_⟩
    rw [number]
    rcases (wide_iff _).mp wide with tagged | tagged
    · exact .inl ⟨record, found, tagged⟩
    · exact .inr ⟨record, found, tagged⟩

theorem Held.hasEntry_iff_unshadowed (held : pool.Held records)
    (filled : max pool.size 1 = 1 + (recordSlots records).length) {index : UInt16} :
    pool.HasEntry index ↔ 0 < index ∧ index.toNat < pool.size ∧ ¬ pool.IsShadowed index := by
  rw [held.hasEntry_iff, held.isShadowed_iff, UInt16.lt_iff_toNat_lt]
  constructor
  · rintro ⟨record, found⟩
    have bounds := recordAt_bounds found
    refine ⟨bounds.1, by omega, ?_⟩
    rintro ⟨before, wideRecord, next, foundBefore, wide⟩
    have nothing := recordAt_succ_of_wide foundBefore wide
    rw [next, found] at nothing
    cases nothing
  · rintro ⟨positive, inside, unshadowed⟩
    rcases recordAt_or_wide positive (show index.toNat ≤ (recordSlots records).length by omega) with
      found | ⟨record, found, wide⟩
    · exact found
    · refine absurd ⟨index.toNat - 1, record, ?_, found, wide⟩ unshadowed
      exact Nat.sub_add_cancel positive

/-- Where there is no entry, no look-up comes further than the offset. -/
theorem Held.offsetOf_of_not_hasEntry (held : pool.Held records) {index : UInt16}
    (absent : ¬ pool.HasEntry index) :
    pool.offsetOf index = .error (pool.noEntryError index) := by
  rw [held.hasEntry_iff] at absent
  have nothing : recordAt records index.toNat = none := by
    cases found : recordAt records index.toNat with
    | none => rfl
    | some record => exact absurd ⟨record, found⟩ absent
  unfold offsetOf noEntryError size
  rcases held.places index.toNat with ⟨outside, -⟩ | ⟨offset, known, places⟩
  · rw [outside, if_neg (by simpa using outside)]
  · rw [nothing] at places
    rw [known, if_pos (Array.getElem?_eq_some_iff.mp known).1]
    cases places
    rfl

theorem Held.getD_eq_zero_iff (held : pool.Held records) {index : Nat} :
    pool.offsets.getD index 0 = 0 ↔ recordAt records index = none := by
  rw [Array.getD_eq_getD_getElem?]
  rcases held.places index with ⟨outside, nothing⟩ | ⟨offset, known, places⟩
  · simp [outside, nothing]
  · rw [known, Option.getD_some]
    cases found : recordAt records index with
    | none =>
        rw [found] at places
        exact iff_of_true places rfl
    | some record =>
        rw [found] at places
        exact iff_of_false (Nat.ne_of_gt places.1) (by simp)

/-! ### The walk over the entries -/

/-- Where the walk stands behind the entries of `front`: at the last index that they take, or, if
the last one is wide, at the index in front of that. -/
def Stands (records front : List PoolRecord) (index : Nat) : Prop :=
  index = (recordSlots front).length ∨
    index + 1 = (recordSlots front).length ∧ recordAt records (index + 1) = none

theorem Held.next?_of_end (held : pool.Held records)
    (filled : max pool.size 1 = 1 + (recordSlots records).length) {index : Nat}
    (stands : Stands records records index) : pool.next? index = none := by
  unfold next?
  rcases stands with here | ⟨here, nothing⟩
  · rw [if_neg (by omega)]
  · have atEnd : ¬ (pool.offsets.getD (index + 1) 0 = 0 ∧ index + 1 < pool.size - 1) := by omega
    rw [if_pos (by omega)]
    simp only [if_neg atEnd, if_pos (held.getD_eq_zero_iff.mpr nothing)]

theorem Held.next?_of_record (held : pool.Held (front ++ record :: back))
    (filled : max pool.size 1 = 1 + (recordSlots (front ++ record :: back)).length) {index : Nat}
    (stands : Stands (front ++ record :: back) front index) :
    pool.next? index = some ((recordSlots front).length + 1) := by
  have positive := record.width_pos
  rw [recordSlots_append, recordSlots_cons, List.length_append, List.length_append,
    record.length_slots] at filled
  have present : ¬ pool.offsets.getD ((recordSlots front).length + 1) 0 = 0 := by
    rw [held.getD_eq_zero_iff, recordAt_eq_some_iff.mpr ⟨front, back, rfl, rfl⟩]
    simp
  unfold next?
  rw [if_pos (by rcases stands with here | ⟨here, -⟩ <;> omega)]
  rcases stands with rfl | ⟨here, nothing⟩
  · have direct : ¬ (pool.offsets.getD ((recordSlots front).length + 1) 0 = 0 ∧
        (recordSlots front).length + 1 < pool.size - 1) := fun skips => present skips.1
    simp only [if_neg direct, if_neg present]
  · rw [here, ← held.getD_eq_zero_iff] at nothing
    have skips : pool.offsets.getD (recordSlots front).length 0 = 0 ∧
        (recordSlots front).length < pool.size - 1 := ⟨nothing, by omega⟩
    simp only [here, if_pos skips, if_neg present]

/-- The walk comes from behind the entries of `front` to each of those behind them. -/
theorem Held.entriesFrom_eq (held : pool.Held (front ++ back))
    (filled : max pool.size 1 = 1 + (recordSlots (front ++ back)).length) {index : Nat}
    (stands : Stands (front ++ back) front index) (found : Array (Except ClassError PoolEntry)) :
    (pool.entriesFrom index found).toList =
      found.toList ++ (recordIndices ((recordSlots front).length + 1) back).map pool.entry := by
  induction back generalizing front index found with
  | nil =>
      rw [List.append_nil] at held filled stands
      have stops := held.next?_of_end filled stands
      rw [entriesFrom]
      split
      · simp [recordIndices]
      · rename_i next step
        rw [stops] at step
        cases step
  | cons record back ih =>
      have goesOn := held.next?_of_record filled stands
      have taken : (recordSlots (front ++ [record])).length =
          (recordSlots front).length + record.width := by
        rw [recordSlots_append, recordSlots_singleton, List.length_append, record.length_slots]
      have here : recordAt (front ++ record :: back) ((recordSlots front).length + 1) =
          some record := recordAt_eq_some_iff.mpr ⟨front, back, rfl, rfl⟩
      have standsBehind : Stands (front ++ record :: back) (front ++ [record])
          ((recordSlots front).length + 1) := by
        unfold Stands
        rw [taken, PoolRecord.width]
        split
        · rename_i wide
          exact .inr ⟨rfl, recordAt_succ_of_wide here wide⟩
        · exact .inl rfl
      rw [List.append_cons] at held filled standsBehind
      rw [entriesFrom]
      split
      · rename_i step
        rw [goesOn] at step
        cases step
      · rename_i next step
        rw [goesOn] at step
        cases step
        rw [ih held filled standsBehind, taken, recordIndices, Array.toList_push, List.map_cons,
          List.append_assoc, List.singleton_append, Nat.add_right_comm]

/-! ### The bytes of the entries -/

theorem toNat_index {front back : List PoolRecord} {record : PoolRecord}
    (small : 1 + (recordSlots (front ++ record :: back)).length ≤ 65535) :
    ((recordSlots front).length + 1).toUInt16.toNat = (recordSlots front).length + 1 := by
  rw [recordSlots_append, List.length_append] at small
  simp
  omega

theorem Held.encoding_eq_ok (held : pool.Held (front ++ record :: back))
    (small : 1 + (recordSlots (front ++ record :: back)).length ≤ 65535) :
    pool.encoding ((recordSlots front).length + 1).toUInt16 = .ok record.bytes := by
  have found : recordAt (front ++ record :: back)
      ((recordSlots front).length + 1).toUInt16.toNat = some record := by
    rw [toNat_index small]
    exact recordAt_eq_some_iff.mpr ⟨front, back, rfl, rfl⟩
  rw [encoding, held.rawEntry_eq_ok found]
  rfl

theorem offsetOf_eq_ok_of_recordOffsets
    (offsets : pool.offsets.toList.tail = recordOffsets firstOffset (front ++ record :: back))
    (small : 1 + (recordSlots (front ++ record :: back)).length ≤ 65535) :
    pool.offsetOf ((recordSlots front).length + 1).toUInt16 =
      .ok (firstOffset + (recordBytes front).length) := by
  have known : pool.offsets[(recordSlots front).length + 1]? =
      some (firstOffset + (recordBytes front).length) := by
    rw [← recordOffsets_getElem? firstOffset front record back, ← offsets]
    simp
  -- No entry has the offset zero, which stands for none.
  have positive : firstOffset + (recordBytes front).length ≠ 0 := by
    unfold firstOffset
    omega
  unfold offsetOf
  rw [toNat_index small, known]
  split
  · rename_i zero
    exact absurd (Option.some.inj zero) positive
  · rename_i offset isOffset
    rw [Option.some.inj isOffset]
  · rename_i none
    cases none

theorem Held.mapM_encoding (held : pool.Held (front ++ back))
    (small : 1 + (recordSlots (front ++ back)).length ≤ 65535) :
    (recordIndices ((recordSlots front).length + 1) back).mapM pool.encoding =
      .ok (back.map PoolRecord.bytes) := by
  rw [mapM_eq_ok]
  induction back generalizing front with
  | nil => exact List.Forall₂.nil
  | cons record back ih =>
      refine List.Forall₂.cons (held.encoding_eq_ok small) ?_
      rw [List.append_cons] at held small
      have rest := ih held small
      rw [recordSlots_append, recordSlots_singleton, List.length_append, record.length_slots,
        Nat.add_right_comm] at rest
      exact rest

theorem recordBytes_append_singleton (front : List PoolRecord) (record : PoolRecord) :
    recordBytes (front ++ [record]) = recordBytes front ++ record.bytes := by
  simp [recordBytes]

theorem Held.tiles (held : pool.Held (front ++ back))
    (offsets : pool.offsets.toList.tail = recordOffsets firstOffset (front ++ back))
    (small : 1 + (recordSlots (front ++ back)).length ≤ 65535) :
    pool.Tiles (firstOffset + (recordBytes front).length)
      (recordIndices ((recordSlots front).length + 1) back)
      (firstOffset + (recordBytes (front ++ back)).length) := by
  induction back generalizing front with
  | nil =>
      rw [List.append_nil]
      exact Tiles.nil _
  | cons record back ih =>
      refine Tiles.cons (offsetOf_eq_ok_of_recordOffsets offsets small)
        (held.encoding_eq_ok small) ?_
      rw [List.append_cons] at held offsets small ⊢
      have rest := ih held offsets small
      rw [recordSlots_append, recordSlots_singleton, List.length_append, record.length_slots,
        Nat.add_right_comm, recordBytes_append_singleton, List.length_append,
        ← Nat.add_assoc] at rest
      exact rest

end Held

/-- The entries of a pool that was read fill the bytes between its first offset and its end. -/
theorem exists_isTiled {input : Input} {pool : Pool} (parsed : ofInput? input = .ok pool)
    (inside : pool.stop ≤ input.size) : ∃ indices, pool.IsTiled indices := by
  rcases exists_records_of_ofInput? parsed inside with
    ⟨records, held, offsets, stand, stop, filled, bound⟩
  have small : 1 + (recordSlots records).length ≤ 65535 := by omega
  refine ⟨recordIndices 1 records, ?_⟩
  constructor
  case increasing => exact recordIndices_pairwise small
  case complete =>
    intro index
    rw [mem_recordIndices_one small, held.hasEntry_iff]
  case unshadowed =>
    intro index
    exact held.hasEntry_iff_unshadowed filled
  case contiguous =>
    rw [stop]
    exact @Held.tiles pool [] records held offsets small
  case covered =>
    have filledBytes : firstOffset + (pool.stop - firstOffset) = pool.stop := by omega
    have sameInput := input_of_ofInput? parsed
    have sliced : pool.rawBytes = .ok ⟨pool.input.data.extract firstOffset pool.stop⟩ := by
      rw [rawBytes, Input.slice, filledBytes, if_pos (sameInput ▸ inside)]
    refine ⟨_, _, @Held.mapM_encoding pool [] records held small, sliced, ?_⟩
    rw [Input.toList_extract, sameInput, stop, Nat.add_sub_cancel_left, stand.take_drop]
    rfl
  case absent =>
    intro index absent
    have missing := held.offsetOf_of_not_hasEntry absent
    simp only [rawEntry, Pool.tag, entry, bodyOf, missing, error_bind, implies_true, and_self]
  case listed =>
    exact @Held.entriesFrom_eq pool [] records held filled 0 (.inl rfl) #[]

/-- The entries of a pool that ends with a long number. -/
def endingWide : List PoolRecord :=
  [⟨.utf8, [0, 1, 0x41], 1, by decide, rfl⟩, ⟨.classRef, [0, 1], rfl⟩,
    ⟨.long, [0, 0, 0, 0, 0, 0, 0, 42], rfl⟩]

/-- A file with just that pool. -/
def endingWideInput : Input :=
  ⟨⟨#[0xCA, 0xFE, 0xBA, 0xBE, 0, 0, 0, 52, 0, 5, 1, 0, 1, 0x41, 7, 0, 1,
    5, 0, 0, 0, 0, 0, 0, 0, 42]⟩⟩

theorem exists_isTiled_endingWide :
    ∃ pool indices, ofInput? endingWideInput = .ok pool ∧ pool.size = 5 ∧
      pool.IsTiled indices := by
  have held : endingWideInput.HasAt 8 (bigEndian16 5 ++ recordBytes endingWide) := by
    exact List.prefix_refl _
  rcases ofInput?_of_hasAt (by decide) held with ⟨pool, parsed, -, size, stop, -⟩
  have inside : pool.stop ≤ endingWideInput.size := by
    rw [stop]
    decide
  rcases exists_isTiled parsed inside with ⟨indices, tiled⟩
  exact ⟨pool, indices, parsed, size, tiled⟩

end Pool

end ClassFile
