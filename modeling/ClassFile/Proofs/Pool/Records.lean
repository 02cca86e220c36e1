import ClassFile.Proofs.Pool.Keys
import Mathlib.Algebra.Ring.Nat

/-!
# The entries of a pool as a list

A pool in a file is a list of records, each a tag and a body of the right length.  The records take
the indices from 1 on, one or two each (`PoolRecord.slots`), and `recordAt` looks one up.

The search for the entries succeeds exactly on the bytes of such a list (`findEntries_of_hasAt`,
`exists_records_of_findEntries`), and the pool then has the keys of the records (`Held.hasKey_iff`).
-/

namespace ClassFile

namespace PoolTag

/-- Whether `body` has the length of the body of an entry of the kind. -/
def IsSized (tag : PoolTag) (body : List UInt8) : Prop :=
  match tag.bodySize? with
  | some size => body.length = size
  | none => ∃ length : UInt16, bigEndian16 length <+: body ∧ body.length = 2 + length.toNat

theorem IsSized.bodySize_eq_ok {tag : PoolTag} {body : List UInt8} (sized : tag.IsSized body)
    {input : Input} {offset : Nat} (held : input.HasAt offset body) :
    Pool.bodySize input tag offset = .ok body.length := by
  unfold IsSized at sized
  unfold Pool.bodySize
  cases known : tag.bodySize? with
  | some size =>
      simp only [known] at sized ⊢
      rw [sized]
  | none =>
      simp only [known] at sized ⊢
      rcases sized with ⟨length, starts, total⟩
      rw [Input.HasAt.u16 (starts.trans held), total]
      rfl

/-- The body that a file has where one of the kind is expected. -/
theorem exists_body {tag : PoolTag} {input : Input} {offset size : Nat}
    (found : Pool.bodySize input tag offset = .ok size) (inside : offset + size ≤ input.size) :
    ∃ body, body.length = size ∧ input.HasAt offset body ∧ tag.IsSized body := by
  have whole : size ≤ (input.toList.drop offset).length := by
    rw [List.length_drop, ← Input.size_eq_length]
    omega
  refine ⟨(input.toList.drop offset).take size, List.length_take_of_le whole,
    List.take_prefix _ _, ?_⟩
  unfold Pool.bodySize at found
  unfold IsSized
  cases known : tag.bodySize? with
  | some fixed =>
      rw [known] at found
      cases found
      exact List.length_take_of_le whole
  | none =>
      simp only [known, map_eq_ok, Input.u16_eq_ok] at found
      rcases found with ⟨length, read, rfl⟩
      refine ⟨length, ?_, List.length_take_of_le whole⟩
      exact List.prefix_take_iff.mpr ⟨read, by simp⟩

/-- Two bodies of one kind at one place are the same. -/
theorem IsSized.unique {tag : PoolTag} {first second : List UInt8} (firstSized : tag.IsSized first)
    (secondSized : tag.IsSized second) {bytes : List UInt8} (firstStarts : first <+: bytes)
    (secondStarts : second <+: bytes) : first = second := by
  suffices same : first.length = second.length from
    (List.prefix_of_prefix_length_le firstStarts secondStarts (Nat.le_of_eq same)).eq_of_length same
  unfold IsSized at firstSized secondSized
  split at firstSized
  · rename_i size known
    rw [known] at secondSized
    rw [firstSized, secondSized]
  · rename_i unknown
    rw [unknown] at secondSized
    rcases firstSized with ⟨length, lengthStarts, total⟩
    rcases secondSized with ⟨otherLength, otherStarts, otherTotal⟩
    have equal : length = otherLength :=
      bigEndian16_injective (List.IsPrefix.eq_of_length
        (List.prefix_of_prefix_length_le (lengthStarts.trans firstStarts)
          (otherStarts.trans secondStarts) (by simp)) (by simp))
    rw [total, otherTotal, equal]

end PoolTag

namespace PoolKey

theorem IsBody.sized {key : PoolKey} {body : List UInt8} (stored : key.IsBody body) :
    key.tag.IsSized body := by
  cases key with
  | utf8 text =>
      rcases stored with ⟨stored, bound, rfl, -⟩
      refine ⟨stored.length.toUInt16, List.prefix_append _ _, ?_⟩
      simp
      omega
  | _ =>
      cases stored
      rfl

theorem whole_of_hasAt {body bytes : List UInt8}
    (held : (Input.mk ⟨body.toArray⟩).HasAt 0 bytes) (length : body.length = bytes.length) :
    body = bytes :=
  (List.IsPrefix.eq_of_length held length.symm).symm

/-- A body of the right length is that of the key that is read from it. -/
theorem ofBody_eq_ok {tag : PoolTag} {body : List UInt8} (sized : tag.IsSized body)
    {key : PoolKey} :
    ofBody tag ⟨⟨body.toArray⟩⟩ = .ok key ↔ key.tag = tag ∧ key.IsBody body := by
  constructor
  · intro read
    cases tag with
    | utf8 => 
        simp only [ofBody] at read
        split at read
        · rename_i text decoded
          cases read
          rcases sized with ⟨length, starts, total⟩
          rcases starts with ⟨stored, rfl⟩
          have bound := length.toNat_lt
          simp only [List.length_append, length_bigEndian16] at total
          refine ⟨rfl, stored, by omega, ?_, by simpa [Input.toList, bigEndian16] using decoded⟩
          rw [show stored.length.toUInt16 = length from UInt16.toNat_inj.mp (by simp; omega)]
        · cases read
    | integer | float | long | double | classRef | string | methodType | moduleRef | packageRef =>
        simp only [ofBody, bind_eq_ok, pure_eq_ok, Input.u16_eq_ok, Input.u32_eq_ok,
          Input.u64_eq_ok, Input.i32_eq_ok, Input.i64_eq_ok] at read
        rcases read with ⟨value, got, rfl⟩
        exact ⟨rfl, whole_of_hasAt got sized⟩
    | fieldRef | methodRef | interfaceMethodRef | nameAndType | dynamic | invokeDynamic =>
        simp only [ofBody, bind_eq_ok, pure_eq_ok, Input.u16_eq_ok] at read
        rcases read with ⟨first, gotFirst, second, gotSecond, rfl⟩
        exact ⟨rfl, whole_of_hasAt (Input.hasAt_append.mpr ⟨gotFirst, gotSecond⟩) sized⟩
    | methodHandle =>
        simp only [ofBody, bind_eq_ok, pure_eq_ok, Input.u16_eq_ok, Input.u8_eq_ok] at read
        rcases read with ⟨first, gotFirst, second, gotSecond, rfl⟩
        exact ⟨rfl, whole_of_hasAt (Input.hasAt_append.mpr ⟨gotFirst, gotSecond⟩) sized⟩
  · rintro ⟨rfl, stored⟩
    have whole : (Input.mk ⟨body.toArray⟩).HasAt 0 body := List.prefix_refl _
    cases key with
    | utf8 text =>
        rcases stored with ⟨stored, -, rfl, decoded⟩
        simp [ofBody, tag, Input.toList, bigEndian16, decoded, pure, Except.pure]
    | integer =>
        cases stored
        exact bind_eq_ok.mpr ⟨_, Input.i32_eq_ok.mpr whole, rfl⟩
    | float =>
        cases stored
        exact bind_eq_ok.mpr ⟨_, Input.u32_eq_ok.mpr whole, rfl⟩
    | long =>
        cases stored
        exact bind_eq_ok.mpr ⟨_, Input.i64_eq_ok.mpr whole, rfl⟩
    | double =>
        cases stored
        exact bind_eq_ok.mpr ⟨_, Input.u64_eq_ok.mpr whole, rfl⟩
    | classRef | string | methodType | moduleRef | packageRef =>
        cases stored
        exact bind_eq_ok.mpr ⟨_, Input.u16_eq_ok.mpr whole, rfl⟩
    | fieldRef | methodRef | interfaceMethodRef | nameAndType | dynamic | invokeDynamic =>
        cases stored
        exact bind_eq_ok.mpr ⟨_, Input.u16_eq_ok.mpr whole.left, bind_eq_ok.mpr
          ⟨_, Input.u16_eq_ok.mpr whole.right, rfl⟩⟩
    | methodHandle =>
        cases stored
        exact bind_eq_ok.mpr ⟨_, Input.u8_eq_ok.mpr whole.left, bind_eq_ok.mpr
          ⟨_, Input.u16_eq_ok.mpr whole.right, rfl⟩⟩

end PoolKey

/-- An entry of a pool as a file has it. -/
structure PoolRecord where
  tag : PoolTag
  body : List UInt8
  sized : tag.IsSized body

namespace PoolRecord

/-- The bytes of the entry. -/
def bytes (record : PoolRecord) : List UInt8 :=
  record.tag.code :: record.body

/-- The number of indices that the entry takes. -/
def width (record : PoolRecord) : Nat :=
  if record.tag.isWide then 2 else 1

/-- The indices that the entry takes: its own, and an empty one behind a wide entry. -/
def slots (record : PoolRecord) : List (Option PoolRecord) :=
  some record :: if record.tag.isWide then [none] else []

/-- Whether the entry is one with the key. -/
def HasKey (record : PoolRecord) (key : PoolKey) : Prop :=
  key.tag = record.tag ∧ key.IsBody record.body

/-- The entry for a key with a given body. -/
def ofBody (key : PoolKey) (body : List UInt8) (stored : key.IsBody body) : PoolRecord :=
  ⟨key.tag, body, stored.sized⟩

@[simp]
theorem length_bytes (record : PoolRecord) : record.bytes.length = 1 + record.body.length := by
  simp [bytes, Nat.add_comm]

theorem length_slots (record : PoolRecord) : record.slots.length = record.width := by
  unfold slots width
  split <;> rfl

theorem HasKey.unique {record : PoolRecord} {first second : PoolKey} (has : record.HasKey first)
    (alsoHas : record.HasKey second) : first = second := by
  have read := (PoolKey.ofBody_eq_ok record.sized).mpr has
  rw [(PoolKey.ofBody_eq_ok record.sized).mpr alsoHas] at read
  exact (Except.ok.inj read).symm

theorem hasAt_bytes {record : PoolRecord} {input : Input} {offset : Nat} :
    input.HasAt offset record.bytes ↔
      input.HasAt offset [record.tag.code] ∧ input.HasAt (offset + 1) record.body :=
  @Input.hasAt_append input offset [record.tag.code] record.body

end PoolRecord

/-- The bytes of a list of entries. -/
def recordBytes (records : List PoolRecord) : List UInt8 :=
  records.flatMap PoolRecord.bytes

/-- The indices from 1 on, each with the entry that starts there. -/
def recordSlots (records : List PoolRecord) : List (Option PoolRecord) :=
  records.flatMap PoolRecord.slots

/-- The offsets of the indices from 1 on if the first entry starts at `offset`, zero for an index
without an entry. -/
def recordOffsets (offset : Nat) : List PoolRecord → List Nat
  | [] => []
  | record :: rest =>
      (offset :: if record.tag.isWide then [0] else []) ++
        recordOffsets (offset + record.bytes.length) rest

/-- The entry with a given index. -/
def recordAt (records : List PoolRecord) : (index : Nat) → Option PoolRecord
  | 0 => none
  | index + 1 => (recordSlots records)[index]?.join

section Lists

variable {records : List PoolRecord}

theorem recordSlots_cons (record : PoolRecord) (rest : List PoolRecord) :
    recordSlots (record :: rest) = record.slots ++ recordSlots rest :=
  List.flatMap_cons

theorem recordBytes_cons (record : PoolRecord) (rest : List PoolRecord) :
    recordBytes (record :: rest) = record.bytes ++ recordBytes rest :=
  List.flatMap_cons

theorem recordSlots_append (first second : List PoolRecord) :
    recordSlots (first ++ second) = recordSlots first ++ recordSlots second :=
  List.flatMap_append

@[simp]
theorem recordSlots_singleton (record : PoolRecord) : recordSlots [record] = record.slots := by
  simp [recordSlots]

theorem length_recordSlots (records : List PoolRecord) :
    (recordSlots records).length = (records.map PoolRecord.width).sum := by
  simp [recordSlots, List.length_flatMap, PoolRecord.length_slots]

theorem recordAt_bounds {index : Nat} {record : PoolRecord}
    (found : recordAt records index = some record) :
    0 < index ∧ index ≤ (recordSlots records).length := by
  cases index with
  | zero => cases found
  | succ place =>
      rw [recordAt, Option.join_eq_some_iff] at found
      have inside := (List.getElem?_eq_some_iff.mp found).1
      omega

theorem recordAt_mem {index : Nat} {record : PoolRecord}
    (found : recordAt records index = some record) : record ∈ records := by
  cases index with
  | zero => cases found
  | succ place =>
      rw [recordAt, Option.join_eq_some_iff] at found
      rcases List.mem_flatMap.mp (List.mem_of_getElem? found) with ⟨owner, inside, taken⟩
      unfold PoolRecord.slots at taken
      split at taken <;> simp at taken <;> exact taken ▸ inside

theorem recordAt_append {index : Nat} {record : PoolRecord}
    (found : recordAt records index = some record) (more : List PoolRecord) :
    recordAt (records ++ more) index = some record := by
  have bounds := recordAt_bounds found
  cases index with
  | zero => cases found
  | succ place =>
      rw [recordAt, recordSlots_append, List.getElem?_append_left (by omega)]
      exact found

/-- The new entry of a longer list has the first free index. -/
theorem recordAt_concat {index : Nat} {record found : PoolRecord} :
    recordAt (records ++ [record]) index = some found ↔
      recordAt records index = some found ∨
        index = (recordSlots records).length + 1 ∧ found = record := by
  cases index with
  | zero => simp [recordAt]
  | succ place =>
      simp only [recordAt, recordSlots_append, recordSlots_singleton, Option.join_eq_some_iff]
      rcases Nat.lt_trichotomy place (recordSlots records).length with before | here | behind
      · rw [List.getElem?_append_left before]
        simp [Nat.ne_of_lt before]
      · subst here
        have start : record.slots[0]? = some (some record) := rfl
        rw [List.getElem?_append_right (Nat.le_refl _), Nat.sub_self, start]
        simp [@eq_comm _ record]
      · have nothing : (recordSlots records)[place]? = none := by
          simpa using Nat.le_of_lt behind
        have empty : record.slots[place - (recordSlots records).length]? ≠ some (some found) := by
          rcases Nat.exists_eq_add_of_lt behind with ⟨further, rfl⟩
          rw [show (recordSlots records).length + further + 1 - (recordSlots records).length =
            further + 1 by omega, PoolRecord.slots]
          split
          · cases further <;> simp
          · simp
        rw [List.getElem?_append_right (Nat.le_of_lt behind), nothing]
        simp [empty, Nat.ne_of_gt behind]

end Lists

namespace Pool

/-- Whether an offset that a pool has for an index is that of the entry there. -/
def Places (input : Input) (offset : Nat) : Option PoolRecord → Prop
  | none => offset = 0
  | some record => 0 < offset ∧ input.HasAt offset record.bytes

/-- Whether the entries of a pool are these. -/
structure Held (pool : Pool) (records : List PoolRecord) : Prop where
  /-- There is no entry with index 0. -/
  first : ∀ offset, pool.offsets[0]? = some offset → offset = 0
  rest : List.Forall₂ (Places pool.input) pool.offsets.toList.tail (recordSlots records)

section Search

variable {input : Input}

theorem places_slots {record : PoolRecord} {offset : Nat} (behind : 0 < offset)
    (held : input.HasAt offset record.bytes) :
    List.Forall₂ (Places input) (offset :: if record.tag.isWide then [0] else []) record.slots := by
  refine List.Forall₂.cons ⟨behind, held⟩ ?_
  split
  · exact List.Forall₂.cons rfl List.Forall₂.nil
  · exact List.Forall₂.nil

/-- One step of the search, where an entry stands that fits into the count. -/
theorem findEntries_step {record : PoolRecord} {count index offset : Nat} {offsets : Array Nat}
    (held : input.HasAt offset record.bytes) (fits : index + record.width ≤ count) :
    findEntries input count index offset offsets =
      findEntries input count (index + record.width) (offset + record.bytes.length)
        (offsets ++ (offset :: if record.tag.isWide then [0] else []).toArray) := by
  rcases PoolRecord.hasAt_bytes.mp held with ⟨tagged, body⟩
  unfold PoolRecord.width at fits ⊢
  rw [findEntries, if_pos (by split at fits <;> omega), tagAt_eq_ok.mpr tagged, ok_bind]
  rw [record.sized.bodySize_eq_ok body, PoolRecord.length_bytes]
  cases wide : record.tag.isWide with
  | true =>
      rw [wide, if_pos rfl] at fits
      have pushed : (offsets.push offset).push 0 = offsets ++ #[offset, 0] := by
        simp [← Array.toList_inj]
      simp [show ¬ count ≤ index + 1 by omega, Nat.add_assoc, pushed]
  | false => simp [Nat.add_assoc]

theorem places_recordOffsets {records : List PoolRecord} {offset : Nat} (behind : 0 < offset)
    (held : input.HasAt offset (recordBytes records)) :
    List.Forall₂ (Places input) (recordOffsets offset records) (recordSlots records) := by
  induction records generalizing offset with
  | nil => exact List.Forall₂.nil
  | cons record rest ih =>
      rw [recordBytes_cons] at held
      rw [recordSlots_cons]
      exact List.rel_append (places_slots behind held.left) (ih (by omega) held.right)

/-- Entries that stand one after the other and fill the count are found. -/
theorem findEntries_of_hasAt {records : List PoolRecord} {count index offset : Nat}
    {offsets : Array Nat} (held : input.HasAt offset (recordBytes records))
    (filled : index + (recordSlots records).length = count) :
    findEntries input count index offset offsets =
      .ok (offsets ++ (recordOffsets offset records).toArray,
        offset + (recordBytes records).length) := by
  induction records generalizing index offset offsets with
  | nil =>
      rw [findEntries, if_neg (by simp [recordSlots] at filled; omega)]
      simp [recordBytes, recordOffsets]
  | cons record rest ih =>
      rw [recordBytes_cons] at held ⊢
      rw [recordSlots_cons, List.length_append, record.length_slots] at filled
      rw [findEntries_step held.left (by omega), ih held.right (by omega), recordOffsets,
        ← List.append_toArray, ← Array.append_assoc, List.length_append, Nat.add_assoc]

/-- Where the search succeeds inside the input, entries stand that fill the count. -/
theorem exists_records_of_findEntries {count index offset stop : Nat} {offsets all : Array Nat}
    (found : findEntries input count index offset offsets = .ok (all, stop))
    (inside : stop ≤ input.size) :
    ∃ records, input.HasAt offset (recordBytes records) ∧
      stop = offset + (recordBytes records).length ∧
      (index ≤ count → index + (recordSlots records).length = count) := by
  induction left : count - index using Nat.strongRecOn
    generalizing index offset offsets with
  | ind left ih =>
      rw [findEntries] at found
      split at found
      · rename_i more
        simp only [bind_eq_ok, tagAt_eq_ok] at found
        rcases found with ⟨tag, tagged, found⟩
        split at found
        · cases found
        · rename_i fits
          simp only [bind_eq_ok] at found
          rcases found with ⟨size, sized, found⟩
          -- Both kinds of step go on behind the body, one or two indices further.
          have further : ∃ width, width = (if tag.isWide then 2 else 1) ∧
              ∃ offsets, findEntries input count (index + width) (offset + 1 + size) offsets =
                .ok (all, stop) := by
            split at found
            · rename_i wide
              exact ⟨2, by simp [wide], _, found⟩
            · rename_i narrow
              exact ⟨1, by simp [narrow], _, found⟩
          rcases further with ⟨width, isWidth, offsets, foundRest⟩
          have positive : 0 < width := by split at isWidth <;> omega
          rcases ih (count - (index + width)) (by omega) foundRest rfl with
            ⟨rest, heldRest, stops, filled⟩
          rcases PoolTag.exists_body sized (by omega) with ⟨body, length, held, bodySized⟩
          refine ⟨⟨tag, body, bodySized⟩ :: rest, ?_, ?_, ?_⟩
          · rw [recordBytes_cons, Input.hasAt_append, PoolRecord.hasAt_bytes,
              PoolRecord.length_bytes]
            refine ⟨⟨tagged, held⟩, ?_⟩
            rw [length, ← Nat.add_assoc]
            exact heldRest
          · rw [recordBytes_cons, List.length_append, PoolRecord.length_bytes]
            simp only [length]
            omega
          · intro _
            have within : index + width ≤ count := by
              simp only [Bool.and_eq_true, decide_eq_true_eq, not_and] at fits
              split at isWidth
              · rename_i wide
                have room := fits wide
                omega
              · omega
            rw [recordSlots_cons, List.length_append, PoolRecord.length_slots, PoolRecord.width,
              ← isWidth, ← filled within, Nat.add_assoc]
      · rename_i done
        cases found
        exact ⟨[], List.nil_prefix, rfl, fun before => by simp [recordSlots]; omega⟩

end Search

section Held

variable {pool : Pool} {records : List PoolRecord}

theorem held_of_offsets (offsets : pool.offsets = #[0] ++ (recordOffsets firstOffset records).toArray)
    (stand : pool.input.HasAt firstOffset (recordBytes records)) : pool.Held records := by
  constructor
  · intro offset isFirst
    rw [offsets, Array.getElem?_append_left (by simp)] at isFirst
    simpa [eq_comm] using isFirst
  · simpa [offsets] using places_recordOffsets (by decide) stand

/-- The offset that a pool has for an index is none, zero or that of the entry there. -/
theorem Held.places (held : pool.Held records) (index : Nat) :
    (pool.offsets[index]? = none ∧ recordAt records index = none) ∨
      ∃ offset, pool.offsets[index]? = some offset ∧
        Places pool.input offset (recordAt records index) := by
  cases index with
  | zero =>
      cases found : pool.offsets[0]? with
      | none => exact .inl ⟨rfl, rfl⟩
      | some offset => exact .inr ⟨offset, rfl, held.first offset found⟩
  | succ place =>
      have tail : pool.offsets[place + 1]? = pool.offsets.toList.tail[place]? := by simp
      rw [tail, recordAt]
      rcases getElem?_of_forall₂ held.rest place with
        ⟨none, alsoNone⟩ | ⟨offset, slot, found, slotFound, places⟩
      · exact .inl ⟨none, by simp [alsoNone]⟩
      · exact .inr ⟨offset, found, by simpa [slotFound] using places⟩

theorem Held.offsetOf_of_recordAt (held : pool.Held records) {index : UInt16} {record : PoolRecord}
    (found : recordAt records index.toNat = some record) :
    ∃ offset, pool.offsetOf index = .ok offset ∧ pool.input.HasAt offset record.bytes := by
  rcases held.places index.toNat with ⟨-, none⟩ | ⟨offset, known, places⟩
  · simp [found] at none
  · rw [found] at places
    refine ⟨offset, ?_, places.2⟩
    unfold offsetOf
    rw [known]
    cases offset with
    | zero => exact absurd places.1 (by simp)
    | succ _ => rfl

theorem Held.recordAt_of_offsetOf (held : pool.Held records) {index : UInt16} {offset : Nat}
    (known : pool.offsetOf index = .ok offset) :
    ∃ record, recordAt records index.toNat = some record ∧
      pool.input.HasAt offset record.bytes := by
  unfold offsetOf at known
  rcases held.places index.toNat with ⟨none, -⟩ | ⟨place, found, places⟩
  · rw [none] at known
    cases known
  · rw [found] at known
    cases entry : recordAt records index.toNat with
    | none =>
        rw [entry] at places
        cases places
        cases known
    | some record =>
        rw [entry] at places
        cases place with
        | zero => cases known
        | succ _ =>
            cases known
            exact ⟨record, rfl, places.2⟩

/-- A pool has the keys of its entries. -/
theorem Held.hasKey_iff (held : pool.Held records) {index : UInt16} {key : PoolKey} :
    pool.HasKey index key ↔ ∃ record, recordAt records index.toNat = some record ∧
      record.HasKey key := by
  constructor
  · rintro ⟨offset, body, known, tagged, bodyHeld, stored⟩
    rcases held.recordAt_of_offsetOf known with ⟨record, found, recordHeld⟩
    rcases PoolRecord.hasAt_bytes.mp recordHeld with ⟨recordTagged, recordBody⟩
    have same : key.tag = record.tag := by
      have read := tagAt_eq_ok.mpr tagged
      rw [tagAt_eq_ok.mpr recordTagged] at read
      exact (Except.ok.inj read).symm
    have bodySame : body = record.body :=
      (same ▸ stored.sized).unique record.sized bodyHeld recordBody
    exact ⟨record, found, same, bodySame ▸ stored⟩
  · rintro ⟨record, found, same, stored⟩
    rcases held.offsetOf_of_recordAt found with ⟨offset, known, recordHeld⟩
    rcases PoolRecord.hasAt_bytes.mp recordHeld with ⟨recordTagged, recordBody⟩
    exact ⟨offset, record.body, known, same ▸ recordTagged, recordBody, stored⟩

theorem Held.rawEntry_eq_ok (held : pool.Held records) {index : UInt16} {record : PoolRecord}
    (found : recordAt records index.toNat = some record) :
    pool.rawEntry index = .ok (record.tag, record.body) := by
  rcases held.offsetOf_of_recordAt found with ⟨offset, known, recordHeld⟩
  rcases PoolRecord.hasAt_bytes.mp recordHeld with ⟨tagged, body⟩
  have inside := tagged.stop_le (by simp)
  rw [rawEntry, known, ok_bind, tagAt_eq_ok.mpr tagged, ok_bind,
    record.sized.bodySize_eq_ok body, ok_bind, body.bytes inside, ok_bind]
  rfl

end Held

theorem input_of_ofInput? {input : Input} {pool : Pool} (parsed : ofInput? input = .ok pool) :
    pool.input = input := by
  simp only [ofInput?, bind_eq_ok, pure_eq_ok] at parsed
  rcases parsed with ⟨count, -, entries, -, rfl⟩
  rfl

/-- Where the bytes of a pool stand in a class file, they are read as that pool. -/
theorem ofInput?_of_hasAt {input : Input} {records : List PoolRecord} {count : UInt16}
    (filled : count.toNat = 1 + (recordSlots records).length)
    (held : input.HasAt 8 (bigEndian16 count ++ recordBytes records)) :
    ∃ pool, ofInput? input = .ok pool ∧ pool.input = input ∧ pool.size = count.toNat ∧
      pool.stop = firstOffset + (recordBytes records).length ∧ pool.Held records := by
  have stand : input.HasAt firstOffset (recordBytes records) := held.right
  refine ⟨⟨input, #[0] ++ (recordOffsets firstOffset records).toArray,
    firstOffset + (recordBytes records).length, #[]⟩, ?_, rfl, ?_, rfl, ?_⟩
  · have positive : ¬ count.toNat = 0 := by omega
    simp [ofInput?, held.left.u16, positive, findEntries_of_hasAt stand filled.symm]
  · have length := (places_recordOffsets (by decide) stand).length_eq
    simp only [Pool.size, Array.size_append, List.size_toArray, List.length_singleton, length,
      filled]
  · exact held_of_offsets rfl stand

/-- A pool that was read holds the entries that stand in the file, one behind the other. -/
theorem exists_records_of_ofInput? {input : Input} {pool : Pool}
    (parsed : ofInput? input = .ok pool) (inside : pool.stop ≤ input.size) :
    ∃ records, pool.Held records ∧ pool.offsets.toList.tail = recordOffsets firstOffset records ∧
      input.HasAt firstOffset (recordBytes records) ∧
      pool.stop = firstOffset + (recordBytes records).length ∧
      max pool.size 1 = 1 + (recordSlots records).length ∧ pool.size ≤ 65535 := by
  simp only [ofInput?, bind_eq_ok, pure_eq_ok] at parsed
  rcases parsed with ⟨count, -, ⟨offsets, stop⟩, found, rfl⟩
  by_cases none : count.toNat = 0
  · rw [findEntries, if_neg (by omega), if_pos none] at found
    cases found
    exact ⟨[], ⟨by simp, List.Forall₂.nil⟩, rfl, List.nil_prefix, rfl, rfl, Nat.zero_le _⟩
  · rw [if_neg none] at found
    rcases exists_records_of_findEntries found inside with ⟨records, held, stops, filled⟩
    have count_eq := filled (by omega)
    rw [findEntries_of_hasAt held count_eq] at found
    cases found
    have length := (places_recordOffsets (by decide) held).length_eq
    have bound := count.toNat_lt
    have size : (#[0] ++ (recordOffsets firstOffset records).toArray).size = count.toNat := by
      simp only [Array.size_append, List.size_toArray, List.length_singleton, length, count_eq]
    refine ⟨records, held_of_offsets rfl held, by simp, held, rfl, ?_⟩
    simp only [Pool.size, size]
    omega

end Pool

end ClassFile
