import ClassFile.Image
import ClassFile.Proofs.Pool.Content

/-!
# Starting from a pool that was read

A builder that starts from the pool of a class file holds its entries and its bootstrap methods
(`holds_ofPool`), so that every pool with at least what the builder holds extends the one that was
read.
-/

namespace ClassFile

/-- Whether the pool was read from its input, its bootstrap methods at any places. -/
def Pool.IsRead (pool : Pool) : Prop :=
  pool.bootstrapOffsets.size ≤ 65535 ∧
    ∃ parsed, Pool.ofInput? pool.input = .ok parsed ∧
      pool = { parsed with bootstrapOffsets := pool.bootstrapOffsets }

namespace Pool

theorem input_of_withBootstrapMethods {pool later : Pool} {offset : Nat}
    (found : pool.withBootstrapMethods offset = .ok later) : later.input = pool.input := by
  simp only [Pool.withBootstrapMethods, bind_eq_ok, pure_eq_ok] at found
  rcases found with ⟨count, -, places, -, rfl⟩
  rfl

theorem isRead_of_ofInput? {input : Input} {pool : Pool} (parsed : ofInput? input = .ok pool) :
    pool.IsRead := by
  have again := parsed
  simp only [ofInput?, bind_eq_ok, pure_eq_ok] at parsed
  rcases parsed with ⟨count, -, entries, -, rfl⟩
  exact ⟨Nat.zero_le _, _, again, rfl⟩

theorem IsRead.withBootstrapMethods {pool later : Pool} (isRead : pool.IsRead) {offset : Nat}
    (found : pool.withBootstrapMethods offset = .ok later) : later.IsRead := by
  simp only [Pool.withBootstrapMethods, bind_eq_ok, pure_eq_ok] at found
  rcases found with ⟨count, -, places, found, rfl⟩
  have bound := count.toNat_lt
  have size := size_findBootstrapMethods found
  rcases isRead.2 with ⟨parsed, read, same⟩
  refine ⟨?_, parsed, read, ?_⟩
  · simp only [size, List.size_toArray, List.length_nil]
    omega
  · rw [same]

end Pool

/-- The pool of a class file was read. -/
theorem ClassImage.isRead_pool {input : Input} {image : ClassImage}
    (read : ClassImage.ofInput? input = .ok image) : image.pool.IsRead := by
  have steps : ∀ (attributes : List RawAttribute) {pool later : Pool}, pool.IsRead →
      withBootstrapMethods pool attributes = .ok later → later.IsRead := by
    intro attributes
    induction attributes with
    | nil =>
        intro pool later isRead done
        cases done
        exact isRead
    | cons entry rest ih =>
        intro pool later isRead done
        rw [withBootstrapMethods, List.foldlM_cons, bind_eq_ok] at done
        rcases done with ⟨next, step, others⟩
        refine ih ?_ others
        split at step
        · exact isRead.withBootstrapMethods step
        · cases step
          exact isRead
  rw [ClassImage.ofInput?, bind_eq_ok] at read
  rcases read with ⟨_, -, read⟩
  split at read
  · simp at read
  · rcases bind_eq_ok.mp read with ⟨major, -, read⟩
    rcases bind_eq_ok.mp read with ⟨minor, -, read⟩
    split at read
    · simp at read
    · simp only [bind_eq_ok, pure_eq_ok] at read
      rcases read with ⟨pool, parsed, -, -, -, -, -, -, attributes, -, later, done, rfl⟩
      exact steps attributes.1 (Pool.isRead_of_ofInput? parsed) done

namespace PoolBuilder

theorem recordAt_middle (before rest : List PoolRecord) (record : PoolRecord) :
    recordAt (before ++ record :: rest) (1 + (recordSlots before).length) = some record := by
  rw [Nat.add_comm, recordAt, recordSlots_append, List.getElem?_append_right (Nat.le_refl _),
    Nat.sub_self, recordSlots_cons]
  rfl

/-- The entries that are walked over have keys, and the map finds only entries of the pool. -/
theorem indexEntries_sound {pool : Pool} {records before rest : List PoolRecord} {index : Nat}
    {indices all : Std.HashMap PoolKey UInt16} (held : pool.Held records)
    (size : max pool.size 1 = 1 + (recordSlots records).length) (bound : pool.size ≤ 65535)
    (split : records = before ++ rest) (place : index = 1 + (recordSlots before).length)
    (sound : ∀ {key index}, indices[key]? = some index → pool.HasKey index key)
    (found : indexEntries pool index indices = .ok all) :
    (∀ record ∈ rest, ∃ key, record.HasKey key) ∧
      ∀ {key index}, all[key]? = some index → pool.HasKey index key := by
  induction rest generalizing before index indices with
  | nil =>
      rw [List.append_nil] at split
      subst split
      rw [indexEntries, if_neg (by omega)] at found
      cases found
      exact ⟨by simp, sound⟩
  | cons record rest ih =>
      have here : recordAt records index = some record := by
        rw [split, place]
        exact recordAt_middle before rest record
      have bounds := recordAt_bounds here
      have indexed : index.toUInt16.toNat = index := by
        simp
        omega
      rw [← indexed] at here
      rw [indexEntries, if_pos (by omega), held.rawEntry_eq_ok here, ok_bind, bind_eq_ok] at found
      rcases found with ⟨key, read, found⟩
      have hasKey : record.HasKey key := (PoolKey.ofBody_eq_ok record.sized).mp read
      have soundNext : ∀ {other place},
          (indices.insertIfNew key index.toUInt16)[other]? = some place →
            pool.HasKey place other := by
        intro other place known
        rw [Std.HashMap.getElem?_insertIfNew] at known
        split at known
        · rename_i new
          cases known
          rw [← eq_of_beq new.1]
          exact held.hasKey_iff.mpr ⟨record, here, hasKey⟩
        · exact sound known
      have next : indexEntries pool (index + record.width)
          (indices.insertIfNew key index.toUInt16) = .ok all := by
        unfold PoolRecord.width
        split at found
        · rename_i wide
          rw [if_pos wide]
          exact found
        · rename_i narrow
          rw [if_neg narrow]
          exact found
      rcases @ih (before ++ [record]) _ _ (by simp [split])
        (by simp [recordSlots_append, PoolRecord.length_slots, place, Nat.add_assoc]) soundNext next
        with ⟨decodes, soundAll⟩
      refine ⟨?_, soundAll⟩
      intro other member
      rcases List.mem_cons.mp member with rfl | inRest
      · exact ⟨key, hasKey⟩
      · exact decodes other inRest

/-- Whether `bootstraps` are the first bootstrap methods of the pool. -/
def Copies (pool : Pool) (bootstraps : List BootstrapRefs) : Prop :=
  ∀ (place : Nat) (refs : BootstrapRefs), bootstraps[place]? = some refs →
    pool.rawBootstrapMethod place.toUInt16 = .ok refs.bytes

theorem Copies.concat {pool : Pool} {bootstraps : List BootstrapRefs}
    (copies : Copies pool bootstraps) {refs : BootstrapRefs}
    (found : pool.rawBootstrapMethod bootstraps.length.toUInt16 = .ok refs.bytes) :
    Copies pool (bootstraps ++ [refs]) := by
  intro place other known
  rcases Nat.lt_trichotomy place bootstraps.length with before | rfl | behind
  · rw [List.getElem?_append_left before] at known
    exact copies place other known
  · rw [List.getElem?_append_right (Nat.le_refl _), Nat.sub_self] at known
    cases known
    exact found
  · rw [List.getElem?_eq_none (by simp; omega)] at known
    cases known

theorem holds_copyBootstraps {pool : Pool} {index count : Nat} {builder copied : PoolBuilder}
    {content : PoolContent} (held : builder.Holds content)
    (place : content.bootstraps.length = index) (bound : index + count ≤ 65535)
    (copies : Copies pool content.bootstraps)
    (copy : copyBootstraps pool index builder count = .ok copied) :
    ∃ bootstraps, copied.Holds ⟨content.records, bootstraps⟩ ∧
      bootstraps.length = index + count ∧ Copies pool bootstraps := by
  induction count generalizing index builder content with
  | zero =>
      cases copy
      exact ⟨content.bootstraps, held, place, copies⟩
  | succ count ih =>
      rw [copyBootstraps, bind_eq_ok] at copy
      rcases copy with ⟨bytes, found, copy⟩
      rcases Pool.exists_refs found with ⟨refs, rfl⟩
      have counted := held.bootstrapCount
      have next : builder.bootstrapCount = index.toUInt16 := by
        refine UInt16.toNat_inj.mp ?_
        simp [counted, place]
        omega
      have room : builder.bootstrapCount ≠ 65535 := by
        intro full
        rw [full, place] at counted
        simp at counted
        omega
      have pushed := @Holds.pushBootstrap builder content held refs
        (builder.bootstrapIndices.insertIfNew refs.bytes index.toUInt16) room (by
          intro other found known
          rw [Std.HashMap.getElem?_insertIfNew] at known
          split at known
          · rename_i new
            cases known
            exact .inr ⟨(eq_of_beq new.1).symm, next.symm⟩
          · exact .inl known)
      have length : (content.withBootstrap refs).bootstraps.length = index + 1 := by
        simp [PoolContent.withBootstrap, place]
      rw [← place] at found
      rcases ih pushed length (by omega) (copies.concat found) copy with
        ⟨bootstraps, holds, total, all⟩
      exact ⟨bootstraps, holds, by omega, all⟩

/-- A builder that starts from a pool holds what the pool has. -/
theorem holds_ofPool {pool : Pool} {builder : PoolBuilder} (isRead : pool.IsRead)
    (copied : ofPool pool = .ok builder) :
    ∃ content, builder.Holds content ∧
      ∀ later : Pool, later.Has content → pool.Extends later := by
  rcases isRead with ⟨bootstrapBound, parsed, read, same⟩
  have sameInput : pool.input = parsed.input := by rw [same]
  have sameOffsets : pool.offsets = parsed.offsets := by rw [same]
  have sameStop : pool.stop = parsed.stop := by rw [same]
  have sameSize : pool.size = parsed.size := by rw [Pool.size, sameOffsets, Pool.size]
  simp only [ofPool, Pool.rawBytes, Input.slice, bind_eq_ok] at copied
  rcases copied with ⟨bytes, sliced, indices, indexed, copied⟩
  split at sliced
  case isFalse => cases sliced
  case isTrue inside =>
    cases sliced
    rcases Pool.exists_records_of_ofInput? read (by omega) with
      ⟨records, heldParsed, -, stand, stops, size, bound⟩
    have heldPool : pool.Held records := by
      constructor
      · rw [sameOffsets]
        exact heldParsed.first
      · rw [sameOffsets, sameInput]
        exact heldParsed.rest
    rw [← sameSize] at size bound
    rcases @indexEntries_sound pool records [] records 1 ∅ indices heldPool size bound rfl rfl
      (by simp) indexed with ⟨decodes, sound⟩
    have start : Holds
        { empty with
          indices,
          entries := ⟨pool.input.data.extract Pool.firstOffset
            (Pool.firstOffset + (pool.stop - Pool.firstOffset))⟩,
          count := (max pool.size 1).toUInt16 } ⟨records, []⟩ :=
      { entries := by
          have extracted := Input.toList_extract pool.input Pool.firstOffset
            (Pool.firstOffset + (pool.stop - Pool.firstOffset))
          rw [sameStop, stops, Nat.add_sub_cancel_left, Nat.add_sub_cancel_left,
            stand.take_drop] at extracted
          rw [sameStop, stops, Nat.add_sub_cancel_left]
          exact extracted
        count := by
          simp only [← size]
          simp
          omega
        decodes := decodes
        indices := fun found => heldPool.hasKey_iff.mp (sound found)
        bootstraps := rfl
        bootstrapCount := rfl
        bootstrapIndices := by simp [empty] }
    rcases holds_copyBootstraps start rfl (by simpa using bootstrapBound) (by simp [Copies]) copied with
      ⟨bootstraps, holds, length, copies⟩
    refine ⟨_, holds, fun later has => ⟨fun found => ?_, fun {index refs} found => ?_⟩⟩
    · exact has.keys (heldPool.hasKey_iff.mp found)
    · rcases Pool.rawBootstrapMethod_eq_ok.mp found with ⟨offset, known, -⟩
      have inTable : index.toNat < bootstraps.length := by
        unfold Pool.bootstrapOffset at known
        split at known
        · rename_i place
          have inArray := (Array.getElem?_eq_some_iff.mp place).1
          omega
        · cases known
      have there := List.getElem?_eq_getElem inTable
      have again := copies _ _ there
      rw [show index.toNat.toUInt16 = index by simp, found] at again
      rw [← BootstrapRefs.bytes_injective (Except.ok.inj again)] at there
      exact has.bootstraps there

end PoolBuilder

end ClassFile
