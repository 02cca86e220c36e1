import ClassFile.Proofs.Pool.Constants
import ClassFile.Proofs.Pool.Records
import Std.Data.HashMap.Lemmas

/-!
# What a builder holds

A builder holds a list of records and a list of bootstrap methods (`PoolBuilder.Holds`): its bytes
are theirs, its counters count them, and its two maps find only what is there.  The invariant holds
at the start, for the empty builder (`holds_empty`), and every entry and every bootstrap method that
is appended keeps it (`Holds.push`, `Holds.pushBootstrap`).

The bytes of a builder are read as a pool with exactly its entries and bootstrap methods
(`Holds.parses`).
-/

namespace ClassFile

/-- Whether a text is read back from its stored form. -/
def Text.Survives (text : Text) : Prop :=
  Text.decode text.encode = .ok text

/-- Whether the texts of a member are read back. -/
structure MemberRef.Survives (member : MemberRef) : Prop where
  owner : member.owner.Survives
  name : member.name.Survives
  descriptor : member.descriptor.Survives

/-- Whether the handle is for an interface only if its kind allows that, and is if it has to be. -/
def Handle.Agrees (handle : Handle) : Prop :=
  match handle.kind with
  | .getField | .getStatic | .putField | .putStatic | .invokeVirtual | .newInvokeSpecial =>
      handle.isInterface = false
  | .invokeInterface => handle.isInterface = true
  | .invokeStatic | .invokeSpecial => True

/-- Whether a handle can be read back. -/
structure Handle.Storable (handle : Handle) : Prop where
  survives : MemberRef.Survives ⟨handle.owner, handle.name, handle.descriptor⟩
  agrees : handle.Agrees

namespace Constant

mutual

/-- How deep dynamic constants stand one inside the other. -/
def levels : Constant → Nat
  | .dynamic _ _ _ arguments => levelsOfAll arguments + 1
  | _ => 0

/-- How deep dynamic constants stand one inside the other in any of the constants. -/
def levelsOfAll : List Constant → Nat
  | [] => 0
  | value :: rest => max value.levels (levelsOfAll rest)

end

mutual

/-- Whether every text and every handle in the constant can be read back. -/
def Storable : Constant → Prop
  | .string text | .classRef text | .methodType text => text.Survives
  | .handle value => value.Storable
  | .dynamic name descriptor method arguments =>
      name.Survives ∧ descriptor.Survives ∧ method.Storable ∧ AllStorable arguments
  | .integer _ | .float _ | .long _ | .double _ => True

/-- Whether every text and every handle in the constants can be read back. -/
def AllStorable : List Constant → Prop
  | [] => True
  | value :: rest => value.Storable ∧ AllStorable rest

end

end Constant

namespace PoolKey

/-- Whether the text that the entry stores, if it stores one, is read back. -/
def Survives : PoolKey → Prop
  | .utf8 text => text.Survives
  | _ => True

/-- What is written behind the tag byte. -/
def body (key : PoolKey) : List UInt8 :=
  (key.writeBody .empty).toList

@[simp]
theorem toList_writeBody (key : PoolKey) (output : Output) :
    (key.writeBody output).toList = output.toList ++ key.body := by
  cases key <;> simp [body, writeBody]

theorem isBody_body {key : PoolKey} (survives : key.Survives) (short : key.overlong? = none) :
    key.IsBody key.body := by
  cases key with
  | utf8 text =>
      refine ⟨text.encode, ?_, by simp [body, writeBody], survives⟩
      simpa [overlong?] using short
  | _ => simp [IsBody, body, writeBody]

theorem tag_of_overlong {key : PoolKey} {size : Nat} (long : key.overlong? = some size) :
    key.tag = .utf8 := by
  cases key with
  | utf8 text => rfl
  | _ => cases long

/-- The indices of the entries that the entry refers to. -/
def references : PoolKey → List UInt16
  | .classRef index | .string index | .methodType index | .moduleRef index | .packageRef index
  | .methodHandle _ index | .dynamic _ index | .invokeDynamic _ index => [index]
  | .fieldRef first second | .methodRef first second | .interfaceMethodRef first second
  | .nameAndType first second => [first, second]
  | .utf8 _ | .integer _ | .float _ | .long _ | .double _ => []

/-- The index of the bootstrap method that the entry refers to. -/
def bootstrap? : PoolKey → Option UInt16
  | .dynamic index _ | .invokeDynamic index _ => some index
  | _ => none

end PoolKey

/-- The indices of the entries that the bootstrap method refers to. -/
def BootstrapRefs.references (refs : BootstrapRefs) : List UInt16 :=
  refs.handle :: refs.arguments

/-- Entries and bootstrap methods, in the order of their indices. -/
structure PoolContent where
  records : List PoolRecord
  bootstraps : List BootstrapRefs

namespace PoolContent

/-- Whether the entry with a given index has the key. -/
def HasKey (content : PoolContent) (index : UInt16) (key : PoolKey) : Prop :=
  ∃ record, recordAt content.records index.toNat = some record ∧ record.HasKey key

/-- Whether `later` starts with the same entries and the same bootstrap methods. -/
structure Grows (content later : PoolContent) : Prop where
  records : content.records <+: later.records
  bootstraps : content.bootstraps <+: later.bootstraps

theorem Grows.refl (content : PoolContent) : content.Grows content :=
  ⟨List.prefix_refl _, List.prefix_refl _⟩

theorem Grows.trans {first second third : PoolContent} (one : first.Grows second)
    (two : second.Grows third) : first.Grows third :=
  ⟨one.records.trans two.records, one.bootstraps.trans two.bootstraps⟩

theorem Grows.hasKey {content later : PoolContent} (grows : content.Grows later) {index : UInt16}
    {key : PoolKey} (has : content.HasKey index key) : later.HasKey index key := by
  rcases has with ⟨record, found, recordHas⟩
  rcases grows.records with ⟨more, split⟩
  exact ⟨record, split ▸ recordAt_append found more, recordHas⟩

theorem Grows.bootstrap {content later : PoolContent} (grows : content.Grows later) {place : Nat}
    {refs : BootstrapRefs} (found : content.bootstraps[place]? = some refs) :
    later.bootstraps[place]? = some refs := by
  rcases grows.bootstraps with ⟨more, split⟩
  rw [← split, List.getElem?_append_left (List.getElem?_eq_some_iff.mp found).1]
  exact found

/-- The content with one more entry. -/
def withRecord (content : PoolContent) (record : PoolRecord) : PoolContent :=
  { content with records := content.records ++ [record] }

/-- The content with one more bootstrap method. -/
def withBootstrap (content : PoolContent) (refs : BootstrapRefs) : PoolContent :=
  { content with bootstraps := content.bootstraps ++ [refs] }

theorem grows_withRecord (content : PoolContent) (record : PoolRecord) :
    content.Grows (content.withRecord record) :=
  ⟨List.prefix_append _ _, List.prefix_refl _⟩

theorem grows_withBootstrap (content : PoolContent) (refs : BootstrapRefs) :
    content.Grows (content.withBootstrap refs) :=
  ⟨List.prefix_refl _, List.prefix_append _ _⟩

end PoolContent

/-- Whether a pool has at least the content. -/
structure Pool.Has (pool : Pool) (content : PoolContent) : Prop where
  keys : ∀ {index key}, content.HasKey index key → pool.HasKey index key
  bootstraps : ∀ {index : UInt16} {refs}, content.bootstraps[index.toNat]? = some refs →
    pool.rawBootstrapMethod index = .ok refs.bytes

theorem Pool.Has.mono {pool : Pool} {content later : PoolContent} (has : pool.Has later)
    (grows : content.Grows later) : pool.Has content :=
  ⟨fun found => has.keys (grows.hasKey found),
    fun found => has.bootstraps (grows.bootstrap found)⟩

/-- Whether a pool has the content and nothing else. -/
structure Pool.Matches (pool : Pool) (content : PoolContent) : Prop where
  has : pool.Has content
  keys : ∀ {index key}, pool.HasKey index key → content.HasKey index key
  bootstraps : ∀ {index} {refs : BootstrapRefs},
    pool.rawBootstrapMethod index = .ok refs.bytes → content.bootstraps[index.toNat]? = some refs
  /-- Every entry has a key. -/
  entries : ∀ {index offset}, pool.offsetOf index = .ok offset → ∃ key, pool.HasKey index key

namespace PoolBuilder

/-- Whether the builder holds the content. -/
structure Holds (builder : PoolBuilder) (content : PoolContent) : Prop where
  entries : builder.entries.toList = recordBytes content.records
  count : builder.count.toNat = 1 + (recordSlots content.records).length
  decodes : ∀ record ∈ content.records, ∃ key, record.HasKey key
  indices : ∀ {key : PoolKey} {index : UInt16}, builder.indices[key]? = some index → content.HasKey index key
  bootstraps : builder.bootstraps.toList = content.bootstraps.flatMap BootstrapRefs.bytes
  bootstrapCount : builder.bootstrapCount.toNat = content.bootstraps.length
  bootstrapIndices : ∀ {bytes : List UInt8} {index : UInt16},
    builder.bootstrapIndices[bytes]? = some index →
      ∃ refs, content.bootstraps[index.toNat]? = some refs ∧ refs.bytes = bytes

/-- Whether `later` finds every entry and every bootstrap method where `builder` finds it. -/
structure Grows (builder later : PoolBuilder) : Prop where
  indices : ∀ {key : PoolKey} {index : UInt16}, builder.indices[key]? = some index →
    later.indices[key]? = some index
  bootstrapIndices : ∀ {bytes : List UInt8} {index : UInt16},
    builder.bootstrapIndices[bytes]? = some index →
      later.bootstrapIndices[bytes]? = some index

theorem Grows.refl (builder : PoolBuilder) : builder.Grows builder :=
  ⟨id, id⟩

theorem Grows.trans {first second third : PoolBuilder} (one : first.Grows second)
    (two : second.Grows third) : first.Grows third :=
  ⟨fun found => two.indices (one.indices found),
    fun found => two.bootstrapIndices (one.bootstrapIndices found)⟩

theorem holds_empty : empty.Holds ⟨[], []⟩ where
  entries := rfl
  count := rfl
  decodes := by simp
  indices := by simp [empty]
  bootstraps := rfl
  bootstrapCount := rfl
  bootstrapIndices := by simp [empty]

section Push

variable {builder : PoolBuilder} {content : PoolContent} (held : builder.Holds content)
include held

/-- A new entry takes the next index. -/
theorem Holds.push {key : PoolKey} (stored : key.IsBody key.body)
    (fits : builder.count.toNat + key.width ≤ 65535) :
    (builder.push key).Holds (content.withRecord (.ofBody key key.body stored)) where
  entries := by
    simp [PoolBuilder.push, held.entries, PoolContent.withRecord, recordBytes, PoolRecord.bytes,
      PoolRecord.ofBody]
  count := by
    have width : (PoolRecord.ofBody key key.body stored).slots.length = key.width :=
      PoolRecord.length_slots _
    have wide : key.width ≤ 2 := by
      unfold PoolKey.width
      split <;> omega
    rw [PoolContent.withRecord, recordSlots_append, recordSlots_singleton, List.length_append,
      width, ← Nat.add_assoc, ← held.count, PoolBuilder.push, UInt16.toNat_add]
    simp
    omega
  decodes := by
    intro record member
    rcases List.mem_append.mp member with old | new
    · exact held.decodes record old
    · rw [List.mem_singleton.mp new]
      exact ⟨key, rfl, stored⟩
  indices := by
    intro other index found
    simp only [PoolBuilder.push, Std.HashMap.getElem?_insert, beq_iff_eq] at found
    split at found
    · rename_i same
      cases found
      exact ⟨_, recordAt_concat.mpr (.inr ⟨by rw [held.count, Nat.add_comm], rfl⟩),
        same ▸ rfl, same ▸ stored⟩
    · exact (content.grows_withRecord _).hasKey (held.indices found)
  bootstraps := held.bootstraps
  bootstrapCount := held.bootstrapCount
  bootstrapIndices := held.bootstrapIndices

/-- A new bootstrap method takes the next index. -/
theorem Holds.pushBootstrap {refs : BootstrapRefs} {indices : Std.HashMap (List UInt8) UInt16}
    (fits : builder.bootstrapCount ≠ 65535)
    (known : ∀ {bytes : List UInt8} {index : UInt16}, indices[bytes]? = some index →
      builder.bootstrapIndices[bytes]? = some index ∨
        bytes = refs.bytes ∧ index = builder.bootstrapCount) :
    Holds
      { builder with
        bootstrapIndices := indices,
        bootstraps := builder.bootstraps.bytes refs.bytes,
        bootstrapCount := builder.bootstrapCount + 1 }
      (content.withBootstrap refs) where
  entries := held.entries
  count := held.count
  decodes := held.decodes
  indices := held.indices
  bootstraps := by simp [held.bootstraps, PoolContent.withBootstrap]
  bootstrapCount := by
    have bound := builder.bootstrapCount.toNat_lt
    have room : builder.bootstrapCount.toNat ≠ 65535 := fun full =>
      fits (UInt16.toNat_inj.mp full)
    simp only [PoolContent.withBootstrap, List.length_append, ← held.bootstrapCount,
      UInt16.toNat_add]
    simp
    omega
  bootstrapIndices := by
    intro bytes index found
    rcases known found with old | ⟨rfl, rfl⟩
    · rcases held.bootstrapIndices old with ⟨other, there, same⟩
      exact ⟨other, (content.grows_withBootstrap refs).bootstrap there, same⟩
    · exact ⟨refs, by simp [held.bootstrapCount, PoolContent.withBootstrap], rfl⟩

end Push

theorem grows_push {builder : PoolBuilder} {key : PoolKey} (absent : builder.indices[key]? = none) :
    builder.Grows (builder.push key) where
  indices := by
    intro other index found
    simp only [PoolBuilder.push, Std.HashMap.getElem?_insert, beq_iff_eq]
    split
    · rename_i same
      rw [← same, absent] at found
      cases found
    · exact found
  bootstrapIndices := id

theorem grows_pushBootstrap {builder : PoolBuilder} {bytes : List UInt8} {index : UInt16}
    (absent : builder.bootstrapIndices[bytes]? = none) (bootstraps : Output) (count : UInt16) :
    builder.Grows
      { builder with
        bootstrapIndices := builder.bootstrapIndices.insert bytes index,
        bootstraps := bootstraps,
        bootstrapCount := count } where
  indices := id
  bootstrapIndices := by
    intro other place found
    simp only [Std.HashMap.getElem?_insert, beq_iff_eq]
    split
    · rename_i same
      rw [← same, absent] at found
      cases found
    · exact found

/-! ### Reading what was written -/

theorem matches_of_held {pool : Pool} {content : PoolContent} (held : pool.Held content.records)
    (decodes : ∀ record ∈ content.records, ∃ key, record.HasKey key)
    (places : List.Forall₂ (fun place (refs : BootstrapRefs) => pool.input.HasAt place refs.bytes)
      pool.bootstrapOffsets.toList content.bootstraps) : pool.Matches content where
  has :=
    { keys := held.hasKey_iff.mpr
      bootstraps := by
        intro index refs found
        rcases getElem?_of_forall₂ places index.toNat with ⟨-, none⟩ | ⟨place, other, here, known, stands⟩
        · simp [none] at found
        · rw [known] at found
          cases found
          rw [Array.getElem?_toList] at here
          exact Pool.rawBootstrapMethod_eq_ok.mpr ⟨place, by simp [Pool.bootstrapOffset, here], stands⟩ }
  keys := held.hasKey_iff.mp
  bootstraps := by
    intro index refs found
    rcases Pool.rawBootstrapMethod_eq_ok.mp found with ⟨offset, known, stands⟩
    rcases getElem?_of_forall₂ places index.toNat with ⟨none, -⟩ | ⟨place, other, here, known', stands'⟩
    · rw [Array.getElem?_toList] at none
      simp [Pool.bootstrapOffset, none] at known
    · rw [Array.getElem?_toList] at here
      have again : pool.rawBootstrapMethod index = .ok other.bytes :=
        Pool.rawBootstrapMethod_eq_ok.mpr ⟨place, by simp [Pool.bootstrapOffset, here], stands'⟩
      rw [found] at again
      rw [known', BootstrapRefs.bytes_injective (Except.ok.inj again)]
  entries := by
    intro index offset known
    rcases held.recordAt_of_offsetOf known with ⟨record, found, -⟩
    rcases decodes record (recordAt_mem found) with ⟨key, hasKey⟩
    exact ⟨key, held.hasKey_iff.mpr ⟨record, found, hasKey⟩⟩

/-- The bytes of a builder are read as a pool with what the builder holds. -/
theorem Holds.parses {builder : PoolBuilder} {content : PoolContent} (held : builder.Holds content)
    {input : Input} {offset : Nat} (entries : input.HasAt 8 (builder.write .empty).toList)
    (bootstraps : input.HasAt offset (builder.writeBootstraps .empty).toList) :
    ∃ parsed pool, Pool.ofInput? input = .ok parsed ∧
      parsed.withBootstrapMethods offset = .ok pool ∧ pool.size = builder.count.toNat ∧
      pool.Matches content := by
  simp only [write, writeBootstraps, Output.toList_append, Output.toList_u16, Output.toList_empty,
    List.nil_append, held.entries, held.bootstraps] at entries bootstraps
  rcases Pool.ofInput?_of_hasAt held.count entries with
    ⟨parsed, read, sameInput, size, -, heldRecords⟩
  rw [← sameInput] at bootstraps
  rcases Pool.withBootstrapMethods_of_hasAt held.bootstrapCount bootstraps with
    ⟨places, readBootstraps, stand⟩
  exact ⟨parsed, _, read, readBootstraps, size,
    matches_of_held ⟨heldRecords.first, heldRecords.rest⟩ held.decodes stand⟩

theorem Holds.exists_pool {builder : PoolBuilder} {content : PoolContent}
    (held : builder.Holds content) : ∃ pool : Pool, pool.Matches content := by
  let entries := (builder.write .empty).toList
  let bootstraps := (builder.writeBootstraps .empty).toList
  let file : Input := ⟨⟨(List.replicate 8 0 ++ entries ++ bootstraps).toArray⟩⟩
  have first : file.HasAt 8 (entries ++ bootstraps) := by
    simp [Input.HasAt, Input.toList, file]
  rcases held.parses first.left first.right with ⟨-, pool, -, -, -, same⟩
  exact ⟨pool, same⟩

end PoolBuilder

end ClassFile
