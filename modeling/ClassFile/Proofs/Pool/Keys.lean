import ClassFile.Pool.Builder
import ClassFile.Proofs.Bytes

/-!
# Entries by their keys

A pool has a key at an index (`Pool.HasKey`) if the bytes of the entry there are the tag byte of the
key and a body that stores it.  Every getter of a pool is described by keys alone: it succeeds
exactly if the entries that it follows have the right keys, and gives what these keys hold.

A text is the only key with more than one possible body, since a file may store it as plain or as
modified UTF-8.
-/

namespace ClassFile

namespace PoolTag

@[simp]
theorem ofCode?_code (tag : PoolTag) : ofCode? tag.code = some tag := by
  cases tag <;> rfl

theorem ofCode?_eq_some {byte : UInt8} {tag : PoolTag} :
    ofCode? byte = some tag ↔ byte = tag.code := by
  constructor
  · intro found
    have matched := List.find?_some found
    exact (eq_of_beq matched).symm
  · rintro rfl
    exact ofCode?_code tag

theorem code_injective {first second : PoolTag} (equal : first.code = second.code) :
    first = second := by
  have found := ofCode?_code first
  rw [equal, ofCode?_code] at found
  exact (Option.some.inj found).symm

end PoolTag

namespace HandleKind

@[simp]
theorem ofCode?_code (kind : HandleKind) : ofCode? kind.code = some kind := by
  cases kind <;> rfl

theorem ofCode?_eq_some {byte : UInt8} {kind : HandleKind} :
    ofCode? byte = some kind ↔ byte = kind.code := by
  constructor
  · intro found
    have matched := List.find?_some found
    exact (eq_of_beq matched).symm
  · rintro rfl
    exact ofCode?_code kind

end HandleKind

namespace PoolKey

/-- Whether an entry with the key may have `body` behind its tag byte. -/
def IsBody : PoolKey → List UInt8 → Prop
  | .utf8 text, body =>
      ∃ stored : List UInt8, stored.length ≤ 65535 ∧
        body = bigEndian16 stored.length.toUInt16 ++ stored ∧ Text.decode stored = .ok text
  | .integer value, body => body = bigEndian32 value.toUInt32
  | .float bits, body => body = bigEndian32 bits
  | .long value, body => body = bigEndian64 value.toUInt64
  | .double bits, body => body = bigEndian64 bits
  | .classRef index, body | .string index, body | .methodType index, body
  | .moduleRef index, body | .packageRef index, body => body = bigEndian16 index
  | .fieldRef first second, body | .methodRef first second, body
  | .interfaceMethodRef first second, body | .nameAndType first second, body
  | .dynamic first second, body | .invokeDynamic first second, body =>
      body = bigEndian16 first ++ bigEndian16 second
  | .methodHandle kind member, body => body = [kind] ++ bigEndian16 member

end PoolKey

namespace Pool

variable {pool : Pool} {index : UInt16}

/-- Whether the entry with a given index has the key. -/
def HasKey (pool : Pool) (index : UInt16) (key : PoolKey) : Prop :=
  ∃ offset body, pool.offsetOf index = .ok offset ∧ pool.input.HasAt offset [key.tag.code] ∧
    pool.input.HasAt (offset + 1) body ∧ key.IsBody body

theorem tagAt_eq_ok {input : Input} {offset : Nat} {tag : PoolTag} :
    tagAt input offset = .ok tag ↔ input.HasAt offset [tag.code] := by
  unfold tagAt
  rw [← Input.u8_eq_ok, bind_eq_ok]
  constructor
  · rintro ⟨byte, read, chosen⟩
    split at chosen
    · rename_i found
      cases chosen
      rw [read, PoolTag.ofCode?_eq_some.mp found]
    · cases chosen
  · intro read
    exact ⟨tag.code, read, by simp [pure, Except.pure]⟩

theorem tag_eq_ok {tag : PoolTag} :
    pool.tag index = .ok tag ↔
      ∃ offset, pool.offsetOf index = .ok offset ∧ pool.input.HasAt offset [tag.code] := by
  simp only [Pool.tag, bind_eq_ok, tagAt_eq_ok]

/-- What is read from the body of an entry of the right kind. -/
theorem bodyOf_bind {α : Type} {tag : PoolTag} {read : Nat → Except ClassError α} {value : α} :
    (pool.bodyOf tag index >>= read) = .ok value ↔
      ∃ offset, pool.offsetOf index = .ok offset ∧ pool.input.HasAt offset [tag.code] ∧
        read (offset + 1) = .ok value := by
  simp only [bodyOf, bind_eq_ok, tagAt_eq_ok]
  constructor
  · rintro ⟨body, ⟨offset, found, actual, tagged, same⟩, got⟩
    split at same
    · rename_i matched
      cases same
      exact ⟨offset, found, matched ▸ tagged, got⟩
    · cases same
  · rintro ⟨offset, found, tagged, got⟩
    exact ⟨offset + 1, ⟨offset, found, tag, tagged, by simp [pure, Except.pure]⟩, got⟩

/-! ### Entries without references -/

theorem storedTextAt_eq_ok {offset : Nat} {stored : List UInt8} :
    pool.storedTextAt offset = .ok stored ↔
      stored.length ≤ 65535 ∧
        pool.input.HasAt offset (bigEndian16 stored.length.toUInt16 ++ stored) := by
  simp only [storedTextAt, bind_eq_ok, Input.u16_eq_ok, Input.bytes_eq_ok, Input.hasAt_append,
    length_bigEndian16]
  constructor
  · rintro ⟨length, read, inside, sized, held⟩
    have bound := length.toNat_lt
    have same : stored.length.toUInt16 = length := by
      rw [sized]
      exact UInt16.toNat_inj.mp (by simp)
    exact ⟨by omega, same ▸ read, held⟩
  · rintro ⟨bound, read, held⟩
    have sized : stored.length.toUInt16.toNat = stored.length := by
      simp
      omega
    refine ⟨_, read, ?_, sized.symm, held⟩
    have lengthInside := read.stop_le (by simp [bigEndian16])
    rw [length_bigEndian16] at lengthInside
    rw [sized]
    by_cases nonempty : stored = []
    · simpa [nonempty] using lengthInside
    · exact held.stop_le nonempty

theorem textAt_eq_ok {offset : Nat} {text : Text} :
    pool.textAt offset = .ok text ↔
      ∃ body, pool.input.HasAt offset body ∧ (PoolKey.utf8 text).IsBody body := by
  simp only [textAt, bind_eq_ok, storedTextAt_eq_ok, PoolKey.IsBody]
  constructor
  · rintro ⟨stored, ⟨bound, held⟩, decoded⟩
    split at decoded
    · rename_i found
      cases decoded
      exact ⟨_, held, stored, bound, rfl, found⟩
    · cases decoded
  · rintro ⟨_, held, stored, bound, rfl, decoded⟩
    exact ⟨stored, ⟨bound, held⟩, by simp [decoded, pure, Except.pure]⟩

theorem text_eq_ok {text : Text} :
    pool.text index = .ok text ↔ pool.HasKey index (.utf8 text) := by
  simp only [Pool.text, bodyOf_bind, textAt_eq_ok, HasKey, PoolKey.tag]
  constructor
  · rintro ⟨offset, found, tagged, body, held, stored⟩
    exact ⟨offset, body, found, tagged, held, stored⟩
  · rintro ⟨offset, body, found, tagged, held, stored⟩
    exact ⟨offset, found, tagged, body, held, stored⟩

theorem integer_eq_ok {value : Int32} :
    pool.integer index = .ok value ↔ pool.HasKey index (.integer value) := by
  simp [integer, bodyOf_bind, Input.i32_eq_ok, HasKey, PoolKey.tag, PoolKey.IsBody]

theorem float_eq_ok {bits : UInt32} :
    pool.float index = .ok bits ↔ pool.HasKey index (.float bits) := by
  simp [float, bodyOf_bind, Input.u32_eq_ok, HasKey, PoolKey.tag, PoolKey.IsBody]

theorem long_eq_ok {value : Int64} :
    pool.long index = .ok value ↔ pool.HasKey index (.long value) := by
  simp [long, bodyOf_bind, Input.i64_eq_ok, HasKey, PoolKey.tag, PoolKey.IsBody]

theorem double_eq_ok {bits : UInt64} :
    pool.double index = .ok bits ↔ pool.HasKey index (.double bits) := by
  simp [double, bodyOf_bind, Input.u64_eq_ok, HasKey, PoolKey.tag, PoolKey.IsBody]

/-! ### Entries that refer to others -/

/-- An entry that holds one index. -/
theorem bodyOf_bind_u16 {α : Type} {next : UInt16 → Except ClassError α} {value : α}
    (key : UInt16 → PoolKey) {tag : PoolTag} (tagged : ∀ first, (key first).tag = tag)
    (stored : ∀ first body, (key first).IsBody body ↔ body = bigEndian16 first) :
    (do next (← pool.input.u16 (← pool.bodyOf tag index))) = .ok value ↔
      ∃ first, pool.HasKey index (key first) ∧ next first = .ok value := by
  rw [bodyOf_bind]
  simp only [bind_eq_ok, Input.u16_eq_ok, HasKey, tagged, stored]
  constructor
  · rintro ⟨offset, found, here, first, read, got⟩
    exact ⟨first, ⟨offset, _, found, here, read, rfl⟩, got⟩
  · rintro ⟨first, ⟨offset, body, found, here, read, rfl⟩, got⟩
    exact ⟨offset, found, here, first, read, got⟩

/-- An entry that holds two indices. -/
theorem bodyOf_bind_two {α : Type} {tag : PoolTag} {read : Nat → Except ClassError α} {value : α}
    {next : UInt16 → UInt16 → Prop} (key : UInt16 → UInt16 → PoolKey)
    (tagged : ∀ first second, (key first second).tag = tag)
    (stored : ∀ first second body,
      (key first second).IsBody body ↔ body = bigEndian16 first ++ bigEndian16 second)
    (reads : ∀ offset, read offset = .ok value ↔
      ∃ first, pool.input.u16 offset = .ok first ∧
        ∃ second, pool.input.u16 (offset + 2) = .ok second ∧ next first second) :
    (pool.bodyOf tag index >>= read) = .ok value ↔
      ∃ first second, pool.HasKey index (key first second) ∧ next first second := by
  simp only [bodyOf_bind, reads, Input.u16_eq_ok, HasKey, tagged, stored]
  constructor
  · rintro ⟨offset, found, here, first, readFirst, second, readSecond, got⟩
    exact ⟨first, second,
      ⟨offset, _, found, here, Input.hasAt_append.mpr ⟨readFirst, readSecond⟩, rfl⟩, got⟩
  · rintro ⟨first, second, ⟨offset, body, found, here, held, rfl⟩, got⟩
    exact ⟨offset, found, here, first, held.left, second, held.right, got⟩

/-- An entry that only names a text. -/
theorem named_eq_ok (key : UInt16 → PoolKey) {tag : PoolTag} {text : Text}
    (tagged : ∀ name, (key name).tag = tag)
    (stored : ∀ name body, (key name).IsBody body ↔ body = bigEndian16 name) :
    pool.named tag index = .ok text ↔
      ∃ name, pool.HasKey index (key name) ∧ pool.text name = .ok text :=
  bodyOf_bind_u16 key tagged stored

theorem classRef_eq_ok {name : Text} :
    pool.classRef index = .ok name ↔
      ∃ place, pool.HasKey index (.classRef place) ∧ pool.text place = .ok name :=
  named_eq_ok _ (fun _ => rfl) (fun _ _ => Iff.rfl)

theorem string_eq_ok {value : Text} :
    pool.string index = .ok value ↔
      ∃ place, pool.HasKey index (.string place) ∧ pool.text place = .ok value :=
  named_eq_ok _ (fun _ => rfl) (fun _ _ => Iff.rfl)

theorem methodType_eq_ok {descriptor : Text} :
    pool.methodType index = .ok descriptor ↔
      ∃ place, pool.HasKey index (.methodType place) ∧ pool.text place = .ok descriptor :=
  named_eq_ok _ (fun _ => rfl) (fun _ _ => Iff.rfl)

theorem moduleRef_eq_ok {name : Text} :
    pool.moduleRef index = .ok name ↔
      ∃ place, pool.HasKey index (.moduleRef place) ∧ pool.text place = .ok name :=
  named_eq_ok _ (fun _ => rfl) (fun _ _ => Iff.rfl)

theorem packageRef_eq_ok {name : Text} :
    pool.packageRef index = .ok name ↔
      ∃ place, pool.HasKey index (.packageRef place) ∧ pool.text place = .ok name :=
  named_eq_ok _ (fun _ => rfl) (fun _ _ => Iff.rfl)

theorem nameAndType_eq_ok {value : NameAndType} :
    pool.nameAndType index = .ok value ↔
      ∃ name descriptor, pool.HasKey index (.nameAndType name descriptor) ∧
        pool.text name = .ok value.name ∧ pool.text descriptor = .ok value.descriptor := by
  rw [nameAndType, bodyOf_bind_two PoolKey.nameAndType (fun _ _ => rfl) (fun _ _ _ => Iff.rfl)]
  intro offset
  simp only [nameAndTypeAt, textRefAt, bind_eq_ok, pure_eq_ok]
  constructor
  · rintro ⟨name, ⟨first, readFirst, gotName⟩, descriptor, ⟨second, readSecond, gotDescriptor⟩, rfl⟩
    exact ⟨first, readFirst, second, readSecond, gotName, gotDescriptor⟩
  · rintro ⟨first, readFirst, second, readSecond, gotName, gotDescriptor⟩
    exact ⟨_, ⟨first, readFirst, gotName⟩, _, ⟨second, readSecond, gotDescriptor⟩, rfl⟩

/-- An entry for a member of a class. -/
theorem member_eq_ok (key : UInt16 → UInt16 → PoolKey) {tag : PoolTag} {member : MemberRef}
    (tagged : ∀ owner target, (key owner target).tag = tag)
    (stored : ∀ owner target body,
      (key owner target).IsBody body ↔ body = bigEndian16 owner ++ bigEndian16 target) :
    pool.member tag index = .ok member ↔
      ∃ owner target, pool.HasKey index (key owner target) ∧
        pool.classRef owner = .ok member.owner ∧
        pool.nameAndType target = .ok ⟨member.name, member.descriptor⟩ := by
  rw [Pool.member, bodyOf_bind_two key tagged stored]
  intro offset
  simp only [memberAt, bind_eq_ok, pure_eq_ok]
  constructor
  · rintro ⟨first, readFirst, owner, gotOwner, second, readSecond, target, gotTarget, rfl⟩
    exact ⟨first, readFirst, second, readSecond, gotOwner, gotTarget⟩
  · rintro ⟨first, readFirst, second, readSecond, gotOwner, gotTarget⟩
    exact ⟨first, readFirst, _, gotOwner, second, readSecond, _, gotTarget, rfl⟩

theorem fieldRef_eq_ok {member : MemberRef} :
    pool.fieldRef index = .ok member ↔
      ∃ owner target, pool.HasKey index (.fieldRef owner target) ∧
        pool.classRef owner = .ok member.owner ∧
        pool.nameAndType target = .ok ⟨member.name, member.descriptor⟩ :=
  member_eq_ok _ (fun _ _ => rfl) (fun _ _ _ => Iff.rfl)

theorem methodRef_eq_ok {member : MemberRef} :
    pool.methodRef index = .ok member ↔
      ∃ owner target, pool.HasKey index (.methodRef owner target) ∧
        pool.classRef owner = .ok member.owner ∧
        pool.nameAndType target = .ok ⟨member.name, member.descriptor⟩ :=
  member_eq_ok _ (fun _ _ => rfl) (fun _ _ _ => Iff.rfl)

theorem interfaceMethodRef_eq_ok {member : MemberRef} :
    pool.interfaceMethodRef index = .ok member ↔
      ∃ owner target, pool.HasKey index (.interfaceMethodRef owner target) ∧
        pool.classRef owner = .ok member.owner ∧
        pool.nameAndType target = .ok ⟨member.name, member.descriptor⟩ :=
  member_eq_ok _ (fun _ _ => rfl) (fun _ _ _ => Iff.rfl)

/-- The kind of a method entry tells whether it is for an interface. -/
theorem anyMethodRef_eq_ok {member : MemberRef} {isInterface : Bool} :
    pool.anyMethodRef index = .ok (member, isInterface) ↔
      (if isInterface then pool.interfaceMethodRef index else pool.methodRef index) =
        .ok member := by
  simp only [anyMethodRef, bind_eq_ok, tagAt_eq_ok]
  constructor
  · rintro ⟨offset, found, tag, tagged, got⟩
    cases tag with
    | methodRef | interfaceMethodRef =>
        simp only [bind_eq_ok, pure_eq_ok, Prod.mk.injEq] at got
        rcases got with ⟨_, read, rfl, rfl⟩
        exact bodyOf_bind.mpr ⟨offset, found, tagged, read⟩
    | _ => cases got
  · intro got
    cases isInterface with
    | true | false =>
        rcases bodyOf_bind.mp got with ⟨offset, found, tagged, read⟩
        exact ⟨offset, found, _, tagged, by simp [read, pure, Except.pure]⟩

/-- The member that a handle of kind `kind` refers to by `index`, and whether its class is an
interface. -/
def handleMember (pool : Pool) (kind : HandleKind) (index : UInt16) :
    Except ClassError (MemberRef × Bool) :=
  match kind with
  | .getField | .getStatic | .putField | .putStatic => do pure (← pool.fieldRef index, false)
  | .invokeVirtual | .newInvokeSpecial => do pure (← pool.methodRef index, false)
  | .invokeInterface => do pure (← pool.interfaceMethodRef index, true)
  | .invokeStatic | .invokeSpecial => pool.anyMethodRef index

theorem handleAt_eq (offset : Nat) :
    pool.handleAt offset = (do
      let byte ← pool.input.u8 offset
      match HandleKind.ofCode? byte with
      | none => throw (.badHandleKind byte)
      | some kind =>
          let index ← pool.input.u16 (offset + 1)
          let target ← pool.handleMember kind index
          return ⟨kind, target.1.owner, target.1.name, target.1.descriptor, target.2⟩) := by
  unfold handleAt
  congr 1
  funext byte
  cases HandleKind.ofCode? byte with
  | none => rfl
  | some kind => cases kind <;> simp [handleMember]

theorem handleAt_eq_ok {offset : Nat} {handle : Handle} :
    pool.handleAt offset = .ok handle ↔
      ∃ place, pool.input.HasAt offset [handle.kind.code] ∧
        pool.input.HasAt (offset + 1) (bigEndian16 place) ∧
        pool.handleMember handle.kind place =
          .ok (⟨handle.owner, handle.name, handle.descriptor⟩, handle.isInterface) := by
  simp only [handleAt_eq, bind_eq_ok, Input.u8_eq_ok]
  constructor
  · rintro ⟨byte, read, got⟩
    cases known : HandleKind.ofCode? byte with
    | none =>
        rw [known] at got
        cases got
    | some kind =>
        simp only [known, bind_eq_ok, Input.u16_eq_ok, pure_eq_ok] at got
        rcases got with ⟨place, readPlace, target, gotMember, rfl⟩
        rw [HandleKind.ofCode?_eq_some.mp known] at read
        exact ⟨place, read, readPlace, gotMember⟩
  · rintro ⟨place, read, readPlace, gotMember⟩
    refine ⟨_, read, ?_⟩
    simp only [HandleKind.ofCode?_code, readPlace.u16, ok_bind, gotMember]
    rfl

theorem handle_eq_ok {handle : Handle} :
    pool.handle index = .ok handle ↔
      ∃ place, pool.HasKey index (.methodHandle handle.kind.code place) ∧
        pool.handleMember handle.kind place =
          .ok (⟨handle.owner, handle.name, handle.descriptor⟩, handle.isInterface) := by
  simp only [Pool.handle, bodyOf_bind, handleAt_eq_ok, HasKey, PoolKey.tag, PoolKey.IsBody]
  constructor
  · rintro ⟨offset, found, tagged, place, read, readPlace, got⟩
    exact ⟨place, ⟨offset, _, found, tagged, Input.hasAt_append.mpr ⟨read, readPlace⟩, rfl⟩, got⟩
  · rintro ⟨place, ⟨offset, _, found, tagged, held, rfl⟩, got⟩
    exact ⟨offset, found, tagged, place, held.left, held.right, got⟩

/-- An entry for a dynamic constant or call site. -/
theorem dynamicAt_eq_ok (key : UInt16 → UInt16 → PoolKey) {tag : PoolTag} {value : DynamicRef}
    (tagged : ∀ bootstrap target, (key bootstrap target).tag = tag)
    (stored : ∀ bootstrap target body,
      (key bootstrap target).IsBody body ↔ body = bigEndian16 bootstrap ++ bigEndian16 target) :
    (pool.bodyOf tag index >>= pool.dynamicAt) = .ok value ↔
      ∃ target, pool.HasKey index (key value.bootstrapIndex target) ∧
        pool.nameAndType target = .ok ⟨value.name, value.descriptor⟩ := by
  have described := @bodyOf_bind_two pool index DynamicRef tag pool.dynamicAt value
    (fun bootstrap target => value.bootstrapIndex = bootstrap ∧
      pool.nameAndType target = .ok ⟨value.name, value.descriptor⟩) key tagged stored
  rw [described]
  · constructor
    · rintro ⟨_, target, has, rfl, got⟩
      exact ⟨target, has, got⟩
    · rintro ⟨target, has, got⟩
      exact ⟨_, target, has, rfl, got⟩
  · intro offset
    simp only [dynamicAt, bind_eq_ok, pure_eq_ok]
    constructor
    · rintro ⟨first, readFirst, second, readSecond, member, got, rfl⟩
      exact ⟨first, readFirst, second, readSecond, rfl, got⟩
    · rintro ⟨first, readFirst, second, readSecond, rfl, got⟩
      exact ⟨_, readFirst, second, readSecond, _, got, rfl⟩

theorem dynamicRef_eq_ok {value : DynamicRef} :
    pool.dynamicRef index = .ok value ↔
      ∃ target, pool.HasKey index (.dynamic value.bootstrapIndex target) ∧
        pool.nameAndType target = .ok ⟨value.name, value.descriptor⟩ :=
  dynamicAt_eq_ok PoolKey.dynamic (fun _ _ => rfl) (fun _ _ _ => Iff.rfl)

theorem invokeDynamicRef_eq_ok {value : DynamicRef} :
    pool.invokeDynamicRef index = .ok value ↔
      ∃ target, pool.HasKey index (.invokeDynamic value.bootstrapIndex target) ∧
        pool.nameAndType target = .ok ⟨value.name, value.descriptor⟩ :=
  dynamicAt_eq_ok PoolKey.invokeDynamic (fun _ _ => rfl) (fun _ _ _ => Iff.rfl)

end Pool

end ClassFile
