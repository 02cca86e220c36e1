import ClassFile.Proofs.Pool.Keys

/-!
# Constants in a pool

A bootstrap method is read from the indices of its handle and of its arguments (`BootstrapRefs`), and
a loadable constant from its entry and, if it is dynamic, from its bootstrap method.  Both are
described by keys and these indices (`bootstrapWith_eq_ok`, `constantWithin_eq_ok`).

Hence a pool that keeps the keys and the bootstrap methods of another (`Extends`) gives the same
answer wherever the other gives one.
-/

namespace ClassFile

section Words

theorem length_words (words : List UInt16) : (words.flatMap bigEndian16).length = 2 * words.length := by
  induction words with
  | nil => rfl
  | cons word rest ih =>
      simp only [List.flatMap_cons, List.length_append, length_bigEndian16, ih, List.length_cons]
      omega

theorem words_injective {first second : List UInt16}
    (equal : first.flatMap bigEndian16 = second.flatMap bigEndian16) : first = second := by
  induction first generalizing second with
  | nil =>
      cases second with
      | nil => rfl
      | cons word rest => simp [bigEndian16] at equal
  | cons word rest ih =>
      cases second with
      | nil => simp [bigEndian16] at equal
      | cons other others =>
          rw [List.flatMap_cons, List.flatMap_cons] at equal
          rcases List.append_inj equal (by simp) with ⟨here, behind⟩
          rw [bigEndian16_injective here, ih behind]

/-- Bytes of even number are the bytes of two-byte numbers. -/
theorem exists_words {count : Nat} {bytes : List UInt8} (even : bytes.length = 2 * count) :
    ∃ words : List UInt16, words.length = count ∧ words.flatMap bigEndian16 = bytes := by
  induction count generalizing bytes with
  | zero =>
      refine ⟨[], rfl, ?_⟩
      simpa [eq_comm] using even
  | succ count ih =>
      match bytes, even with
      | high :: low :: rest, even =>
          rcases @ih rest (by simp at even; omega) with ⟨words, length, flat⟩
          refine ⟨(high.toUInt16 * 256 + low.toUInt16) :: words, by simp [length], ?_⟩
          rw [List.flatMap_cons, bigEndian16_of_bytes, flat]
          rfl

end Words

/-- What a bootstrap method refers to: its handle and its arguments. -/
structure BootstrapRefs where
  handle : UInt16
  arguments : List UInt16
  bounded : arguments.length ≤ 65535

namespace BootstrapRefs

/-- The bytes of the bootstrap method. -/
def bytes (refs : BootstrapRefs) : List UInt8 :=
  (refs.handle :: refs.arguments.length.toUInt16 :: refs.arguments).flatMap bigEndian16

theorem bytes_eq (refs : BootstrapRefs) :
    refs.bytes = bigEndian16 refs.handle ++ (bigEndian16 refs.arguments.length.toUInt16 ++
      refs.arguments.flatMap bigEndian16) := by
  simp [bytes]

theorem length_bytes (refs : BootstrapRefs) :
    refs.bytes.length = 4 + 2 * refs.arguments.length := by
  rw [bytes, length_words]
  simp
  omega

theorem toNat_count (refs : BootstrapRefs) :
    refs.arguments.length.toUInt16.toNat = refs.arguments.length := by
  have bounded := refs.bounded
  simp
  omega

theorem bytes_injective {first second : BootstrapRefs} (equal : first.bytes = second.bytes) :
    first = second := by
  have words := words_injective equal
  simp only [List.cons.injEq] at words
  cases first
  cases second
  simp_all

end BootstrapRefs

namespace Pool

variable {pool : Pool} {index : UInt16}

/-! ### Bootstrap methods -/

theorem rawBootstrapMethod_eq_ok {refs : BootstrapRefs} :
    pool.rawBootstrapMethod index = .ok refs.bytes ↔
      ∃ offset, pool.bootstrapOffset index = .ok offset ∧ pool.input.HasAt offset refs.bytes := by
  simp only [rawBootstrapMethod, bind_eq_ok, Input.bytes_eq_ok, Input.u16_eq_ok]
  constructor
  · rintro ⟨offset, found, -, -, -, -, held⟩
    exact ⟨offset, found, held⟩
  · rintro ⟨offset, found, held⟩
    refine ⟨offset, found, refs.arguments.length.toUInt16, ?_, ?_, ?_, held⟩
    · rw [refs.bytes_eq] at held
      exact held.right.left
    · rw [refs.toNat_count]
      have inside := held.stop_le (by rw [refs.bytes_eq]; simp [bigEndian16])
      rw [refs.length_bytes] at inside
      omega
    · rw [refs.toNat_count, refs.length_bytes, Nat.mul_comm]

/-- Every bootstrap method is made of indices. -/
theorem exists_refs {bytes : List UInt8} (found : pool.rawBootstrapMethod index = .ok bytes) :
    ∃ refs : BootstrapRefs, refs.bytes = bytes := by
  simp only [rawBootstrapMethod, bind_eq_ok, Input.bytes_eq_ok, Input.u16_eq_ok] at found
  rcases found with ⟨offset, -, count, counted, -, length, held⟩
  rcases @exists_words (count.toNat + 2) bytes (by omega) with ⟨words, wordsLength, rfl⟩
  match words, wordsLength with
  | handle :: number :: arguments, wordsLength =>
      have same : number = count :=
        bigEndian16_injective (List.IsPrefix.eq_of_length
          (List.prefix_of_prefix_length_le held.right.left counted (by simp)) (by simp))
      have bound := count.toNat_lt
      simp only [List.length_cons] at wordsLength
      have argumentCount : arguments.length = count.toNat := by omega
      refine ⟨⟨handle, arguments, by omega⟩, ?_⟩
      simp [BootstrapRefs.bytes, argumentCount, same]

theorem size_findBootstrapMethods {input : Input} {offset count : Nat} {offsets all : Array Nat}
    (found : findBootstrapMethods input offset offsets count = .ok all) :
    all.size = offsets.size + count := by
  induction count generalizing offset offsets with
  | zero =>
      cases found
      rfl
  | succ count ih =>
      simp only [findBootstrapMethods, bind_eq_ok] at found
      rcases found with ⟨_, -, rest⟩
      rw [ih rest, Array.size_push]
      omega

/-- Bootstrap methods that stand one after the other are found. -/
theorem findBootstrapMethods_of_hasAt {input : Input} {offset : Nat} {offsets : Array Nat}
    {methods : List BootstrapRefs} (held : input.HasAt offset (methods.flatMap BootstrapRefs.bytes)) :
    ∃ more, findBootstrapMethods input offset offsets methods.length = .ok (offsets ++ more) ∧
      List.Forall₂ (fun place refs => input.HasAt place refs.bytes) more.toList methods := by
  induction methods generalizing offset offsets with
  | nil => exact ⟨#[], by simp [findBootstrapMethods], List.Forall₂.nil⟩
  | cons refs rest ih =>
      rw [List.flatMap_cons] at held
      have first := held.left
      rw [refs.bytes_eq] at first
      have counted : input.u16 (offset + 2) = .ok refs.arguments.length.toUInt16 :=
        first.right.left.u16
      rcases @ih (offset + refs.bytes.length) (offsets.push offset) held.right with
        ⟨more, found, places⟩
      rw [refs.length_bytes, Nat.mul_comm 2, ← Nat.add_assoc] at found
      refine ⟨#[offset] ++ more, ?_, ?_⟩
      · rw [List.length_cons, findBootstrapMethods, counted, ok_bind, refs.toNat_count, found]
        simp
      · rw [Array.toList_append]
        exact List.Forall₂.cons held.left places

/-- Where the bytes of bootstrap methods stand, they are read. -/
theorem withBootstrapMethods_of_hasAt {methods : List BootstrapRefs} {count : UInt16} {offset : Nat}
    (filled : count.toNat = methods.length)
    (held : pool.input.HasAt offset
      (bigEndian16 count ++ methods.flatMap BootstrapRefs.bytes)) :
    ∃ places, pool.withBootstrapMethods offset = .ok { pool with bootstrapOffsets := places } ∧
      List.Forall₂ (fun place (refs : BootstrapRefs) => pool.input.HasAt place refs.bytes)
        places.toList methods := by
  rcases @findBootstrapMethods_of_hasAt pool.input (offset + 2) #[] methods held.right with
    ⟨places, found, held'⟩
  refine ⟨places, ?_, held'⟩
  simp only [withBootstrapMethods, held.left.u16, ok_bind, filled, found]
  simp [pure, Except.pure]

theorem readArguments_eq_ok {constant : UInt16 → Except ClassError Constant} {offset count : Nat}
    {found all : List Constant} :
    readArguments pool constant offset found count = .ok all ↔
      ∃ refs arguments, refs.length = count ∧
        pool.input.HasAt offset (refs.flatMap bigEndian16) ∧
        List.Forall₂ (fun ref argument => constant ref = .ok argument) refs arguments ∧
        all = found.reverse ++ arguments := by
  induction count generalizing offset found with
  | zero =>
      simp only [readArguments, Except.ok.injEq, List.length_eq_zero_iff]
      constructor
      · rintro rfl
        exact ⟨[], [], rfl, List.nil_prefix, List.Forall₂.nil, by simp⟩
      · rintro ⟨refs, arguments, rfl, -, read, rfl⟩
        cases read
        simp
  | succ count ih =>
      simp only [readArguments, bind_eq_ok, ih, Input.u16_eq_ok]
      constructor
      · rintro ⟨ref, held, value, read, refs, arguments, rfl, heldRest, readRest, rfl⟩
        refine ⟨ref :: refs, value :: arguments, rfl, ?_, List.Forall₂.cons read readRest,
          by simp⟩
        exact Input.hasAt_append.mpr ⟨held, heldRest⟩
      · rintro ⟨refs, arguments, length, held, read, rfl⟩
        cases read with
        | nil => cases length
        | @cons ref value refs arguments readFirst readRest =>
            rw [List.flatMap_cons] at held
            exact ⟨ref, held.left, value, readFirst, refs, arguments, by simpa using length,
              held.right, readRest, by simp⟩

/-- A bootstrap method is read if its handle and its arguments are. -/
theorem bootstrapWith_eq_ok {constant : UInt16 → Except ClassError Constant} {handle : Handle}
    {arguments : List Constant} :
    pool.bootstrapWith constant index = .ok (handle, arguments) ↔
      ∃ refs : BootstrapRefs, pool.rawBootstrapMethod index = .ok refs.bytes ∧
        pool.handle refs.handle = .ok handle ∧
        List.Forall₂ (fun ref argument => constant ref = .ok argument) refs.arguments
          arguments := by
  simp only [rawBootstrapMethod_eq_ok, bootstrapWith, bind_eq_ok, Input.u16_eq_ok, pure_eq_ok,
    readArguments_eq_ok, Prod.mk.injEq]
  constructor
  · rintro ⟨offset, found, ref, readHandle, value, gotHandle, count, counted, all,
      ⟨refs, read, length, held, gotArguments, rfl⟩, rfl, rfl⟩
    have bound := count.toNat_lt
    refine ⟨⟨ref, refs, by omega⟩, ⟨offset, found, ?_⟩, gotHandle, by simpa using gotArguments⟩
    rw [BootstrapRefs.bytes_eq, Input.hasAt_append, Input.hasAt_append]
    have same : refs.length.toUInt16 = count := by
      rw [length]
      exact UInt16.toNat_inj.mp (by simp)
    exact ⟨readHandle, same ▸ counted, held⟩
  · rintro ⟨refs, ⟨offset, found, held⟩, gotHandle, gotArguments⟩
    rw [BootstrapRefs.bytes_eq] at held
    exact ⟨offset, found, refs.handle, held.left, handle, gotHandle, _, held.right.left, _,
      ⟨refs.arguments, arguments, refs.toNat_count.symm, held.right.right, gotArguments, rfl⟩,
      rfl, rfl⟩

/-! ### Loadable constants -/

/-- Whether the entry with a given index is a constant in which dynamic constants stand one inside
the other at most `levels` deep. -/
def Loads (pool : Pool) (levels : Nat) (index : UInt16) : Constant → Prop
  | .integer value => pool.integer index = .ok value
  | .float bits => pool.float index = .ok bits
  | .long value => pool.long index = .ok value
  | .double bits => pool.double index = .ok bits
  | .string value => pool.string index = .ok value
  | .classRef name => pool.classRef index = .ok name
  | .methodType descriptor => pool.methodType index = .ok descriptor
  | .handle value => pool.handle index = .ok value
  | .dynamic name descriptor method arguments =>
      ∃ inner bootstrap, levels = inner + 1 ∧
        pool.dynamicRef index = .ok ⟨bootstrap, name, descriptor⟩ ∧
        pool.bootstrapWith (pool.constantWithin inner) bootstrap = .ok (method, arguments)

/-- What a getter for one kind of entry reads is of that kind. -/
theorem tag_of_bodyOf {α : Type} {tag : PoolTag} {read : Nat → Except ClassError α} {value : α}
    (got : (pool.bodyOf tag index >>= read) = .ok value) : pool.tag index = .ok tag := by
  rcases bodyOf_bind.mp got with ⟨offset, found, tagged, -⟩
  exact tag_eq_ok.mpr ⟨offset, found, tagged⟩

theorem constantWithin_eq_ok {levels : Nat} {constant : Constant} :
    pool.constantWithin levels index = .ok constant ↔ pool.Loads levels index constant := by
  rw [constantWithin, bind_eq_ok]
  constructor
  · rintro ⟨tag, -, got⟩
    cases tag with
    | integer | float | long | double | string | classRef | methodType | methodHandle =>
        simp only [bind_eq_ok, pure_eq_ok] at got
        rcases got with ⟨value, read, rfl⟩
        exact read
    | dynamic =>
        simp only [bind_eq_ok] at got
        rcases got with ⟨reference, read, got⟩
        cases levels with
        | zero => cases got
        | succ inner =>
            simp only [bind_eq_ok, pure_eq_ok] at got
            rcases got with ⟨⟨method, arguments⟩, readMethod, rfl⟩
            exact ⟨inner, reference.bootstrapIndex, rfl, read, readMethod⟩
    | _ => cases got
  · intro loads
    cases constant with
    | integer | float | long | double | string | classRef | methodType | handle =>
        refine ⟨_, tag_of_bodyOf loads, ?_⟩
        simp only [bind_eq_ok, pure_eq_ok]
        exact ⟨_, loads, rfl⟩
    | dynamic name descriptor method arguments =>
        rcases loads with ⟨inner, bootstrap, rfl, read, readMethod⟩
        refine ⟨_, tag_of_bodyOf read, ?_⟩
        simp only [bind_eq_ok, pure_eq_ok]
        exact ⟨_, read, _, readMethod, rfl⟩

/-! ### Pools that keep what another has -/

/-- Whether `later` has every entry and every bootstrap method of `pool` under its index. -/
structure Extends (pool later : Pool) : Prop where
  keys : ∀ {index key}, pool.HasKey index key → later.HasKey index key
  bootstraps : ∀ {index} {refs : BootstrapRefs}, pool.rawBootstrapMethod index = .ok refs.bytes →
    later.rawBootstrapMethod index = .ok refs.bytes

namespace Extends

variable {later : Pool} (extended : pool.Extends later)
include extended

theorem text {text : Text} (got : pool.text index = .ok text) : later.text index = .ok text :=
  text_eq_ok.mpr (extended.keys (text_eq_ok.mp got))

theorem integer {value : Int32} (got : pool.integer index = .ok value) :
    later.integer index = .ok value :=
  integer_eq_ok.mpr (extended.keys (integer_eq_ok.mp got))

theorem float {bits : UInt32} (got : pool.float index = .ok bits) :
    later.float index = .ok bits :=
  float_eq_ok.mpr (extended.keys (float_eq_ok.mp got))

theorem long {value : Int64} (got : pool.long index = .ok value) :
    later.long index = .ok value :=
  long_eq_ok.mpr (extended.keys (long_eq_ok.mp got))

theorem double {bits : UInt64} (got : pool.double index = .ok bits) :
    later.double index = .ok bits :=
  double_eq_ok.mpr (extended.keys (double_eq_ok.mp got))

theorem classRef {name : Text} (got : pool.classRef index = .ok name) :
    later.classRef index = .ok name := by
  rcases classRef_eq_ok.mp got with ⟨place, has, named⟩
  exact classRef_eq_ok.mpr ⟨place, extended.keys has, extended.text named⟩

theorem string {value : Text} (got : pool.string index = .ok value) :
    later.string index = .ok value := by
  rcases string_eq_ok.mp got with ⟨place, has, named⟩
  exact string_eq_ok.mpr ⟨place, extended.keys has, extended.text named⟩

theorem methodType {descriptor : Text} (got : pool.methodType index = .ok descriptor) :
    later.methodType index = .ok descriptor := by
  rcases methodType_eq_ok.mp got with ⟨place, has, named⟩
  exact methodType_eq_ok.mpr ⟨place, extended.keys has, extended.text named⟩

theorem moduleRef {name : Text} (got : pool.moduleRef index = .ok name) :
    later.moduleRef index = .ok name := by
  rcases moduleRef_eq_ok.mp got with ⟨place, has, named⟩
  exact moduleRef_eq_ok.mpr ⟨place, extended.keys has, extended.text named⟩

theorem packageRef {name : Text} (got : pool.packageRef index = .ok name) :
    later.packageRef index = .ok name := by
  rcases packageRef_eq_ok.mp got with ⟨place, has, named⟩
  exact packageRef_eq_ok.mpr ⟨place, extended.keys has, extended.text named⟩

theorem nameAndType {value : NameAndType} (got : pool.nameAndType index = .ok value) :
    later.nameAndType index = .ok value := by
  rcases nameAndType_eq_ok.mp got with ⟨name, descriptor, has, named, described⟩
  exact nameAndType_eq_ok.mpr
    ⟨name, descriptor, extended.keys has, extended.text named, extended.text described⟩

theorem fieldRef {member : MemberRef} (got : pool.fieldRef index = .ok member) :
    later.fieldRef index = .ok member := by
  rcases fieldRef_eq_ok.mp got with ⟨owner, target, has, owned, named⟩
  exact fieldRef_eq_ok.mpr
    ⟨owner, target, extended.keys has, extended.classRef owned, extended.nameAndType named⟩

theorem methodRef {member : MemberRef} (got : pool.methodRef index = .ok member) :
    later.methodRef index = .ok member := by
  rcases methodRef_eq_ok.mp got with ⟨owner, target, has, owned, named⟩
  exact methodRef_eq_ok.mpr
    ⟨owner, target, extended.keys has, extended.classRef owned, extended.nameAndType named⟩

theorem interfaceMethodRef {member : MemberRef} (got : pool.interfaceMethodRef index = .ok member) :
    later.interfaceMethodRef index = .ok member := by
  rcases interfaceMethodRef_eq_ok.mp got with ⟨owner, target, has, owned, named⟩
  exact interfaceMethodRef_eq_ok.mpr
    ⟨owner, target, extended.keys has, extended.classRef owned, extended.nameAndType named⟩

theorem anyMethodRef {result : MemberRef × Bool} (got : pool.anyMethodRef index = .ok result) :
    later.anyMethodRef index = .ok result := by
  rcases result with ⟨member, isInterface⟩
  have read := anyMethodRef_eq_ok.mp got
  refine anyMethodRef_eq_ok.mpr ?_
  cases isInterface with
  | false => exact extended.methodRef read
  | true => exact extended.interfaceMethodRef read

theorem handleMember {kind : HandleKind} {result : MemberRef × Bool}
    (got : pool.handleMember kind index = .ok result) :
    later.handleMember kind index = .ok result := by
  cases kind with
  | invokeStatic | invokeSpecial => exact extended.anyMethodRef got
  | getField | getStatic | putField | putStatic =>
      rcases bind_eq_ok.mp got with ⟨member, read, same⟩
      exact bind_eq_ok.mpr ⟨member, extended.fieldRef read, same⟩
  | invokeVirtual | newInvokeSpecial =>
      rcases bind_eq_ok.mp got with ⟨member, read, same⟩
      exact bind_eq_ok.mpr ⟨member, extended.methodRef read, same⟩
  | invokeInterface =>
      rcases bind_eq_ok.mp got with ⟨member, read, same⟩
      exact bind_eq_ok.mpr ⟨member, extended.interfaceMethodRef read, same⟩

theorem handle {handle : Handle} (got : pool.handle index = .ok handle) :
    later.handle index = .ok handle := by
  rcases handle_eq_ok.mp got with ⟨place, has, member⟩
  exact handle_eq_ok.mpr ⟨place, extended.keys has, extended.handleMember member⟩

theorem dynamicRef {value : DynamicRef} (got : pool.dynamicRef index = .ok value) :
    later.dynamicRef index = .ok value := by
  rcases dynamicRef_eq_ok.mp got with ⟨target, has, named⟩
  exact dynamicRef_eq_ok.mpr ⟨target, extended.keys has, extended.nameAndType named⟩

theorem invokeDynamicRef {value : DynamicRef} (got : pool.invokeDynamicRef index = .ok value) :
    later.invokeDynamicRef index = .ok value := by
  rcases invokeDynamicRef_eq_ok.mp got with ⟨target, has, named⟩
  exact invokeDynamicRef_eq_ok.mpr ⟨target, extended.keys has, extended.nameAndType named⟩

theorem bootstrapWith {constant laterConstant : UInt16 → Except ClassError Constant}
    (constants : ∀ {ref value}, constant ref = .ok value → laterConstant ref = .ok value)
    {result : Handle × List Constant} (got : pool.bootstrapWith constant index = .ok result) :
    later.bootstrapWith laterConstant index = .ok result := by
  rcases bootstrapWith_eq_ok.mp got with ⟨refs, found, gotHandle, gotArguments⟩
  refine bootstrapWith_eq_ok.mpr
    ⟨refs, extended.bootstraps found, extended.handle gotHandle, ?_⟩
  exact gotArguments.imp fun _ _ => constants

/-- More levels do no harm either. -/
theorem constantWithin {levels laterLevels : Nat} (enough : levels ≤ laterLevels)
    {constant : Constant} (got : pool.constantWithin levels index = .ok constant) :
    later.constantWithin laterLevels index = .ok constant := by
  induction levels using Nat.strongRecOn generalizing index laterLevels constant with
  | ind levels ih =>
      have loads := constantWithin_eq_ok.mp got
      refine constantWithin_eq_ok.mpr ?_
      cases constant with
      | integer => exact extended.integer loads
      | float => exact extended.float loads
      | long => exact extended.long loads
      | double => exact extended.double loads
      | string => exact extended.string loads
      | classRef => exact extended.classRef loads
      | methodType => exact extended.methodType loads
      | handle => exact extended.handle loads
      | dynamic name descriptor method arguments =>
          rcases loads with ⟨inner, bootstrap, rfl, read, readMethod⟩
          cases laterLevels with
          | zero => simp at enough
          | succ laterInner =>
              refine ⟨laterInner, bootstrap, rfl, extended.dynamicRef read, ?_⟩
              refine extended.bootstrapWith (fun {ref value} => ?_) readMethod
              exact ih inner (Nat.lt_succ_self inner) (Nat.le_of_succ_le_succ enough)

theorem constant {constant : Constant} (got : pool.constant index = .ok constant) :
    later.constant index = .ok constant :=
  extended.constantWithin (Nat.le_refl _) got

theorem bootstrapMethod {result : Handle × List Constant}
    (got : pool.bootstrapMethod index = .ok result) : later.bootstrapMethod index = .ok result :=
  extended.bootstrapWith (extended.constantWithin (Nat.le_refl _)) got

end Extends

/-! ### Entries of any kind -/

/-- Whether the getter for the kind of the entry gives its value. -/
def Shows (pool : Pool) (index : UInt16) : PoolEntry → Prop
  | .utf8 text => pool.text index = .ok text
  | .integer value => pool.integer index = .ok value
  | .float bits => pool.float index = .ok bits
  | .long value => pool.long index = .ok value
  | .double bits => pool.double index = .ok bits
  | .classRef name => pool.classRef index = .ok name
  | .string value => pool.string index = .ok value
  | .fieldRef member => pool.fieldRef index = .ok member
  | .methodRef member => pool.methodRef index = .ok member
  | .interfaceMethodRef member => pool.interfaceMethodRef index = .ok member
  | .nameAndType value => pool.nameAndType index = .ok value
  | .methodHandle handle => pool.handle index = .ok handle
  | .methodType descriptor => pool.methodType index = .ok descriptor
  | .dynamic value => pool.dynamicRef index = .ok value
  | .invokeDynamic value => pool.invokeDynamicRef index = .ok value
  | .moduleRef name => pool.moduleRef index = .ok name
  | .packageRef name => pool.packageRef index = .ok name

theorem entry_eq_ok {entry : PoolEntry} :
    pool.entry index = .ok entry ↔ pool.Shows index entry := by
  constructor
  · intro got
    simp only [Pool.entry, bind_eq_ok, tagAt_eq_ok] at got
    rcases got with ⟨offset, found, tag, tagged, got⟩
    cases tag
    all_goals
      simp only [bind_eq_ok, pure_eq_ok] at got
      rcases got with ⟨value, read, rfl⟩
      exact bodyOf_bind.mpr ⟨offset, found, tagged, read⟩
  · intro shown
    cases entry
    all_goals
      rcases bodyOf_bind.mp shown with ⟨offset, found, tagged, read⟩
      exact bind_eq_ok.mpr ⟨offset, found, bind_eq_ok.mpr
        ⟨_, tagAt_eq_ok.mpr tagged, bind_eq_ok.mpr ⟨_, read, rfl⟩⟩⟩

theorem Extends.entry {later : Pool} (extended : pool.Extends later) {entry : PoolEntry}
    (got : pool.entry index = .ok entry) : later.entry index = .ok entry := by
  have shown := entry_eq_ok.mp got
  refine entry_eq_ok.mpr ?_
  cases entry with
  | utf8 => exact extended.text shown
  | integer => exact extended.integer shown
  | float => exact extended.float shown
  | long => exact extended.long shown
  | double => exact extended.double shown
  | classRef => exact extended.classRef shown
  | string => exact extended.string shown
  | fieldRef => exact extended.fieldRef shown
  | methodRef => exact extended.methodRef shown
  | interfaceMethodRef => exact extended.interfaceMethodRef shown
  | nameAndType => exact extended.nameAndType shown
  | methodHandle => exact extended.handle shown
  | methodType => exact extended.methodType shown
  | dynamic => exact extended.dynamicRef shown
  | invokeDynamic => exact extended.invokeDynamicRef shown
  | moduleRef => exact extended.moduleRef shown
  | packageRef => exact extended.packageRef shown

end Pool

end ClassFile
