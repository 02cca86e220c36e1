import ClassFile.Proofs.Pool.Content

/-!
# Additions to a pool

`Adds Before adding After` says what an addition does to a builder that holds some content.  Even if
it fails, it leaves a builder that holds at least as much, apart from the tag byte that stays behind a
failure for a text that is too long (`leftBy`).  If it succeeds, every pool with at least what the
builder holds then satisfies `After`, and the same addition to any later builder finds everything and
changes nothing.

`Before` says what is known of the pools with the content at the start; so a chain of additions is
described step by step (`Adds.bind`), each step knowing what those before it have added.
-/

namespace ClassFile

namespace Pooling

variable {α β : Type}

/-- The result of an addition, and the builder that it leaves. -/
def on (adding : Pooling α) (builder : PoolBuilder) : Except ClassError α × PoolBuilder :=
  adding.run.run builder

theorem on_pure (value : α) (builder : PoolBuilder) :
    on (pure value) builder = (.ok value, builder) :=
  rfl

theorem on_throw (cause : ClassError) (builder : PoolBuilder) :
    on (throw cause : Pooling α) builder = (.error cause, builder) :=
  rfl

theorem on_get (builder : PoolBuilder) : on get builder = (.ok builder, builder) :=
  rfl

theorem on_modify (update : PoolBuilder → PoolBuilder) (builder : PoolBuilder) :
    on (modify update) builder = (.ok ⟨⟩, update builder) :=
  rfl

theorem on_bind (first : Pooling α) (second : α → Pooling β) (builder : PoolBuilder) :
    on (first >>= second) builder =
      match first.on builder with
      | (.ok value, next) => (second value).on next
      | (.error cause, next) => (.error cause, next) := by
  unfold on
  rw [ExceptT.run_bind, StateT.run_bind]
  rcases StateT.run first.run builder with ⟨_ | value, next⟩ <;> rfl
end Pooling

namespace PoolContent

/-- Whether every entry refers only to smaller indices, also by way of its bootstrap method. -/
structure PointsBack (content : PoolContent) : Prop where
  entries : ∀ {index key}, content.HasKey index key →
    ∀ ref ∈ key.references, 0 < ref ∧ ref < index
  bootstraps : ∀ {index key place}, content.HasKey index key → key.bootstrap? = some place →
    ∃ refs : BootstrapRefs, content.bootstraps[place.toNat]? = some refs ∧
      ∀ ref ∈ refs.references, 0 < ref ∧ ref < index
  defined : ∀ refs ∈ content.bootstraps, ∀ ref ∈ refs.references, ∃ key, content.HasKey ref key

theorem HasKey.bounds {content : PoolContent} {index : UInt16} {key : PoolKey}
    (has : content.HasKey index key) :
    0 < index.toNat ∧ index.toNat ≤ (recordSlots content.records).length := by
  rcases has with ⟨record, found, -⟩
  exact recordAt_bounds found

end PoolContent

/-- Whether the pool has an entry with a given index. -/
def Pool.Defines (pool : Pool) (index : UInt16) : Prop :=
  ∃ tag, pool.tag index = .ok tag

theorem Pool.Matches.exists_key {pool : Pool} {content : PoolContent} (same : pool.Matches content)
    {index : UInt16} (defines : pool.Defines index) : ∃ key, content.HasKey index key := by
  rcases defines with ⟨tag, tagged⟩
  rcases tag_eq_ok.mp tagged with ⟨offset, found, -⟩
  rcases same.entries found with ⟨key, has⟩
  exact ⟨key, same.keys has⟩

namespace PoolBuilder

open Pooling

/-- Whether an addition to `builder`, which holds `content`, may leave `next` with `later`. -/
structure Added (builder : PoolBuilder) (content : PoolContent) (next : PoolBuilder)
    (later : PoolContent) : Prop where
  holds : next.Holds later
  contentGrows : content.Grows later
  grows : builder.Grows next
  pointsBack : content.PointsBack → later.PointsBack

theorem Added.refl {builder : PoolBuilder} {content : PoolContent}
    (holds : builder.Holds content) : Added builder content builder content :=
  ⟨holds, .refl content, .refl builder, id⟩

theorem Added.trans {first second third : PoolBuilder} {one two three : PoolContent}
    (left : Added first one second two) (right : Added second two third three) :
    Added first one third three :=
  ⟨right.holds, left.contentGrows.trans right.contentGrows, left.grows.trans right.grows,
    fun back => right.pointsBack (left.pointsBack back)⟩

/-- The bytes that an addition with a given result leaves behind the entries that it added. -/
def strayBytes {α : Type} : Except ClassError α → List UInt8
  | .error (.textTooLong _) => [PoolTag.utf8.code]
  | _ => []

/-- What an addition with a given result leaves where `clean` has the entries that it added. -/
def leftBy {α : Type} (clean : PoolBuilder) (result : Except ClassError α) : PoolBuilder :=
  { clean with entries := clean.entries.bytes (strayBytes result) }

/-- What an addition does to every builder that holds some content. -/
def Adds {α : Type} (Before : Pool → Prop) (adding : Pooling α) (After : α → Pool → Prop) : Prop :=
  ∀ (builder : PoolBuilder) (content : PoolContent), builder.Holds content →
    (∀ pool : Pool, pool.Has content → Before pool) →
    ∀ (result : Except ClassError α) (next : PoolBuilder), adding.on builder = (result, next) →
      ∃ clean later, next = clean.leftBy result ∧ Added builder content clean later ∧
        ∀ value, result = .ok value →
          (∀ pool : Pool, pool.Has later → After value pool) ∧
            ∀ known, clean.Grows known → adding.on known = (.ok value, known)

theorem strayBytes_error {α β : Type} (cause : ClassError) :
    strayBytes (.error cause : Except ClassError α) =
      strayBytes (.error cause : Except ClassError β) := by
  cases cause <;> rfl

theorem strayBytes_eq_nil {α : Type} {result : Except ClassError α}
    (notTooLong : ∀ size, result ≠ .error (.textTooLong size)) : strayBytes result = [] := by
  rcases result with cause | value
  · cases cause with
    | textTooLong size => exact absurd rfl (notTooLong size)
    | _ => rfl
  · rfl

theorem leftBy_eq_self {α : Type} {clean : PoolBuilder} {result : Except ClassError α}
    (notTooLong : ∀ size, result ≠ .error (.textTooLong size)) : clean.leftBy result = clean := by
  rw [leftBy, strayBytes_eq_nil notTooLong]
  rfl

theorem leftBy_inj {α : Type} {first second : PoolBuilder} {result : Except ClassError α}
    (same : first.leftBy result = second.leftBy result) : first = second := by
  have entries : first.entries = second.entries := by
    have bytes := congrArg (fun builder : PoolBuilder => builder.entries.toList) same
    simp only [leftBy, Output.toList_bytes, List.append_cancel_right_eq] at bytes
    exact Output.eq_of_toList bytes
  cases first
  cases second
  simp_all [leftBy]

section Rules

variable {α β : Type} {Before : Pool → Prop}

theorem Adds.pure (value : α) : Adds Before (pure value) fun result _ => result = value := by
  intro builder content holds _ result next ran
  cases ran
  refine ⟨builder, content, rfl, .refl holds, fun other same => ⟨fun _ _ => ?_, fun known _ => ?_⟩⟩
  · cases same
    rfl
  · cases same
    rfl

/-- A failure that is not for a text changes nothing. -/
theorem Adds.throw {cause : ClassError} {After : α → Pool → Prop}
    (notTooLong : ∀ size, cause ≠ .textTooLong size) : Adds Before (throw cause) After := by
  intro builder content holds _ result next ran
  cases ran
  have nothing : ∀ size, (.error cause : Except ClassError α) ≠ .error (.textTooLong size) :=
    fun size same => notTooLong size (Except.error.inj same)
  exact ⟨builder, content, (leftBy_eq_self nothing).symm, .refl holds, fun _ same => by cases same⟩

/-- What holds before an addition holds after it too. -/
theorem Adds.bind {first : Pooling α} {second : α → Pooling β} {Middle : α → Pool → Prop}
    {After : β → Pool → Prop} (adds : Adds Before first Middle)
    (next : ∀ value, Adds (fun pool => Before pool ∧ Middle value pool) (second value) After) :
    Adds Before (first >>= second) After := by
  intro builder content holds before result last ran
  rw [on_bind] at ran
  rcases ranFirst : first.on builder with ⟨_ | value, middle⟩
  case error cause =>
    rw [ranFirst] at ran
    cases ran
    rcases adds _ _ holds before _ _ ranFirst with ⟨clean, later, left, added, -⟩
    rw [leftBy, strayBytes_error cause] at left
    exact ⟨clean, later, left, added, fun _ same => by cases same⟩
  case ok =>
    rw [ranFirst] at ran
    rcases adds _ _ holds before _ _ ranFirst with ⟨_, between, rfl, addedFirst, gave⟩
    rcases gave value rfl with ⟨meant, again⟩
    rcases next value _ _ addedFirst.holds (fun pool has =>
      ⟨before pool (has.mono addedFirst.contentGrows), meant pool has⟩) _ _ ran with
      ⟨clean, later, left, addedSecond, gaveSecond⟩
    refine ⟨clean, later, left, addedFirst.trans addedSecond, fun result same => ?_⟩
    rcases gaveSecond result same with ⟨meantSecond, againSecond⟩
    refine ⟨meantSecond, fun known grows => ?_⟩
    rw [on_bind, again known (addedSecond.grows.trans grows)]
    exact againSecond known grows

theorem Adds.weaken {adding : Pooling α} {Before' : Pool → Prop} {After After' : α → Pool → Prop}
    (adds : Adds Before adding After) (before : ∀ pool, Before' pool → Before pool)
    (after : ∀ value pool, Before' pool → After value pool → After' value pool) :
    Adds Before' adding After' := by
  intro builder content holds known result next ran
  rcases adds _ _ holds (fun pool has => before pool (known pool has)) _ _ ran with
    ⟨clean, later, left, added, gave⟩
  refine ⟨clean, later, left, added, fun value same => ?_⟩
  rcases gave value same with ⟨meant, again⟩
  exact ⟨fun pool has =>
    after value pool (known pool (has.mono added.contentGrows)) (meant pool has), again⟩

/-- What follows from what is known of the pools may be used, since there is one. -/
theorem Adds.of_fact {adding : Pooling α} {After : α → Pool → Prop} {fact : Prop}
    (known : ∀ pool, Before pool → fact) (adds : fact → Adds Before adding After) :
    Adds Before adding After := by
  intro builder content holds before
  rcases holds.exists_pool with ⟨pool, same⟩
  exact adds (known pool (before pool same.has)) builder content holds before

end Rules

/-! ### Single entries and bootstrap methods -/

theorem on_add (key : PoolKey) (builder : PoolBuilder) :
    (add key).on builder =
      match builder.indices[key]? with
      | some index => (.ok index, builder)
      | none => (append key).on builder := by
  rw [add, on_bind, on_get]
  cases known : builder.indices[key]? with
  | some index => simp only [known, on_pure]
  | none => simp only [known]

theorem on_append (key : PoolKey) (builder : PoolBuilder) :
    (append key).on builder =
      if 65535 < builder.count.toNat + key.width then (.error .poolOverflow, builder)
      else match key.overlong? with
        | some size =>
            (.error (.textTooLong size),
              { builder with entries := builder.entries.u8 key.tag.code })
        | none => (.ok builder.count, builder.push key) := by
  rw [append, on_bind, on_get]
  by_cases full : 65535 < builder.count.toNat + key.width
  · simp only [full, if_true, on_bind, on_throw]
  · simp only [full, if_false]
    cases key.overlong? with
    | some size => simp only [on_bind, on_modify, on_throw]
    | none => simp only [on_bind, on_modify, on_pure]

/-- An entry that is not there yet is added behind the others. -/
theorem on_add_new {key : PoolKey} {builder : PoolBuilder} (absent : builder.indices[key]? = none)
    (fits : builder.count.toNat + key.width ≤ 65535) (short : key.overlong? = none) :
    (add key).on builder = (.ok builder.count, builder.push key) := by
  rw [on_add, absent]
  simp only [on_append, Nat.not_lt.mpr fits, if_false, short]

theorem on_bootstrapOfBytes (bytes : List UInt8) (builder : PoolBuilder) :
    (bootstrapOfBytes bytes).on builder =
      match builder.bootstrapIndices[bytes]? with
      | some index => (.ok index, builder)
      | none =>
        if builder.bootstrapCount = 65535 then
          (.error (.tooManyEntries "bootstrap methods"), builder)
        else
          (.ok builder.bootstrapCount,
            { builder with
              bootstrapIndices := builder.bootstrapIndices.insert bytes builder.bootstrapCount,
              bootstraps := builder.bootstraps.bytes bytes,
              bootstrapCount := builder.bootstrapCount + 1 }) := by
  rw [bootstrapOfBytes, on_bind, on_get]
  cases known : builder.bootstrapIndices[bytes]? with
  | some index => simp only [known, on_pure]
  | none =>
      by_cases full : builder.bootstrapCount = 65535
      · simp only [known, on_bind, on_get, full, if_true, on_throw]
      · simp only [known, on_bind, on_get, full, if_false, on_pure, on_modify]

theorem pointsBack_push {content : PoolContent} {key : PoolKey} (stored : key.IsBody key.body)
    (defined : ∀ ref ∈ key.references, ∃ other, content.HasKey ref other)
    (bootstrap : ∀ place, key.bootstrap? = some place →
      ∃ refs : BootstrapRefs, content.bootstraps[place.toNat]? = some refs)
    (back : content.PointsBack) :
    (content.withRecord (.ofBody key key.body stored)).PointsBack := by
  have grows := content.grows_withRecord (.ofBody key key.body stored)
  -- A reference that is defined comes before the next index.
  have before : ∀ {index ref : UInt16}, index.toNat = (recordSlots content.records).length + 1 →
      (∃ other, content.HasKey ref other) → 0 < ref ∧ ref < index := by
    rintro index ref last ⟨other, has⟩
    have bounds := has.bounds
    rw [UInt16.lt_iff_toNat_lt, UInt16.lt_iff_toNat_lt]
    exact ⟨by simpa using bounds.1, by omega⟩
  constructor
  · rintro index other ⟨record, found, has⟩ ref member
    rcases recordAt_concat.mp found with old | ⟨last, rfl⟩
    · exact back.entries ⟨record, old, has⟩ ref member
    · rw [has.unique ⟨rfl, stored⟩] at member
      exact before last (defined ref member)
  · rintro index other place ⟨record, found, has⟩ refers
    rcases recordAt_concat.mp found with old | ⟨last, rfl⟩
    · exact back.bootstraps ⟨record, old, has⟩ refers
    · rw [has.unique ⟨rfl, stored⟩] at refers
      rcases bootstrap place refers with ⟨refs, there⟩
      refine ⟨refs, there, fun ref member => before last ?_⟩
      exact back.defined refs (List.mem_of_getElem? there) ref member
  · intro refs member ref inside
    rcases back.defined refs member ref inside with ⟨other, has⟩
    exact ⟨other, grows.hasKey has⟩

theorem pointsBack_pushBootstrap {content : PoolContent} {refs : BootstrapRefs}
    (defined : ∀ ref ∈ refs.references, ∃ key, content.HasKey ref key)
    (back : content.PointsBack) : (content.withBootstrap refs).PointsBack := by
  have grows := content.grows_withBootstrap refs
  constructor
  · exact fun has => back.entries has
  · intro index key place has refers
    rcases back.bootstraps has refers with ⟨other, there, bounds⟩
    exact ⟨other, grows.bootstrap there, bounds⟩
  · intro other member
    rcases List.mem_append.mp member with old | new
    · exact back.defined other old
    · rw [List.mem_singleton.mp new]
      exact defined

section Single

variable {Before : Pool → Prop}

theorem adds_add {key : PoolKey} (survives : key.Survives)
    (defined : ∀ pool, Before pool → ∀ ref ∈ key.references, pool.Defines ref)
    (bootstrap : ∀ pool, Before pool → ∀ place, key.bootstrap? = some place →
      ∃ refs : BootstrapRefs, pool.rawBootstrapMethod place = .ok refs.bytes) :
    Adds Before (add key) fun index pool => pool.HasKey index key := by
  intro builder content held before result next ran
  rw [on_add] at ran
  cases known : builder.indices[key]? with
  | some index =>
      rw [known] at ran
      cases ran
      refine ⟨builder, content, rfl, .refl held, fun value same => ?_⟩
      cases same
      refine ⟨fun pool has => has.keys (held.indices known), fun later grows => ?_⟩
      rw [on_add, grows.indices known]
  | none =>
      simp only [known, on_append] at ran
      split at ran
      · cases ran
        exact ⟨builder, content, rfl, .refl held, fun _ same => by cases same⟩
      · rename_i fits
        split at ran
        · rename_i size long
          cases ran
          refine ⟨builder, content, ?_, .refl held, fun _ same => by cases same⟩
          rw [PoolKey.tag_of_overlong long]
          rfl
        · rename_i short
          cases ran
          have stored := PoolKey.isBody_body survives short
          have pushed := held.push stored (by omega)
          have found : (builder.push key).indices[key]? = some builder.count := by
            simp [push]
          rcases held.exists_pool with ⟨pool, same⟩
          refine ⟨_, _, rfl, ⟨pushed, content.grows_withRecord _, grows_push known, ?_⟩,
            fun value same => ?_⟩
          · refine pointsBack_push stored (fun ref member => ?_) (fun place refers => ?_)
            · exact same.exists_key (defined pool (before pool same.has) ref member)
            · rcases bootstrap pool (before pool same.has) place refers with ⟨refs, there⟩
              exact ⟨refs, same.bootstraps there⟩
          · cases same
            refine ⟨fun pool has => has.keys (pushed.indices found), fun later grows => ?_⟩
            rw [on_add, grows.indices found]

theorem adds_bootstrapOfBytes {refs : BootstrapRefs}
    (defined : ∀ pool, Before pool → ∀ ref ∈ refs.references, pool.Defines ref) :
    Adds Before (bootstrapOfBytes refs.bytes) fun place pool =>
      pool.rawBootstrapMethod place = .ok refs.bytes := by
  intro builder content held before result next ran
  rw [on_bootstrapOfBytes] at ran
  cases known : builder.bootstrapIndices[refs.bytes]? with
  | some index =>
      rw [known] at ran
      cases ran
      refine ⟨builder, content, rfl, .refl held, fun value same => ?_⟩
      cases same
      refine ⟨fun pool has => ?_, fun later grows => ?_⟩
      · rcases held.bootstrapIndices known with ⟨other, there, same⟩
        rw [← same]
        exact has.bootstraps there
      · rw [on_bootstrapOfBytes, grows.bootstrapIndices known]
  | none =>
      rw [known] at ran
      simp only at ran
      split at ran
      · cases ran
        exact ⟨builder, content, rfl, .refl held, fun _ same => by cases same⟩
      · rename_i room
        cases ran
        have pushed := @Holds.pushBootstrap builder content held refs
          (builder.bootstrapIndices.insert refs.bytes builder.bootstrapCount) room (by
            intro other index found
            rw [Std.HashMap.getElem?_insert] at found
            split at found
            · rename_i same
              cases found
              exact .inr ⟨(eq_of_beq same).symm, rfl⟩
            · exact .inl found)
        rcases held.exists_pool with ⟨pool, same⟩
        refine ⟨_, _, rfl,
          ⟨pushed, content.grows_withBootstrap _, grows_pushBootstrap known _ _, ?_⟩,
          fun value same => ?_⟩
        · exact pointsBack_pushBootstrap fun ref member =>
            same.exists_key (defined pool (before pool same.has) ref member)
        · cases same
          refine ⟨fun pool has => has.bootstraps ?_, fun later grows => ?_⟩
          · simp [PoolContent.withBootstrap, held.bootstrapCount]
          · rw [on_bootstrapOfBytes, grows.bootstrapIndices (Std.HashMap.getElem?_insert_self)]

/-! ### Every kind of entry -/

theorem adds_text {value : Text} (survives : value.Survives) :
    Adds Before (text value) fun index pool => pool.text index = .ok value :=
  (@adds_add Before (.utf8 value) survives (by simp [PoolKey.references])
    (by simp [PoolKey.bootstrap?])).weaken (fun _ => id) fun _ _ _ => Pool.text_eq_ok.mpr

/-- An entry without references. -/
theorem adds_plain {key : PoolKey} (survives : key.Survives) (closed : key.references = [])
    (static : key.bootstrap? = none) :
    Adds Before (add key) fun index pool => pool.HasKey index key :=
  adds_add survives (by simp [closed]) (by simp [static])

/-- An entry that only names a text. -/
theorem adds_named (key : UInt16 → PoolKey) (survives : ∀ place, (key place).Survives)
    (one : ∀ place, (key place).references = [place]) (static : ∀ place, (key place).bootstrap? = none)
    {value : Text} (valueSurvives : value.Survives) :
    Adds Before (do add (key (← text value))) fun index pool =>
      ∃ place, pool.HasKey index (key place) ∧ pool.text place = .ok value := by
  refine (adds_text valueSurvives).bind fun place => ?_
  refine (adds_add (survives place) ?_ (by simp [static])).weaken (fun _ => id) ?_
  · rintro pool ⟨-, named⟩ ref member
    rw [one, List.mem_singleton] at member
    exact ⟨_, member ▸ Pool.tag_of_bodyOf named⟩
  · rintro index pool ⟨-, named⟩ has
    exact ⟨place, has, named⟩

theorem adds_classRef {name : Text} (survives : name.Survives) :
    Adds Before (classRef name) fun index pool => pool.classRef index = .ok name :=
  (adds_named PoolKey.classRef (fun _ => trivial) (fun _ => rfl) (fun _ => rfl) survives).weaken
    (fun _ => id) fun _ _ _ => Pool.classRef_eq_ok.mpr

theorem adds_string {value : Text} (survives : value.Survives) :
    Adds Before (string value) fun index pool => pool.string index = .ok value :=
  (adds_named PoolKey.string (fun _ => trivial) (fun _ => rfl) (fun _ => rfl) survives).weaken
    (fun _ => id) fun _ _ _ => Pool.string_eq_ok.mpr

theorem adds_methodType {descriptor : Text} (survives : descriptor.Survives) :
    Adds Before (methodType descriptor) fun index pool =>
      pool.methodType index = .ok descriptor :=
  (adds_named PoolKey.methodType (fun _ => trivial) (fun _ => rfl) (fun _ => rfl) survives).weaken
    (fun _ => id) fun _ _ _ => Pool.methodType_eq_ok.mpr

theorem adds_moduleRef {name : Text} (survives : name.Survives) :
    Adds Before (moduleRef name) fun index pool => pool.moduleRef index = .ok name :=
  (adds_named PoolKey.moduleRef (fun _ => trivial) (fun _ => rfl) (fun _ => rfl) survives).weaken
    (fun _ => id) fun _ _ _ => Pool.moduleRef_eq_ok.mpr

theorem adds_packageRef {name : Text} (survives : name.Survives) :
    Adds Before (packageRef name) fun index pool => pool.packageRef index = .ok name :=
  (adds_named PoolKey.packageRef (fun _ => trivial) (fun _ => rfl) (fun _ => rfl) survives).weaken
    (fun _ => id) fun _ _ _ => Pool.packageRef_eq_ok.mpr

theorem adds_nameAndType {name descriptor : Text} (nameSurvives : name.Survives)
    (descriptorSurvives : descriptor.Survives) :
    Adds Before (nameAndType name descriptor) fun index pool =>
      pool.nameAndType index = .ok ⟨name, descriptor⟩ := by
  refine (adds_text nameSurvives).bind fun first => ?_
  refine (adds_text descriptorSurvives).bind fun second => ?_
  refine (@adds_add _ (.nameAndType first second) trivial ?_ (by simp [PoolKey.bootstrap?])).weaken
    (fun _ => id) ?_
  · rintro pool ⟨⟨-, named⟩, described⟩ ref member
    simp only [PoolKey.references, List.mem_cons, List.not_mem_nil, or_false] at member
    rcases member with rfl | rfl
    · exact ⟨_, Pool.tag_of_bodyOf named⟩
    · exact ⟨_, Pool.tag_of_bodyOf described⟩
  · rintro index pool ⟨⟨-, named⟩, described⟩ has
    exact Pool.nameAndType_eq_ok.mpr ⟨first, second, has, named, described⟩

/-- An entry for a member of a class. -/
theorem adds_member (key : UInt16 → UInt16 → PoolKey)
    (survives : ∀ owner target, (key owner target).Survives)
    (two : ∀ owner target, (key owner target).references = [owner, target])
    (static : ∀ owner target, (key owner target).bootstrap? = none) {member : MemberRef}
    (memberSurvives : member.Survives) :
    Adds Before
      (do
        let owner ← classRef member.owner
        let target ← nameAndType member.name member.descriptor
        add (key owner target))
      fun index pool => ∃ owner target, pool.HasKey index (key owner target) ∧
        pool.classRef owner = .ok member.owner ∧
        pool.nameAndType target = .ok ⟨member.name, member.descriptor⟩ := by
  refine (adds_classRef memberSurvives.owner).bind fun owner => ?_
  refine (adds_nameAndType memberSurvives.name memberSurvives.descriptor).bind fun target => ?_
  refine (adds_add (survives owner target) ?_ (by simp [static])).weaken (fun _ => id) ?_
  · rintro pool ⟨⟨-, owned⟩, named⟩ ref member
    simp only [two, List.mem_cons, List.not_mem_nil, or_false] at member
    rcases member with rfl | rfl
    · exact ⟨_, Pool.tag_of_bodyOf owned⟩
    · exact ⟨_, Pool.tag_of_bodyOf named⟩
  · rintro index pool ⟨⟨-, owned⟩, named⟩ has
    exact ⟨owner, target, has, owned, named⟩

theorem adds_fieldRef {member : MemberRef} (survives : member.Survives) :
    Adds Before (fieldRef member) fun index pool => pool.fieldRef index = .ok member :=
  (adds_member PoolKey.fieldRef (fun _ _ => trivial) (fun _ _ => rfl) (fun _ _ => rfl)
    survives).weaken (fun _ => id) fun _ _ _ => Pool.fieldRef_eq_ok.mpr

theorem adds_methodRef {member : MemberRef} {isInterface : Bool} (survives : member.Survives) :
    Adds Before (methodRef member isInterface) fun index pool =>
      pool.anyMethodRef index = .ok (member, isInterface) := by
  cases isInterface with
  | true =>
      exact (adds_member PoolKey.interfaceMethodRef (fun _ _ => trivial) (fun _ _ => rfl)
        (fun _ _ => rfl) survives).weaken (fun _ => id) fun _ _ _ found =>
          Pool.anyMethodRef_eq_ok.mpr (Pool.interfaceMethodRef_eq_ok.mpr found)
  | false =>
      exact (adds_member PoolKey.methodRef (fun _ _ => trivial) (fun _ _ => rfl)
        (fun _ _ => rfl) survives).weaken (fun _ => id) fun _ _ _ found =>
          Pool.anyMethodRef_eq_ok.mpr (Pool.methodRef_eq_ok.mpr found)

theorem defines_of_handleMember {pool : Pool} {kind : HandleKind} {index : UInt16}
    {result : MemberRef × Bool} (got : pool.handleMember kind index = .ok result) :
    pool.Defines index := by
  cases kind with
  | invokeStatic | invokeSpecial =>
      rcases result with ⟨member, _ | _⟩
      · exact ⟨_, Pool.tag_of_bodyOf (Pool.anyMethodRef_eq_ok.mp got)⟩
      · exact ⟨_, Pool.tag_of_bodyOf (Pool.anyMethodRef_eq_ok.mp got)⟩
  | _ =>
      rcases bind_eq_ok.mp got with ⟨member, read, -⟩
      exact ⟨_, Pool.tag_of_bodyOf read⟩

/-- The entry that a handle refers to is of the kind that its own kind asks for. -/
theorem adds_handleMember {value : Handle} (storable : value.Storable) :
    Adds Before
      (if value.kind.isField then fieldRef ⟨value.owner, value.name, value.descriptor⟩
      else methodRef ⟨value.owner, value.name, value.descriptor⟩ value.isInterface)
      fun target pool => pool.handleMember value.kind target =
        .ok (⟨value.owner, value.name, value.descriptor⟩, value.isInterface) := by
  rcases value with ⟨kind, owner, name, descriptor, isInterface⟩
  have agrees := storable.agrees
  cases kind with
  | getField | getStatic | putField | putStatic =>
      cases agrees
      exact (adds_fieldRef storable.survives).weaken (fun _ => id) fun _ _ _ found =>
        bind_eq_ok.mpr ⟨_, found, rfl⟩
  | invokeVirtual | newInvokeSpecial =>
      cases agrees
      exact (adds_methodRef storable.survives).weaken (fun _ => id) fun _ _ _ found =>
        bind_eq_ok.mpr ⟨_, Pool.anyMethodRef_eq_ok.mp found, rfl⟩
  | invokeInterface =>
      cases agrees
      exact (adds_methodRef storable.survives).weaken (fun _ => id) fun _ _ _ found =>
        bind_eq_ok.mpr ⟨_, Pool.anyMethodRef_eq_ok.mp found, rfl⟩
  | invokeStatic | invokeSpecial => exact adds_methodRef storable.survives

theorem handle_eq (value : Handle) :
    handle value =
      (if value.kind.isField then fieldRef ⟨value.owner, value.name, value.descriptor⟩
      else methodRef ⟨value.owner, value.name, value.descriptor⟩ value.isInterface) >>=
        fun target => add (.methodHandle value.kind.code target) := by
  unfold handle
  split <;> rfl

theorem adds_handle {value : Handle} (storable : value.Storable) :
    Adds Before (handle value) fun index pool => pool.handle index = .ok value := by
  rw [handle_eq]
  refine (adds_handleMember storable).bind fun target => ?_
  refine (@adds_add _ (.methodHandle value.kind.code target) trivial ?_
    (by simp [PoolKey.bootstrap?])).weaken (fun _ => id) ?_
  · rintro pool ⟨-, found⟩ ref member
    rw [List.mem_singleton.mp member]
    exact defines_of_handleMember found
  · rintro index pool ⟨-, found⟩ has
    exact Pool.handle_eq_ok.mpr ⟨target, has, found⟩

end Single

/-! ### Bootstrap methods and constants -/

section Constants

variable {Before : Pool → Prop}

/-- Whether the entries with these indices are the constants. -/
def LoadsAll (pool : Pool) (indices : List UInt16) (values : List Constant) : Prop :=
  List.Forall₂ (fun ref (value : Constant) => ∀ levels, value.levels ≤ levels →
    pool.constantWithin levels ref = .ok value) indices values

/-- Whether the bootstrap method with a given index is that one. -/
def HasMethod (pool : Pool) (place : UInt16) (method : Handle) (values : List Constant) : Prop :=
  ∃ refs : BootstrapRefs, pool.rawBootstrapMethod place = .ok refs.bytes ∧
    pool.handle refs.handle = .ok method ∧ LoadsAll pool refs.arguments values

theorem LoadsAll.within {pool : Pool} {indices : List UInt16} {values : List Constant}
    (loads : LoadsAll pool indices values) {levels : Nat}
    (enough : Constant.levelsOfAll values ≤ levels) :
    List.Forall₂ (fun ref value => pool.constantWithin levels ref = .ok value) indices values := by
  unfold LoadsAll at loads
  induction loads with
  | nil => exact List.Forall₂.nil
  | cons load _ ih =>
      rw [Constant.levelsOfAll, Nat.max_le] at enough
      exact List.Forall₂.cons (load levels enough.1) (ih enough.2)

theorem LoadsAll.defines {pool : Pool} {indices : List UInt16} {values : List Constant}
    (loads : LoadsAll pool indices values) : ∀ ref ∈ indices, pool.Defines ref := by
  unfold LoadsAll at loads
  induction loads with
  | nil => simp
  | cons load _ ih =>
      intro ref member
      rcases List.mem_cons.mp member with rfl | inRest
      · have got := load _ (Nat.le_refl _)
        rw [Pool.constantWithin, bind_eq_ok] at got
        rcases got with ⟨tag, tagged, -⟩
        exact ⟨tag, tagged⟩
      · exact ih ref inRest

theorem HasMethod.bootstrapWith {pool : Pool} {place : UInt16} {method : Handle}
    {values : List Constant} (has : HasMethod pool place method values) {levels : Nat}
    (enough : Constant.levelsOfAll values ≤ levels) :
    pool.bootstrapWith (pool.constantWithin levels) place = .ok (method, values) := by
  rcases has with ⟨refs, found, handled, loads⟩
  exact Pool.bootstrapWith_eq_ok.mpr ⟨refs, found, handled, loads.within enough⟩

theorem throw_bind {α β : Type} (cause : ClassError) (next : α → Pooling β) :
    ((throw cause : Pooling α) >>= next) = throw cause :=
  rfl

theorem adds_bootstrapOf {method : Handle} {values : List Constant} {arguments : Pooling (List UInt16)}
    (storable : method.Storable)
    (adds : ∀ {Before}, Adds Before arguments fun indices pool => LoadsAll pool indices values) :
    Adds Before (bootstrapOf method values.length arguments) fun place pool =>
      HasMethod pool place method values := by
  refine (adds_handle storable).bind fun index => ?_
  split
  · rw [throw_bind]
    exact Adds.throw (by simp)
  · rename_i short
    refine adds.bind fun indices => ?_
    refine Adds.of_fact (fun pool known => known.2.length_eq) fun length => ?_
    rw [← length] at short ⊢
    refine (@adds_bootstrapOfBytes _ ⟨index, indices, by omega⟩ ?_).weaken (fun _ => id) ?_
    · rintro pool ⟨⟨-, handled⟩, loads⟩ ref member
      rcases List.mem_cons.mp member with rfl | inArguments
      · exact ⟨_, Pool.tag_of_bodyOf handled⟩
      · exact loads.defines ref inArguments
    · rintro place pool ⟨⟨-, handled⟩, loads⟩ found
      exact ⟨_, found, handled, loads⟩

/-- A dynamic constant or call site. -/
theorem adds_dynamic (key : UInt16 → UInt16 → PoolKey)
    (survives : ∀ bootstrap target, (key bootstrap target).Survives)
    (one : ∀ bootstrap target, (key bootstrap target).references = [target])
    (dynamic : ∀ bootstrap target, (key bootstrap target).bootstrap? = some bootstrap)
    {name descriptor : Text} {method : Handle} {values : List Constant}
    {bootstrap : Pooling UInt16}
    (adds : ∀ {Before}, Adds Before bootstrap fun place pool => HasMethod pool place method values)
    (nameSurvives : name.Survives) (descriptorSurvives : descriptor.Survives) :
    Adds Before
      (do
        let place ← bootstrap
        add (key place (← nameAndType name descriptor)))
      fun index pool => ∃ place target, pool.HasKey index (key place target) ∧
        pool.nameAndType target = .ok ⟨name, descriptor⟩ ∧ HasMethod pool place method values := by
  refine adds.bind fun place => ?_
  refine (adds_nameAndType nameSurvives descriptorSurvives).bind fun target => ?_
  refine (adds_add (survives place target) ?_ ?_).weaken (fun _ => id) ?_
  · rintro pool ⟨-, named⟩ ref member
    rw [one, List.mem_singleton] at member
    exact ⟨_, member ▸ Pool.tag_of_bodyOf named⟩
  · rintro pool ⟨⟨-, refs, found, -⟩, -⟩ other refers
    rw [dynamic, Option.some.injEq] at refers
    exact ⟨refs, refers ▸ found⟩
  · rintro index pool ⟨⟨-, has⟩, named⟩ found
    exact ⟨place, target, found, named, has⟩

mutual

theorem adds_constant {Before : Pool → Prop} : (value : Constant) → value.Storable →
    Adds Before (constant value) fun index pool => ∀ levels, value.levels ≤ levels →
      pool.constantWithin levels index = .ok value
  | .integer value, _ =>
      (@adds_plain Before (.integer value) trivial rfl rfl).weaken (fun _ => id)
        fun _ _ _ has _ _ => Pool.constantWithin_eq_ok.mpr (Pool.integer_eq_ok.mpr has)
  | .float bits, _ =>
      (@adds_plain Before (.float bits) trivial rfl rfl).weaken (fun _ => id)
        fun _ _ _ has _ _ => Pool.constantWithin_eq_ok.mpr (Pool.float_eq_ok.mpr has)
  | .long value, _ =>
      (@adds_plain Before (.long value) trivial rfl rfl).weaken (fun _ => id)
        fun _ _ _ has _ _ => Pool.constantWithin_eq_ok.mpr (Pool.long_eq_ok.mpr has)
  | .double bits, _ =>
      (@adds_plain Before (.double bits) trivial rfl rfl).weaken (fun _ => id)
        fun _ _ _ has _ _ => Pool.constantWithin_eq_ok.mpr (Pool.double_eq_ok.mpr has)
  | .string value, storable =>
      (adds_string storable).weaken (fun _ => id)
        fun _ _ _ found _ _ => Pool.constantWithin_eq_ok.mpr found
  | .classRef name, storable =>
      (adds_classRef storable).weaken (fun _ => id)
        fun _ _ _ found _ _ => Pool.constantWithin_eq_ok.mpr found
  | .methodType descriptor, storable =>
      (adds_methodType storable).weaken (fun _ => id)
        fun _ _ _ found _ _ => Pool.constantWithin_eq_ok.mpr found
  | .handle value, storable =>
      (adds_handle storable).weaken (fun _ => id)
        fun _ _ _ found _ _ => Pool.constantWithin_eq_ok.mpr found
  | .dynamic name descriptor method arguments, storable => by
      rcases storable with ⟨nameSurvives, descriptorSurvives, methodStorable, argumentsStorable⟩
      refine (adds_dynamic PoolKey.dynamic (fun _ _ => trivial) (fun _ _ => rfl) (fun _ _ => rfl)
        (adds_bootstrapOf methodStorable
          ((adds_constants arguments [] argumentsStorable).weaken (fun _ => id) ?_))
        nameSurvives descriptorSurvives).weaken (fun _ => id) ?_
      · rintro indices pool - ⟨new, rfl, loads⟩
        exact loads
      · rintro index pool - ⟨place, target, has, named, hasMethod⟩ levels enough
        refine Pool.constantWithin_eq_ok.mpr ?_
        rw [Constant.levels] at enough
        rcases Nat.exists_eq_add_of_le' enough with ⟨further, rfl⟩
        exact ⟨_, place, (Nat.add_assoc ..).symm, Pool.dynamicRef_eq_ok.mpr ⟨target, has, named⟩,
          hasMethod.bootstrapWith (Nat.le_add_left ..)⟩

theorem adds_constants {Before : Pool → Prop} : (values : List Constant) → (found : List UInt16) →
    Constant.AllStorable values →
    Adds Before (constants found values) fun indices pool =>
      ∃ new, indices = found.reverse ++ new ∧ LoadsAll pool new values
  | [], found, _ =>
      (Adds.pure found.reverse).weaken (fun _ => id)
        fun _ _ _ same => ⟨[], by simp [same], List.Forall₂.nil⟩
  | value :: rest, found, storable => by
      refine (adds_constant value storable.1).bind fun index => ?_
      refine (adds_constants rest (index :: found) storable.2).weaken (fun _ => id) ?_
      rintro indices pool ⟨-, load⟩ ⟨new, rfl, loads⟩
      exact ⟨index :: new, by simp, List.Forall₂.cons load loads⟩

end

theorem adds_bootstrap {method : Handle} {values : List Constant} (storable : method.Storable)
    (valuesStorable : Constant.AllStorable values) :
    Adds Before (bootstrap method values) fun place pool => HasMethod pool place method values := by
  refine adds_bootstrapOf storable
    ((adds_constants values [] valuesStorable).weaken (fun _ => id) ?_)
  rintro indices pool - ⟨new, rfl, loads⟩
  exact loads

theorem adds_invokeDynamic {name descriptor : Text} {method : Handle} {values : List Constant}
    (nameSurvives : name.Survives) (descriptorSurvives : descriptor.Survives)
    (storable : method.Storable) (valuesStorable : Constant.AllStorable values) :
    Adds Before (invokeDynamic name descriptor method values) fun index pool =>
      ∃ place, pool.invokeDynamicRef index = .ok ⟨place, name, descriptor⟩ ∧
        HasMethod pool place method values := by
  refine (adds_dynamic PoolKey.invokeDynamic (fun _ _ => trivial) (fun _ _ => rfl)
    (fun _ _ => rfl) (adds_bootstrap storable valuesStorable) nameSurvives
    descriptorSurvives).weaken (fun _ => id) ?_
  rintro index pool - ⟨place, target, has, named, hasMethod⟩
  exact ⟨place, Pool.invokeDynamicRef_eq_ok.mpr ⟨target, has, named⟩, hasMethod⟩

end Constants


end PoolBuilder

end ClassFile
