import ClassFile.Proofs.Pool.Steps

/-!
# Runs of additions

A run adds one item after the other to a builder, and goes on after a failure with what the failed
addition left behind.  Whatever a run adds from one of the two starts, the bytes of the builder are
read as a pool in which every index that was given out means the item that it was given out for
(`faithful_addAll`).

The proof follows the run: one addition keeps the invariant and what was known before
(`adds_item`), and so does a run of them (`addAll_added`).
-/

namespace ClassFile

namespace PoolBuilder

/-- What one addition of a run did: the items that it added, and the bytes of their entries. -/
structure Addition where
  item : PoolItem
  result : Except ClassError UInt16
  added : List PoolItem
  written : List UInt8

/-- Whether an addition added its item behind all that the item depends on, or failed and added no
more than some of that. -/
def Addition.IsSound (addition : Addition) : Prop :=
  match addition.result with
  | .ok _ => addition.added = addition.item.dependencies ++ [addition.item]
  | .error _ => addition.added <+: addition.item.dependencies

/-- What a run of additions did, told by the builder that has only whole entries. -/
structure Logged (builder clean : PoolBuilder) (items : List PoolItem)
    (results : List (Except ClassError UInt16)) (log : List Addition) : Prop where
  items : log.map Addition.item = items
  results : log.map Addition.result = results
  sound : ∀ addition ∈ log, addition.IsSound
  adds : builder.AddsAll (log.flatMap Addition.added) clean
  entries : clean.entries = builder.entries.bytes (log.flatMap Addition.written)

/-- The bytes that a run appends to the entries. -/
def logBytes (log : List Addition) : List UInt8 :=
  log.flatMap fun addition => addition.written ++ strayBytes addition.result

theorem logBytes_of_whole {log : List Addition}
    (notTooLong : ∀ addition ∈ log, ∀ size, addition.result ≠ .error (.textTooLong size)) :
    logBytes log = log.flatMap Addition.written := by
  refine List.flatMap_congr fun addition member => ?_
  rw [strayBytes_eq_nil (notTooLong addition member), List.append_nil]

theorem Logged.append {first second third : PoolBuilder} {items items' : List PoolItem}
    {results results' : List (Except ClassError UInt16)} {log log' : List Addition}
    (left : Logged first second items results log) (right : Logged second third items' results' log') :
    Logged first third (items ++ items') (results ++ results') (log ++ log') where
  items := by rw [List.map_append, left.items, right.items]
  results := by rw [List.map_append, left.results, right.results]
  sound addition member := by
    rcases List.mem_append.mp member with inLeft | inRight
    · exact left.sound addition inLeft
    · exact right.sound addition inRight
  adds := by
    rw [List.flatMap_append]
    exact left.adds.append right.adds
  entries := by rw [right.entries, left.entries, List.flatMap_append, Output.bytes_append]

/-- Only a text that is too long leaves stray bytes. -/
theorem Logged.last_eq {builder clean : PoolBuilder} {items : List PoolItem}
    {results : List (Except ClassError UInt16)} {log : List Addition}
    (logged : Logged builder clean items results log)
    (notTooLong : ∀ result ∈ results, ∀ size, result ≠ .error (.textTooLong size)) :
    { clean with entries := builder.entries.bytes (logBytes log) } = clean := by
  have whole := logBytes_of_whole fun addition member => notTooLong addition.result (by
    rw [← logged.results]
    exact List.mem_map_of_mem member)
  rw [whole, ← logged.entries]

/-- Whatever the bytes of the entries are, an addition does what it does to the builder that has only
whole entries, and then leaves its stray bytes. -/
theorem exists_addition {clean next : PoolBuilder} {content : PoolContent} {item : PoolItem}
    {result : Except ClassError UInt16} {entries : Output} (held : clean.Holds content)
    (storable : item.Storable) (nested : item.levels ≤ Pool.maxDynamicLevels)
    (ran : item.add.on { clean with entries } = (result, next)) :
    ∃ addition middle later, Logged clean middle [item] [result] [addition] ∧
      Added clean content middle later ∧
      next = { middle with entries := entries.bytes (logBytes [addition]) } ∧
      ∀ index, result = .ok index → (∀ pool : Pool, pool.Has later → item.Resolves pool index) ∧
        ∀ known, middle.Grows known → item.add.on known = (.ok index, known) := by
  have stepwise := stepwise_item item
  have adds := @adds_item (fun _ => True) item storable nested
  rcases ranClean : item.add.on clean with ⟨resultClean, nextClean⟩
  rcases stepwise.appends clean with ⟨appended, same⟩
  have own := same clean.entries
  have other := same entries
  rw [ranClean] at own other
  rw [ran] at other
  obtain ⟨rfl, rfl⟩ := Prod.mk.inj other
  rcases adds clean content held (fun _ _ => trivial) _ _ ranClean with
    ⟨middle, later, rfl, added, gave⟩
  rcases added.contentGrows.records with ⟨records, extended⟩
  have grown : middle.entries = clean.entries.bytes (recordBytes records) := by
    refine Output.eq_of_toList ?_
    rw [Output.toList_bytes, added.holds.entries, held.entries, ← extended]
    exact List.flatMap_append
  have appendedBytes : appended = recordBytes records ++ strayBytes result := by
    have bytes := congrArg (fun builder : PoolBuilder => builder.entries.toList)
      (Prod.mk.inj own).2
    simpa [leftBy, grown] using bytes.symm
  have steps : ∃ part, (Addition.mk item result part (recordBytes records)).IsSound ∧
      clean.AddsAll part middle := by
    cases result with
    | ok index =>
        rw [leftBy_eq_self (by simp)] at ranClean
        exact ⟨item.dependencies ++ [item], rfl, stepwise.succeeds ranClean⟩
    | error cause =>
        rcases stepwise.fails ranClean with ⟨done, other, started, addsAll, left⟩
        cases leftBy_inj left
        exact ⟨done, started, addsAll⟩
  rcases steps with ⟨part, sound, addsAll⟩
  refine ⟨⟨item, result, part, recordBytes records⟩, middle, later, ⟨rfl, rfl, by simpa, by simpa,
    by simpa⟩, added, ?_, gave⟩
  simp [leftBy, logBytes, appendedBytes]

theorem addAll_logged {clean last : PoolBuilder} {content : PoolContent} {items : List PoolItem}
    {results : List (Except ClassError UInt16)} {entries : Output} (held : clean.Holds content)
    (storable : ∀ item ∈ items, item.Storable)
    (nested : ∀ item ∈ items, item.levels ≤ Pool.maxDynamicLevels)
    (ran : addAll { clean with entries } items = (results, last)) :
    ∃ log final later, Logged clean final items results log ∧ Added clean content final later ∧
      last = { final with entries := entries.bytes (logBytes log) } ∧
      ∀ {place : Nat} {item index}, items[place]? = some item →
        results[place]? = some (.ok index) →
          (∀ pool : Pool, pool.Has later → item.Resolves pool index) ∧
            ∀ known, final.Grows known → item.add.on known = (.ok index, known) := by
  induction items generalizing clean content results entries with
  | nil =>
      cases ran
      exact ⟨[], clean, content, ⟨rfl, rfl, by simp, .nil clean, rfl⟩, .refl held, rfl, by simp⟩
  | cons item rest ih =>
      rw [addAll] at ran
      rcases ranFirst : item.add.on { clean with entries } with ⟨result, next⟩
      rcases ranRest : next.addAll rest with ⟨others, final⟩
      simp only [ranFirst, ranRest] at ran
      cases ran
      rcases exists_addition held (storable item List.mem_cons_self)
        (nested item List.mem_cons_self) ranFirst with
        ⟨addition, middle, between, loggedFirst, addedFirst, rfl, gaveFirst⟩
      rcases ih addedFirst.holds (fun other member => storable other (List.mem_cons_of_mem _ member))
        (fun other member => nested other (List.mem_cons_of_mem _ member)) ranRest with
        ⟨log, final, later, loggedRest, addedRest, rfl, gaveRest⟩
      refine ⟨addition :: log, final, later, loggedFirst.append loggedRest,
        addedFirst.trans addedRest, ?_, fun {place other index} asked answered => ?_⟩
      · simp [logBytes, Output.bytes_append]
      · cases place with
        | zero =>
            cases asked
            rcases gaveFirst index (Option.some.inj answered) with ⟨meant, again⟩
            exact ⟨fun pool has => meant pool (has.mono addedRest.contentGrows),
              fun known grows => again known (addedRest.grows.trans grows)⟩
        | succ place => exact gaveRest asked answered

/-- A run without a text that is too long keeps the invariant, and every index that it gives out is
known at its end. -/
theorem addAll_added {builder last : PoolBuilder} {content : PoolContent} {items : List PoolItem}
    {results : List (Except ClassError UInt16)} (held : builder.Holds content)
    (storable : ∀ item ∈ items, item.Storable)
    (nested : ∀ item ∈ items, item.levels ≤ Pool.maxDynamicLevels)
    (ran : builder.addAll items = (results, last))
    (notTooLong : ∀ result ∈ results, ∀ size, result ≠ .error (.textTooLong size)) :
    ∃ later, Added builder content last later ∧
      ∀ {place : Nat} {item index}, items[place]? = some item →
        results[place]? = some (.ok index) →
          (∀ pool : Pool, pool.Has later → item.Resolves pool index) ∧
            ∀ known, last.Grows known → item.add.on known = (.ok index, known) := by
  rcases @addAll_logged builder last content items results builder.entries held storable
      nested ran with
    ⟨log, final, later, logged, added, rfl, gave⟩
  rw [logged.last_eq notTooLong]
  exact ⟨later, added, gave⟩

/-- The starts of a run: the empty builder, or one that copies the pool of a class file. -/
inductive Starts : Option Pool → PoolBuilder → Prop where
  | empty : Starts none empty
  | copy {input : Input} {image : ClassImage} {builder : PoolBuilder}
      (read : ClassImage.ofInput? input = .ok image) (copied : ofPool image.pool = .ok builder) :
      Starts (some image.pool) builder

end PoolBuilder

/-- Whether `later` gives every answer that `pool` gives. -/
structure Pool.Keeps (pool later : Pool) : Prop where
  entry : ∀ {index entry}, pool.entry index = .ok entry → later.entry index = .ok entry
  constant : ∀ {index constant}, pool.constant index = .ok constant →
    later.constant index = .ok constant
  bootstrapMethod : ∀ {index method}, pool.bootstrapMethod index = .ok method →
    later.bootstrapMethod index = .ok method

/-- Whether every entry refers only to smaller indices, also by way of its bootstrap method. -/
structure Pool.PointsBack (pool : Pool) : Prop where
  known : ∀ {index offset}, pool.offsetOf index = .ok offset → ∃ key, pool.HasKey index key
  entries : ∀ {index key}, pool.HasKey index key → ∀ ref ∈ key.references, 0 < ref ∧ ref < index
  bootstraps : ∀ {index key place}, pool.HasKey index key → key.bootstrap? = some place →
    ∃ refs : BootstrapRefs, pool.rawBootstrapMethod place = .ok refs.bytes ∧
      ∀ ref ∈ refs.references, 0 < ref ∧ ref < index

namespace PoolBuilder

/-- What holds at the end of a run that started from `seed?` and gave `results` for `items`. -/
structure Faithful (seed? : Option Pool) (items : List PoolItem)
    (results : List (Except ClassError UInt16)) (last : PoolBuilder) : Prop where
  /-- What the bytes are read as. -/
  reads : ∀ {input : Input} {offset : Nat}, input.HasAt 8 (last.write .empty).toList →
    input.HasAt offset (last.writeBootstraps .empty).toList →
      ∃ parsed pool, Pool.ofInput? input = .ok parsed ∧
        parsed.withBootstrapMethods offset = .ok pool ∧ pool.size = last.count.toNat ∧
        (∀ {place : Nat} {item index}, items[place]? = some item →
          results[place]? = some (.ok index) → item.Resolves pool index) ∧
        (∀ seed, seed? = some seed → seed.Keeps pool) ∧
        (seed? = none → pool.PointsBack)
  /-- Adding again what was added finds it and changes nothing. -/
  again : ∀ {place : Nat} {item index}, items[place]? = some item →
    results[place]? = some (.ok index) → item.add.on last = (.ok index, last)
  distinct : ∀ {first second : Nat} {one two index}, items[first]? = some one →
    results[first]? = some (.ok index) → items[second]? = some two →
    results[second]? = some (.ok index) → one.isBootstrap = two.isBootstrap → one = two
  /-- The count is one more than the number of indices that the entries take. -/
  counts : ∃ records, last.entries.toList = recordBytes records ∧
    last.count.toNat = 1 + (records.map PoolRecord.width).sum ∧
    1 + (records.map PoolRecord.width).sum ≤ 65535

theorem pointsBack_empty : PoolContent.PointsBack ⟨[], []⟩ where
  entries := by
    rintro index key ⟨record, found, -⟩
    have bounds := recordAt_bounds found
    simp [recordSlots] at bounds
    omega
  bootstraps := by
    rintro index key place ⟨record, found, -⟩
    have bounds := recordAt_bounds found
    simp [recordSlots] at bounds
    omega
  defined := by simp

theorem pointsBack_of_matches {pool : Pool} {content : PoolContent} (same : pool.Matches content)
    (back : content.PointsBack) : pool.PointsBack where
  known := same.entries
  entries := fun has => back.entries (same.keys has)
  bootstraps := by
    intro index key place has refers
    rcases back.bootstraps (same.keys has) refers with ⟨refs, there, bounds⟩
    exact ⟨refs, same.has.bootstraps there, bounds⟩

theorem keeps_of_extends {pool later : Pool} (extended : pool.Extends later) : pool.Keeps later :=
  ⟨extended.entry, extended.constant, extended.bootstrapMethod⟩

/-- Both starts hold some content, and every pool with that content keeps the start's answers. -/
theorem Starts.holds {seed? : Option Pool} {builder : PoolBuilder} (starts : Starts seed? builder) :
    ∃ content, builder.Holds content ∧
      (∀ seed, seed? = some seed → ∀ later : Pool, later.Has content → seed.Keeps later) ∧
      (seed? = none → content.PointsBack) := by
  cases starts with
  | empty => exact ⟨_, holds_empty, by simp, fun _ => pointsBack_empty⟩
  | copy read copied =>
      rcases holds_ofPool (ClassImage.isRead_pool read) copied with ⟨content, holds, extends_⟩
      refine ⟨content, holds, ?_, by simp⟩
      rintro seed same later has
      cases same
      exact keeps_of_extends (extends_ later has)

/-- Every run from a start is, but for stray bytes, one that ends as it should. -/
theorem exists_faithful {seed? : Option Pool} {builder last : PoolBuilder} {items : List PoolItem}
    {results : List (Except ClassError UInt16)} (starts : Starts seed? builder)
    (storable : ∀ item ∈ items, item.Storable)
    (nested : ∀ item ∈ items, item.levels ≤ Pool.maxDynamicLevels)
    (ran : builder.addAll items = (results, last)) :
    ∃ log clean, Logged builder clean items results log ∧ Faithful seed? items results clean ∧
      last = { clean with entries := builder.entries.bytes (logBytes log) } := by
  rcases starts.holds with ⟨content, held, keeps, back⟩
  rcases @addAll_logged builder last content items results builder.entries held storable
      nested ran with
    ⟨log, clean, later, logged, added, left, gave⟩
  refine ⟨log, clean, logged, ?_, left⟩
  constructor
  · intro input offset entries bootstraps
    rcases added.holds.parses entries bootstraps with ⟨parsed, pool, read, readMethods, size, same⟩
    refine ⟨parsed, pool, read, readMethods, size, ?_, ?_, ?_⟩
    · exact fun asked answered => (gave asked answered).1 pool same.has
    · exact fun seed isSeed => keeps seed isSeed pool (same.has.mono added.contentGrows)
    · exact fun empty => pointsBack_of_matches same (added.pointsBack (back empty))
  · exact fun asked answered => (gave asked answered).2 clean (.refl clean)
  · intro first second one two index askedOne answeredOne askedTwo answeredTwo sameTable
    rcases added.holds.exists_pool with ⟨pool, same⟩
    exact Pool.resolves_unique sameTable ((gave askedOne answeredOne).1 pool same.has)
      ((gave askedTwo answeredTwo).1 pool same.has)
  · have count := added.holds.count
    have bound := clean.count.toNat_lt
    rw [length_recordSlots] at count
    exact ⟨later.records, added.holds.entries, count, by omega⟩

/-- Every run from a start in which no text is too long ends as it should. -/
theorem faithful_addAll {seed? : Option Pool} {builder last : PoolBuilder} {items : List PoolItem}
    {results : List (Except ClassError UInt16)} (starts : Starts seed? builder)
    (storable : ∀ item ∈ items, item.Storable)
    (nested : ∀ item ∈ items, item.levels ≤ Pool.maxDynamicLevels)
    (ran : builder.addAll items = (results, last))
    (notTooLong : ∀ result ∈ results, ∀ size, result ≠ .error (.textTooLong size)) :
    Faithful seed? items results last := by
  rcases exists_faithful starts storable nested ran with ⟨log, clean, logged, faithful, rfl⟩
  rw [logged.last_eq notTooLong]
  exact faithful

/-- A dynamic constant whose bootstrap method takes another one and a number. -/
def nestedDynamic : Constant :=
  let text : Text := ⟨[65]⟩
  let method : Handle := ⟨.invokeStatic, text, text, text, false⟩
  .dynamic text text method [.dynamic text text method [], .long 5]

theorem addAll_nestedDynamic :
    (empty.addAll [.loadable nestedDynamic, .loadable (.long 5)]).1 = [.ok 9, .ok 7] := by
  have stored : Text.encode ⟨[65]⟩ = [65] := by decide
  have kind : HandleKind.isField .invokeStatic = false := by decide
  simp [addAll, PoolItem.add, constant, constants, bootstrapOf, nestedDynamic, handle, kind,
    methodRef, classRef, nameAndType, long, text, bigEndian16, on_bootstrapOfBytes, Pooling.on_bind,
    on_add, on_append, push, empty, Std.HashMap.getElem_insert, Std.HashMap.mem_insert,
    PoolKey.width, PoolKey.tag, PoolTag.isWide, PoolKey.overlong?, stored]

theorem faithful_addAll_nestedDynamic :
    Faithful none [.loadable nestedDynamic, .loadable (.long 5)] [.ok 9, .ok 7]
      (empty.addAll [.loadable nestedDynamic, .loadable (.long 5)]).2 := by
  have survives : Text.Survives ⟨[65]⟩ := by
    unfold Text.Survives
    rfl
  have handle : Handle.Storable ⟨.invokeStatic, ⟨[65]⟩, ⟨[65]⟩, ⟨[65]⟩, false⟩ :=
    ⟨⟨survives, survives, survives⟩, trivial⟩
  refine faithful_addAll .empty ?_ ?_ (Prod.ext addAll_nestedDynamic rfl) (by simp)
  · simp [PoolItem.Storable, nestedDynamic, Constant.Storable, Constant.AllStorable, survives,
      handle]
  · simp [PoolItem.levels, nestedDynamic, Constant.levels, Constant.levelsOfAll,
      Pool.maxDynamicLevels]

end PoolBuilder

end ClassFile
