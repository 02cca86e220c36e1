import ClassFile.Proofs.Pool.Items

/-!
# Additions step by step

An addition adds the items that it depends on, one after the other, and then its own entry.  If it
fails, some of those items were added and nothing else was (`Stepwise`).  It never looks at the bytes
of the entries, so whatever stands there does not matter to it.
-/

namespace ClassFile

namespace MemberRef

/-- What an entry for the member depends on, in the order in which it is added. -/
def dependencies (member : MemberRef) : List PoolItem :=
  [.text member.owner, .loadable (.classRef member.owner), .text member.name,
    .text member.descriptor, .nameAndType member.name member.descriptor]

end MemberRef

namespace Handle

/-- The entry that the handle refers to. -/
def member (value : Handle) : PoolItem :=
  if value.kind.isField then .fieldRef ⟨value.owner, value.name, value.descriptor⟩
  else .methodRef ⟨value.owner, value.name, value.descriptor⟩ value.isInterface

/-- What an entry for the handle depends on. -/
def dependencies (value : Handle) : List PoolItem :=
  MemberRef.dependencies ⟨value.owner, value.name, value.descriptor⟩ ++ [value.member]

end Handle

namespace Constant

mutual

/-- What an entry for the constant depends on. -/
def dependencies : Constant → List PoolItem
  | .integer _ | .float _ | .long _ | .double _ => []
  | .string value | .classRef value | .methodType value => [.text value]
  | .handle value => value.dependencies
  | .dynamic name descriptor method arguments =>
      method.dependencies ++ [.loadable (.handle method)] ++ withDependencies arguments ++
        [.bootstrap method arguments, .text name, .text descriptor, .nameAndType name descriptor]

/-- The constants, each behind what it depends on. -/
def withDependencies : List Constant → List PoolItem
  | [] => []
  | value :: rest => value.dependencies ++ [.loadable value] ++ withDependencies rest

end

end Constant

namespace PoolItem

/-- What the item depends on, in the order in which it is added. -/
def dependencies : PoolItem → List PoolItem
  | .text _ => []
  | .nameAndType name descriptor => [.text name, .text descriptor]
  | .fieldRef member | .methodRef member _ => member.dependencies
  | .moduleRef name | .packageRef name => [.text name]
  | .invokeDynamic name descriptor method arguments =>
      method.dependencies ++ [.loadable (.handle method)] ++ Constant.withDependencies arguments ++
        [.bootstrap method arguments, .text name, .text descriptor, .nameAndType name descriptor]
  | .loadable value => value.dependencies
  | .bootstrap method arguments =>
      method.dependencies ++ [.loadable (.handle method)] ++ Constant.withDependencies arguments

end PoolItem

namespace PoolBuilder

open Pooling

theorem addAll_append {builder middle last : PoolBuilder} {first second : List PoolItem}
    {one two : List (Except ClassError UInt16)} (ranFirst : builder.addAll first = (one, middle))
    (ranSecond : middle.addAll second = (two, last)) :
    builder.addAll (first ++ second) = (one ++ two, last) := by
  induction first generalizing builder one with
  | nil =>
      cases ranFirst
      exact ranSecond
  | cons item rest ih =>
      rw [addAll] at ranFirst
      rcases ranItem : item.add.on builder with ⟨result, next⟩
      rcases ranRest : next.addAll rest with ⟨others, final⟩
      simp only [ranItem, ranRest] at ranFirst
      cases ranFirst
      simp only [List.cons_append, addAll, ranItem, ih ranRest]

/-- Whether adding the items one after the other succeeds and leads to `last`. -/
def AddsAll (builder : PoolBuilder) (items : List PoolItem) (last : PoolBuilder) : Prop :=
  ∃ indices : List UInt16, builder.addAll items = (indices.map .ok, last)

theorem AddsAll.nil (builder : PoolBuilder) : builder.AddsAll [] builder :=
  ⟨[], rfl⟩

theorem AddsAll.append {first second third : PoolBuilder} {one two : List PoolItem}
    (left : first.AddsAll one second) (right : second.AddsAll two third) :
    first.AddsAll (one ++ two) third := by
  rcases left with ⟨indices, ranLeft⟩
  rcases right with ⟨others, ranRight⟩
  exact ⟨indices ++ others, by rw [addAll_append ranLeft ranRight, List.map_append]⟩

theorem addsAll_single {builder next : PoolBuilder} {item : PoolItem} {index : UInt16}
    (ran : item.add.on builder = (.ok index, next)) : builder.AddsAll [item] next :=
  ⟨[index], by simp [addAll, ran]⟩

end PoolBuilder

namespace Pooling

open PoolBuilder

variable {α β : Type}

/-- What every addition does, whatever the builder. -/
structure Settles (adding : Pooling α) : Prop where
  /-- It appends to the bytes of the entries, and what they are does not matter. -/
  appends : ∀ builder : PoolBuilder, ∃ written : List UInt8, ∀ entries,
    adding.on { builder with entries } =
      ((adding.on builder).1, { (adding.on builder).2 with entries := entries.bytes written })
  grows : ∀ {builder result next}, adding.on builder = (result, next) → builder.Grows next
  /-- What was added is found again. -/
  again : ∀ {builder value next}, adding.on builder = (.ok value, next) →
    ∀ {known}, next.Grows known → adding.on known = (.ok value, known)

/-- Whether an addition that succeeds adds `dependencies` and then `own`, and one that fails adds
only items at the start of `dependencies`. -/
structure Stepwise (adding : Pooling α) (dependencies own : List PoolItem) : Prop
    extends adding.Settles where
  succeeds : ∀ {builder value next}, adding.on builder = (.ok value, next) →
    builder.AddsAll (dependencies ++ own) next
  fails : ∀ {builder cause next}, adding.on builder = (.error cause, next) →
    ∃ done clean, done <+: dependencies ∧ builder.AddsAll done clean ∧
      next = clean.leftBy (.error cause : Except ClassError α)

theorem Settles.pure (value : α) : Settles (pure value) where
  appends builder := ⟨[], fun _ => rfl⟩
  grows ran := by
    cases ran
    exact .refl _
  again ran := by
    cases ran
    intro known _
    rfl

theorem Settles.throw (cause : ClassError) : Settles (throw cause : Pooling α) where
  appends builder := ⟨[], fun _ => rfl⟩
  grows ran := by
    cases ran
    exact .refl _
  again ran := by cases ran

theorem Settles.bind {first : Pooling α} {second : α → Pooling β} (settles : first.Settles)
    (next : ∀ value, (second value).Settles) : (first >>= second).Settles where
  appends builder := by
    rcases settles.appends builder with ⟨written, same⟩
    rcases ran : first.on builder with ⟨_ | value, middle⟩
    case error cause =>
      refine ⟨written, fun entries => ?_⟩
      rw [on_bind, on_bind, same entries, ran]
    case ok =>
      rcases (next value).appends middle with ⟨more, sameMore⟩
      refine ⟨written ++ more, fun entries => ?_⟩
      rw [on_bind, on_bind, same entries, ran, Output.bytes_append]
      exact sameMore (entries.bytes written)
  grows {builder result last} ran := by
    rw [on_bind] at ran
    rcases ranFirst : first.on builder with ⟨_ | value, middle⟩
    case error cause =>
      rw [ranFirst] at ran
      cases ran
      exact settles.grows ranFirst
    case ok =>
      rw [ranFirst] at ran
      exact (settles.grows ranFirst).trans ((next value).grows ran)
  again {builder value last} ran known grows := by
    rw [on_bind] at ran
    rcases ranFirst : first.on builder with ⟨_ | found, middle⟩
    case error cause =>
      rw [ranFirst] at ran
      cases ran
    case ok =>
      rw [ranFirst] at ran
      rw [on_bind, settles.again ranFirst (((next found).grows ran).trans grows)]
      exact (next found).again ran grows

theorem Stepwise.pure (value : α) : Stepwise (pure value) [] [] where
  toSettles := .pure value
  succeeds ran := by
    cases ran
    exact .nil _
  fails ran := by cases ran

theorem Stepwise.throw {cause : ClassError} (notTooLong : ∀ size, cause ≠ .textTooLong size)
    (dependencies own : List PoolItem) : Stepwise (throw cause : Pooling α) dependencies own where
  toSettles := .throw cause
  succeeds ran := by cases ran
  fails {builder _ _} ran := by
    cases ran
    refine ⟨[], builder, List.nil_prefix, .nil builder, (leftBy_eq_self ?_).symm⟩
    intro size same
    exact notTooLong size (Except.error.inj same)

theorem Stepwise.bind {first : Pooling α} {second : α → Pooling β}
    {dependencies own dependencies' own' : List PoolItem}
    (stepwise : first.Stepwise dependencies own)
    (next : ∀ value, (second value).Stepwise dependencies' own') :
    (first >>= second).Stepwise (dependencies ++ own ++ dependencies') own' where
  toSettles := stepwise.toSettles.bind fun value => (next value).toSettles
  succeeds {builder value last} ran := by
    rw [on_bind] at ran
    rcases ranFirst : first.on builder with ⟨_ | found, middle⟩
    case error cause =>
      rw [ranFirst] at ran
      cases ran
    case ok =>
      rw [ranFirst] at ran
      rw [List.append_assoc]
      exact (stepwise.succeeds ranFirst).append ((next found).succeeds ran)
  fails {builder cause last} ran := by
    rw [on_bind] at ran
    rcases ranFirst : first.on builder with ⟨_ | found, middle⟩
    case error cause =>
      rw [ranFirst] at ran
      cases ran
      rcases stepwise.fails ranFirst with ⟨done, clean, started, adds, rfl⟩
      refine ⟨done, clean, started.trans ?_, adds, ?_⟩
      · rw [List.append_assoc]
        exact List.prefix_append ..
      · rw [leftBy, leftBy, strayBytes_error cause]
    case ok =>
      rw [ranFirst] at ran
      rcases (next found).fails ran with ⟨done, clean, started, adds, left⟩
      exact ⟨_, clean, (List.prefix_append_right_inj _).mpr started,
        (stepwise.succeeds ranFirst).append adds, left⟩

/-- Whether an addition that fails adds nothing. -/
def Single (adding : Pooling α) : Prop :=
  ∀ {builder cause next}, adding.on builder = (.error cause, next) →
    next = builder.leftBy (.error cause : Except ClassError α)

/-- An item is added by its own entry once its dependencies are there. -/
theorem Stepwise.own {item : PoolItem} {first : Pooling α} {last : α → Pooling UInt16}
    {dependencies own : List PoolItem} (whole : item.add = first >>= last)
    (stepwise : first.Stepwise dependencies own) (settles : ∀ value, (last value).Settles)
    (single : ∀ value, (last value).Single) :
    item.add.Stepwise (dependencies ++ own) [item] where
  toSettles := whole ▸ stepwise.toSettles.bind settles
  succeeds {builder index next} ran := by
    rw [whole, on_bind] at ran
    rcases ranFirst : first.on builder with ⟨_ | value, middle⟩
    case error cause =>
      rw [ranFirst] at ran
      cases ran
    case ok =>
      rw [ranFirst] at ran
      -- The dependencies are found again when the whole item is added behind them.
      have found : item.add.on middle = (.ok index, next) := by
        rw [whole, on_bind, stepwise.again ranFirst (.refl middle)]
        exact ran
      exact (stepwise.succeeds ranFirst).append (addsAll_single found)
  fails {builder cause next} ran := by
    rw [whole, on_bind] at ran
    rcases ranFirst : first.on builder with ⟨_ | value, middle⟩
    case error cause =>
      rw [ranFirst] at ran
      cases ran
      rcases stepwise.fails ranFirst with ⟨done, clean, started, adds, rfl⟩
      refine ⟨done, clean, started.trans (List.prefix_append ..), adds, ?_⟩
      rw [leftBy, leftBy, strayBytes_error cause]
    case ok =>
      rw [ranFirst] at ran
      exact ⟨_, middle, List.prefix_rfl, stepwise.succeeds ranFirst, single value ran⟩

end Pooling

namespace PoolBuilder

open Pooling

theorem settles_add (key : PoolKey) : (add key).Settles where
  appends builder := by
    simp only [on_add, on_append]
    rcases builder.indices[key]? with _ | index
    case some => exact ⟨[], fun _ => rfl⟩
    case none =>
      by_cases full : 65535 < builder.count.toNat + key.width
      · simp only [full, if_true]
        exact ⟨[], fun _ => rfl⟩
      · simp only [full, if_false]
        rcases key.overlong? with _ | size
        · refine ⟨key.tag.code :: key.body, fun entries => ?_⟩
          have written : key.writeBody (entries.u8 key.tag.code) =
              entries.bytes (key.tag.code :: key.body) := Output.eq_of_toList (by simp)
          simp [push, written]
        · exact ⟨[key.tag.code], fun _ => rfl⟩
  grows {builder result next} ran := by
    rw [on_add] at ran
    cases known : builder.indices[key]? with
    | some index =>
        rw [known] at ran
        cases ran
        exact .refl builder
    | none =>
        simp only [known, on_append] at ran
        split at ran
        · cases ran
          exact .refl builder
        · split at ran
          · cases ran
            exact ⟨id, id⟩
          · cases ran
            exact grows_push known
  again {builder index next} ran known grows := by
    rw [on_add] at ran
    cases found : builder.indices[key]? with
    | some index =>
        rw [found] at ran
        cases ran
        rw [on_add, grows.indices found]
    | none =>
        simp only [found, on_append] at ran
        split at ran
        · cases ran
        · split at ran
          · cases ran
          · cases ran
            have there : (builder.push key).indices[key]? = some builder.count := by simp [push]
            rw [on_add, grows.indices there]

theorem single_add (key : PoolKey) : (add key).Single := by
  intro builder cause next ran
  rw [on_add] at ran
  cases known : builder.indices[key]? with
  | some index =>
      rw [known] at ran
      cases ran
  | none =>
      simp only [known, on_append] at ran
      split at ran
      · cases ran
        rfl
      · split at ran
        · rename_i size long
          cases ran
          rw [PoolKey.tag_of_overlong long]
          rfl
        · cases ran

theorem settles_bootstrapOfBytes (bytes : List UInt8) : (bootstrapOfBytes bytes).Settles where
  appends builder := by
    refine ⟨[], fun entries => ?_⟩
    simp only [on_bootstrapOfBytes]
    rcases builder.bootstrapIndices[bytes]? with _ | index
    case some => rfl
    case none => by_cases full : builder.bootstrapCount = 65535 <;> simp [full, Output.bytes]
  grows {builder result next} ran := by
    rw [on_bootstrapOfBytes] at ran
    cases known : builder.bootstrapIndices[bytes]? with
    | some index =>
        rw [known] at ran
        cases ran
        exact .refl builder
    | none =>
        simp only [known] at ran
        split at ran
        · cases ran
          exact .refl builder
        · cases ran
          exact grows_pushBootstrap known _ _
  again {builder index next} ran known grows := by
    rw [on_bootstrapOfBytes] at ran
    cases found : builder.bootstrapIndices[bytes]? with
    | some index =>
        rw [found] at ran
        cases ran
        rw [on_bootstrapOfBytes, grows.bootstrapIndices found]
    | none =>
        simp only [found] at ran
        split at ran
        · cases ran
        · cases ran
          rw [on_bootstrapOfBytes,
            grows.bootstrapIndices (Std.HashMap.getElem?_insert_self)]

theorem single_bootstrapOfBytes (bytes : List UInt8) : (bootstrapOfBytes bytes).Single := by
  intro builder cause next ran
  rw [on_bootstrapOfBytes] at ran
  cases known : builder.bootstrapIndices[bytes]? with
  | some index =>
      rw [known] at ran
      cases ran
  | none =>
      simp only [known] at ran
      split at ran
      · cases ran
        rfl
      · cases ran

/-- An item without dependencies. -/
theorem stepwise_plain {item : PoolItem} {key : PoolKey} (whole : item.add = add key) :
    item.add.Stepwise [] [item] :=
  Stepwise.own (by simp [whole]) (.pure ()) (fun _ => settles_add key) fun _ => single_add key

theorem stepwise_text (value : Text) : (text value).Stepwise [] [.text value] :=
  @stepwise_plain (.text value) _ rfl

/-- An item that only names a text. -/
theorem stepwise_named {item : PoolItem} {key : UInt16 → PoolKey} {value : Text}
    (whole : item.add = do add (key (← text value))) :
    item.add.Stepwise [.text value] [item] :=
  Stepwise.own whole (stepwise_text value) (fun _ => settles_add _) fun _ => single_add _

theorem stepwise_classRef (name : Text) :
    (classRef name).Stepwise [.text name] [.loadable (.classRef name)] :=
  @stepwise_named (.loadable (.classRef name)) PoolKey.classRef name rfl

theorem stepwise_nameAndType (name descriptor : Text) :
    (nameAndType name descriptor).Stepwise [.text name, .text descriptor]
      [.nameAndType name descriptor] := by
  have whole : PoolItem.add (.nameAndType name descriptor) =
      (do return (← text name, ← text descriptor)) >>=
        fun found => add (.nameAndType found.1 found.2) := by
    simp [PoolItem.add, nameAndType]
  have texts := (stepwise_text name).bind fun first =>
    (stepwise_text descriptor).bind fun second => Stepwise.pure (first, second)
  exact Stepwise.own whole texts (fun _ => settles_add _) fun _ => single_add _

/-- An entry for a member of a class. -/
theorem stepwise_member {item : PoolItem} {member : MemberRef} {key : UInt16 → UInt16 → PoolKey}
    (whole : item.add = (do
      let owner ← classRef member.owner
      let target ← nameAndType member.name member.descriptor
      add (key owner target))) :
    item.add.Stepwise member.dependencies [item] := by
  have paired : item.add =
      (do return (← classRef member.owner, ← nameAndType member.name member.descriptor)) >>=
        fun found => add (key found.1 found.2) := by
    simp [whole]
  have parts := (stepwise_classRef member.owner).bind fun owner =>
    (stepwise_nameAndType member.name member.descriptor).bind fun target =>
      Stepwise.pure (owner, target)
  exact Stepwise.own paired parts (fun _ => settles_add _) fun _ => single_add _

theorem stepwise_fieldRef (member : MemberRef) :
    (fieldRef member).Stepwise member.dependencies [.fieldRef member] :=
  @stepwise_member (.fieldRef member) member PoolKey.fieldRef rfl

theorem stepwise_methodRef (member : MemberRef) (isInterface : Bool) :
    (methodRef member isInterface).Stepwise member.dependencies
      [.methodRef member isInterface] := by
  cases isInterface with
  | true =>
      exact @stepwise_member (.methodRef member true) member PoolKey.interfaceMethodRef rfl
  | false => exact @stepwise_member (.methodRef member false) member PoolKey.methodRef rfl

theorem stepwise_handle (value : Handle) :
    (handle value).Stepwise value.dependencies [.loadable (.handle value)] := by
  refine @Stepwise.own _ (.loadable (.handle value)) _ _ _ _ (handle_eq value) ?_
    (fun _ => settles_add _) fun _ => single_add _
  unfold Handle.member
  split
  · exact stepwise_fieldRef _
  · exact stepwise_methodRef _ _

/-- A bootstrap method, given the steps of its arguments. -/
theorem stepwise_bootstrapOf {method : Handle} {values : List Constant}
    (stepwise : (constants [] values).Stepwise (Constant.withDependencies values) []) :
    (bootstrap method values).Stepwise (PoolItem.bootstrap method values).dependencies
      [.bootstrap method values] := by
  have whole : PoolItem.add (.bootstrap method values) =
      (handle method >>= fun index =>
        if 65535 < values.length then throw (.tooManyEntries "bootstrap method arguments")
        else constants [] values >>= fun indices => pure (index, indices)) >>= fun found =>
          bootstrapOfBytes
            ((found.1 :: values.length.toUInt16 :: found.2).flatMap bigEndian16) := by
    unfold PoolItem.add bootstrap bootstrapOf
    by_cases many : 65535 < values.length
    · simp [many]
    · simp [many]
  have parts : (handle method >>= fun index =>
      if 65535 < values.length then throw (.tooManyEntries "bootstrap method arguments")
      else constants [] values >>= fun indices => pure (index, indices)).Stepwise
        (PoolItem.bootstrap method values).dependencies [] := by
    refine (stepwise_handle method).bind fun index => ?_
    split
    · exact Stepwise.throw (by simp) _ _
    · simpa using stepwise.bind fun indices => Stepwise.pure (index, indices)
  have steps := Stepwise.own whole parts (fun _ => settles_bootstrapOfBytes _)
    fun _ => single_bootstrapOfBytes _
  rw [List.append_nil] at steps
  exact steps

/-- A dynamic constant or call site, given the steps of its bootstrap method. -/
theorem stepwise_dynamic {item : PoolItem} {name descriptor : Text} {method : Handle}
    {values : List Constant} {key : UInt16 → UInt16 → PoolKey}
    (whole : item.add = (do
      let place ← bootstrap method values
      add (key place (← nameAndType name descriptor))))
    (stepwise : (bootstrap method values).Stepwise (PoolItem.bootstrap method values).dependencies
      [.bootstrap method values]) :
    item.add.Stepwise ((PoolItem.bootstrap method values).dependencies ++
      [.bootstrap method values, .text name, .text descriptor, .nameAndType name descriptor])
      [item] := by
  have paired : item.add =
      (do return (← bootstrap method values, ← nameAndType name descriptor)) >>=
        fun found => add (key found.1 found.2) := by
    simp [whole]
  have parts := stepwise.bind fun place =>
    (stepwise_nameAndType name descriptor).bind fun target => Stepwise.pure (place, target)
  have steps := Stepwise.own paired parts (fun _ => settles_add _) fun _ => single_add _
  simpa using steps

mutual

theorem stepwise_constant : (value : Constant) →
    (constant value).Stepwise value.dependencies [.loadable value]
  | .integer value => @stepwise_plain (.loadable (.integer value)) _ rfl
  | .float bits => @stepwise_plain (.loadable (.float bits)) _ rfl
  | .long value => @stepwise_plain (.loadable (.long value)) _ rfl
  | .double bits => @stepwise_plain (.loadable (.double bits)) _ rfl
  | .string value => @stepwise_named (.loadable (.string value)) PoolKey.string value rfl
  | .classRef name => stepwise_classRef name
  | .methodType descriptor =>
      @stepwise_named (.loadable (.methodType descriptor)) PoolKey.methodType descriptor rfl
  | .handle value => stepwise_handle value
  | .dynamic name descriptor method arguments =>
      @stepwise_dynamic (.loadable (.dynamic name descriptor method arguments)) name descriptor
        method arguments PoolKey.dynamic rfl (stepwise_bootstrapOf (stepwise_constants arguments []))

theorem stepwise_constants : (values : List Constant) → (found : List UInt16) →
    (constants found values).Stepwise (Constant.withDependencies values) []
  | [], found => .pure found.reverse
  | value :: rest, found =>
      (stepwise_constant value).bind fun index => stepwise_constants rest (index :: found)

end

theorem stepwise_bootstrap (method : Handle) (values : List Constant) :
    (bootstrap method values).Stepwise (PoolItem.bootstrap method values).dependencies
      [.bootstrap method values] :=
  stepwise_bootstrapOf (stepwise_constants values [])

/-- Every item is added behind its dependencies. -/
theorem stepwise_item (item : PoolItem) : item.add.Stepwise item.dependencies [item] := by
  cases item with
  | text value => exact stepwise_text value
  | nameAndType name descriptor => exact stepwise_nameAndType name descriptor
  | fieldRef member => exact stepwise_fieldRef member
  | methodRef member isInterface => exact stepwise_methodRef member isInterface
  | moduleRef name => exact @stepwise_named (.moduleRef name) PoolKey.moduleRef name rfl
  | packageRef name => exact @stepwise_named (.packageRef name) PoolKey.packageRef name rfl
  | invokeDynamic name descriptor method arguments =>
      exact @stepwise_dynamic (.invokeDynamic name descriptor method arguments) name descriptor
        method arguments PoolKey.invokeDynamic rfl (stepwise_bootstrap method arguments)
  | loadable value => exact stepwise_constant value
  | bootstrap method arguments => exact stepwise_bootstrap method arguments

end PoolBuilder

end ClassFile
