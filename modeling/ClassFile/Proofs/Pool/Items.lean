import ClassFile.Proofs.Pool.Adding
import ClassFile.Proofs.Pool.Copy

/-!
# What can be added to a pool

A `PoolItem` is one addition, whatever its kind.  `PoolItem.Resolves` says what it means for an index
to be that of an item, and an index means at most one item (`Pool.resolves_unique`).
-/

namespace ClassFile

/-- What can be added to a pool.  A loadable constant of one kind is what the addition for that kind
adds. -/
inductive PoolItem where
  | text (value : Text)
  | nameAndType (name descriptor : Text)
  | fieldRef (member : MemberRef)
  | methodRef (member : MemberRef) (isInterface : Bool)
  | moduleRef (name : Text)
  | packageRef (name : Text)
  | invokeDynamic (name descriptor : Text) (method : Handle) (arguments : List Constant)
  | loadable (value : Constant)
  | bootstrap (method : Handle) (arguments : List Constant)

namespace PoolItem

/-- Adds the item. -/
def add : PoolItem → Pooling UInt16
  | .text value => PoolBuilder.text value
  | .nameAndType name descriptor => PoolBuilder.nameAndType name descriptor
  | .fieldRef member => PoolBuilder.fieldRef member
  | .methodRef member isInterface => PoolBuilder.methodRef member isInterface
  | .moduleRef name => PoolBuilder.moduleRef name
  | .packageRef name => PoolBuilder.packageRef name
  | .invokeDynamic name descriptor method arguments =>
      PoolBuilder.invokeDynamic name descriptor method arguments
  | .loadable value => PoolBuilder.constant value
  | .bootstrap method arguments => PoolBuilder.bootstrap method arguments

/-- Whether the index of the item is one of a bootstrap method. -/
def isBootstrap : PoolItem → Bool
  | .bootstrap .. => true
  | _ => false

/-- Whether every text and every handle in the item can be read back. -/
def Storable : PoolItem → Prop
  | .text value | .moduleRef value | .packageRef value => value.Survives
  | .nameAndType name descriptor => name.Survives ∧ descriptor.Survives
  | .fieldRef member | .methodRef member _ => member.Survives
  | .invokeDynamic name descriptor method arguments =>
      name.Survives ∧ descriptor.Survives ∧ method.Storable ∧ Constant.AllStorable arguments
  | .loadable value => value.Storable
  | .bootstrap method arguments => method.Storable ∧ Constant.AllStorable arguments

/-- How deep dynamic constants stand one inside the other. -/
def levels : PoolItem → Nat
  | .loadable value => value.levels
  | .invokeDynamic _ _ _ arguments | .bootstrap _ arguments => Constant.levelsOfAll arguments
  | _ => 0

/-- Whether the item is what the pool has under the index. -/
def Resolves (pool : Pool) (index : UInt16) : PoolItem → Prop
  | .text value => pool.text index = .ok value
  | .nameAndType name descriptor => pool.nameAndType index = .ok ⟨name, descriptor⟩
  | .fieldRef member => pool.fieldRef index = .ok member
  | .methodRef member isInterface => pool.anyMethodRef index = .ok (member, isInterface)
  | .moduleRef name => pool.moduleRef index = .ok name
  | .packageRef name => pool.packageRef index = .ok name
  | .invokeDynamic name descriptor method arguments =>
      ∃ place, pool.invokeDynamicRef index = .ok ⟨place, name, descriptor⟩ ∧
        pool.bootstrapMethod place = .ok (method, arguments)
  | .loadable value => pool.constant index = .ok value
  | .bootstrap method arguments => pool.bootstrapMethod index = .ok (method, arguments)

end PoolItem

namespace Pool

/-- The item that the entry with a given index is. -/
def itemAt (pool : Pool) (index : UInt16) : Except ClassError PoolItem := do
  match ← pool.tag index with
  | .utf8 => return .text (← pool.text index)
  | .nameAndType =>
      let value ← pool.nameAndType index
      return .nameAndType value.name value.descriptor
  | .fieldRef => return .fieldRef (← pool.fieldRef index)
  | .methodRef | .interfaceMethodRef =>
      let (member, isInterface) ← pool.anyMethodRef index
      return .methodRef member isInterface
  | .moduleRef => return .moduleRef (← pool.moduleRef index)
  | .packageRef => return .packageRef (← pool.packageRef index)
  | .invokeDynamic =>
      let reference ← pool.invokeDynamicRef index
      let (method, arguments) ← pool.bootstrapMethod reference.bootstrapIndex
      return .invokeDynamic reference.name reference.descriptor method arguments
  | _ => return .loadable (← pool.constant index)

theorem itemAt_of_resolves {pool : Pool} {index : UInt16} {item : PoolItem}
    (entry : item.isBootstrap = false) (resolves : item.Resolves pool index) :
    pool.itemAt index = .ok item := by
  unfold itemAt
  cases item with
  | text value =>
      rw [tag_of_bodyOf resolves, ok_bind]
      exact bind_eq_ok.mpr ⟨_, resolves, rfl⟩
  | nameAndType name descriptor =>
      rw [tag_of_bodyOf resolves, ok_bind]
      exact bind_eq_ok.mpr ⟨_, resolves, rfl⟩
  | fieldRef member =>
      rw [tag_of_bodyOf resolves, ok_bind]
      exact bind_eq_ok.mpr ⟨_, resolves, rfl⟩
  | methodRef member isInterface =>
      have read := anyMethodRef_eq_ok.mp resolves
      cases isInterface with
      | true | false =>
          rw [tag_of_bodyOf read, ok_bind]
          exact bind_eq_ok.mpr ⟨_, resolves, rfl⟩
  | moduleRef name =>
      rw [tag_of_bodyOf resolves, ok_bind]
      exact bind_eq_ok.mpr ⟨_, resolves, rfl⟩
  | packageRef name =>
      rw [tag_of_bodyOf resolves, ok_bind]
      exact bind_eq_ok.mpr ⟨_, resolves, rfl⟩
  | invokeDynamic name descriptor method arguments =>
      rcases resolves with ⟨place, read, readMethod⟩
      rw [tag_of_bodyOf read, ok_bind]
      exact bind_eq_ok.mpr ⟨_, read, bind_eq_ok.mpr ⟨_, readMethod, rfl⟩⟩
  | loadable value =>
      have read := resolves
      unfold PoolItem.Resolves Pool.constant at read
      have loads := constantWithin_eq_ok.mp read
      cases value with
      | dynamic name descriptor method arguments =>
          rcases loads with ⟨inner, place, -, readEntry, -⟩
          rw [tag_of_bodyOf readEntry, ok_bind]
          exact bind_eq_ok.mpr ⟨_, resolves, rfl⟩
      | _ =>
          rw [tag_of_bodyOf loads, ok_bind]
          exact bind_eq_ok.mpr ⟨_, resolves, rfl⟩
  | bootstrap method arguments => cases entry

/-- An index means at most one item of the pool, and at most one bootstrap method. -/
theorem resolves_unique {pool : Pool} {index : UInt16} {first second : PoolItem}
    (sameTable : first.isBootstrap = second.isBootstrap) (one : first.Resolves pool index)
    (two : second.Resolves pool index) : first = second := by
  cases table : first.isBootstrap with
  | false =>
      have found := itemAt_of_resolves table one
      rw [itemAt_of_resolves (sameTable ▸ table) two] at found
      exact (Except.ok.inj found).symm
  | true =>
      rw [table] at sameTable
      cases first with
      | bootstrap method arguments =>
          cases second with
          | bootstrap otherMethod otherArguments =>
              have found : pool.bootstrapMethod index = .ok (method, arguments) := one
              rw [show pool.bootstrapMethod index = .ok (otherMethod, otherArguments) from two]
                at found
              cases found
              rfl
          | _ => cases sameTable
      | _ => cases table

end Pool

namespace PoolBuilder

theorem adds_item {Before : Pool → Prop} {item : PoolItem} (storable : item.Storable)
    (nested : item.levels ≤ Pool.maxDynamicLevels) :
    Adds Before item.add fun index pool => item.Resolves pool index := by
  cases item with
  | text value => exact adds_text storable
  | nameAndType name descriptor => exact adds_nameAndType storable.1 storable.2
  | fieldRef member => exact adds_fieldRef storable
  | methodRef member isInterface => exact adds_methodRef storable
  | moduleRef name => exact adds_moduleRef storable
  | packageRef name => exact adds_packageRef storable
  | invokeDynamic name descriptor method arguments =>
      refine (adds_invokeDynamic storable.1 storable.2.1 storable.2.2.1 storable.2.2.2).weaken
        (fun _ => id) ?_
      rintro index pool - ⟨place, read, has⟩
      exact ⟨place, read, has.bootstrapWith nested⟩
  | loadable value =>
      exact (adds_constant value storable).weaken (fun _ => id) fun _ _ _ load => load _ nested
  | bootstrap method arguments =>
      exact (adds_bootstrap storable.1 storable.2).weaken (fun _ => id) fun _ _ _ has =>
        has.bootstrapWith nested

/-- Adds items one after the other: what each addition gave, and the builder at the end. -/
def addAll (builder : PoolBuilder) : List PoolItem → List (Except ClassError UInt16) × PoolBuilder
  | [] => ([], builder)
  | item :: rest =>
      let (result, next) := item.add.on builder
      let (results, last) := addAll next rest
      (result :: results, last)

end PoolBuilder

end ClassFile
