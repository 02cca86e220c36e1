import ClassFile.Proofs.Pool.Adding

/-!
# Additions whose texts survive

A method handle may say of its owner what does not go with its kind.  Then it is not read back, and neither
is a constant that depends on it, but every entry that is added for it is one.  As long as the texts survive,
nothing that is added harms the rest of the pool (`PoolBuilder.defines_constant`).
-/

namespace ClassFile

/-- Whether the texts of a handle are read back. -/
def Handle.Survives (handle : Handle) : Prop :=
  MemberRef.Survives ⟨handle.owner, handle.name, handle.descriptor⟩

namespace Constant

mutual

/-- Whether every text in the constant is read back. -/
def Survives : Constant → Prop
  | .string text | .classRef text | .methodType text => text.Survives
  | .handle value => value.Survives
  | .dynamic name descriptor method arguments =>
      name.Survives ∧ descriptor.Survives ∧ method.Survives ∧ AllSurvive arguments
  | .integer _ | .float _ | .long _ | .double _ => True

/-- Whether every text in the constants is read back. -/
def AllSurvive : List Constant → Prop
  | [] => True
  | value :: rest => value.Survives ∧ AllSurvive rest

end

end Constant

theorem Pool.HasKey.defines {pool : Pool} {index : UInt16} {key : PoolKey} (has : pool.HasKey index key) :
    pool.Defines index := by
  rcases has with ⟨offset, body, found, tagged, -⟩
  exact ⟨_, tag_eq_ok.mpr ⟨offset, found, tagged⟩⟩

namespace PoolBuilder

open Pooling

variable {Before : Pool → Prop}

/-- Whether an addition, if it succeeds, gives the index of an entry, and harms nothing. -/
abbrev AddsEntry (Before : Pool → Prop) (adding : Pooling UInt16) : Prop :=
  Adds Before adding fun index pool => pool.Defines index

theorem defines_plain {key : PoolKey} (survives : key.Survives) (closed : key.references = [])
    (static : key.bootstrap? = none) : AddsEntry Before (add key) :=
  (adds_plain survives closed static).weaken (fun _ => id) fun _ _ _ has => has.defines

theorem defines_handle {value : Handle} (survives : value.Survives) : AddsEntry Before (handle value) := by
  rw [handle_eq]
  have target : AddsEntry Before
      (if value.kind.isField then fieldRef ⟨value.owner, value.name, value.descriptor⟩
      else methodRef ⟨value.owner, value.name, value.descriptor⟩ value.isInterface) := by
    split
    · refine (adds_fieldRef survives).weaken (fun _ => id) fun _ _ _ found => ?_
      rcases Pool.fieldRef_eq_ok.mp found with ⟨_, _, has, -⟩
      exact has.defines
    · refine (adds_methodRef survives).weaken (fun _ => id) fun index pool _ found => ?_
      have read := Pool.anyMethodRef_eq_ok.mp found
      split at read
      · exact ⟨_, Pool.tag_of_bodyOf read⟩
      · exact ⟨_, Pool.tag_of_bodyOf read⟩
  refine target.bind fun target => ?_
  refine (@adds_add _ (.methodHandle value.kind.code target) trivial ?_
    (by simp [PoolKey.bootstrap?])).weaken (fun _ => id) fun _ _ _ has => has.defines
  rintro pool ⟨-, defined⟩ ref member
  rw [List.mem_singleton.mp member]
  exact defined

/-- Whether a bootstrap method is there, whatever it is. -/
abbrev HasSomeMethod (place : UInt16) (pool : Pool) : Prop :=
  ∃ refs : BootstrapRefs, pool.rawBootstrapMethod place = .ok refs.bytes

theorem adds_someBootstrap {method : Handle} {count : Nat} {arguments : Pooling (List UInt16)}
    (survives : method.Survives)
    (adds : ∀ {Before}, Adds Before arguments fun indices pool =>
      indices.length = count ∧ ∀ ref ∈ indices, pool.Defines ref) :
    Adds Before (bootstrapOf method count arguments) HasSomeMethod := by
  refine (defines_handle survives).bind fun index => ?_
  split
  · rw [throw_bind]
    exact Adds.throw (by simp)
  · rename_i short
    refine adds.bind fun indices => ?_
    refine Adds.of_fact (fun pool known => known.2.1) fun length => ?_
    rw [← length] at short ⊢
    refine (@adds_bootstrapOfBytes _ ⟨index, indices, by omega⟩ ?_).weaken (fun _ => id) ?_
    · rintro pool ⟨⟨-, defined⟩, -, allDefined⟩ ref member
      rcases List.mem_cons.mp member with rfl | inArguments
      · exact defined
      · exact allDefined ref inArguments
    · exact fun _ _ _ found => ⟨_, found⟩

/-- A dynamic constant or call site. -/
theorem defines_dynamic (key : UInt16 → UInt16 → PoolKey)
    (survives : ∀ bootstrap target, (key bootstrap target).Survives)
    (one : ∀ bootstrap target, (key bootstrap target).references = [target])
    (dynamic : ∀ bootstrap target, (key bootstrap target).bootstrap? = some bootstrap)
    {name descriptor : Text} {bootstrap : Pooling UInt16}
    (adds : ∀ {Before}, Adds Before bootstrap HasSomeMethod)
    (nameSurvives : name.Survives) (descriptorSurvives : descriptor.Survives) :
    AddsEntry Before (do
      let place ← bootstrap
      add (key place (← nameAndType name descriptor))) := by
  refine adds.bind fun place => ?_
  refine (adds_nameAndType nameSurvives descriptorSurvives).bind fun target => ?_
  refine (adds_add (survives place target) ?_ ?_).weaken (fun _ => id)
    fun _ _ _ has => has.defines
  · rintro pool ⟨-, named⟩ ref member
    rw [one, List.mem_singleton] at member
    exact ⟨_, member ▸ Pool.tag_of_bodyOf named⟩
  · rintro pool ⟨⟨-, refs, found⟩, -⟩ other refers
    rw [dynamic, Option.some.injEq] at refers
    exact ⟨refs, refers ▸ found⟩

mutual

theorem defines_constant {Before : Pool → Prop} : (value : Constant) → value.Survives →
    AddsEntry Before (constant value)
  | .integer value, _ => @defines_plain Before (.integer value) trivial rfl rfl
  | .float bits, _ => @defines_plain Before (.float bits) trivial rfl rfl
  | .long value, _ => @defines_plain Before (.long value) trivial rfl rfl
  | .double bits, _ => @defines_plain Before (.double bits) trivial rfl rfl
  | .string value, survives =>
      (adds_string survives).weaken (fun _ => id) fun _ _ _ found => ⟨_, Pool.tag_of_bodyOf found⟩
  | .classRef name, survives =>
      (adds_classRef survives).weaken (fun _ => id) fun _ _ _ found => ⟨_, Pool.tag_of_bodyOf found⟩
  | .methodType descriptor, survives =>
      (adds_methodType survives).weaken (fun _ => id) fun _ _ _ found => ⟨_, Pool.tag_of_bodyOf found⟩
  | .handle value, survives => defines_handle survives
  | .dynamic name descriptor method arguments, survives => by
      rcases survives with ⟨nameSurvives, descriptorSurvives, methodSurvives, argumentsSurvive⟩
      refine defines_dynamic PoolKey.dynamic (fun _ _ => trivial) (fun _ _ => rfl) (fun _ _ => rfl)
        (adds_someBootstrap methodSurvives
          ((defines_constants arguments [] argumentsSurvive).weaken (fun _ => id) ?_))
        nameSurvives descriptorSurvives
      rintro indices pool - ⟨new, rfl, length, defined⟩
      exact ⟨length, defined⟩

theorem defines_constants {Before : Pool → Prop} : (values : List Constant) → (found : List UInt16) →
    Constant.AllSurvive values →
    Adds Before (constants found values) fun indices pool =>
      ∃ new, indices = found.reverse ++ new ∧ new.length = values.length ∧
        ∀ ref ∈ new, pool.Defines ref
  | [], found, _ =>
      (Adds.pure found.reverse).weaken (fun _ => id) fun _ _ _ same => ⟨[], by simp [same], rfl, by simp⟩
  | value :: rest, found, survive => by
      refine (defines_constant value survive.1).bind fun index => ?_
      refine (defines_constants rest (index :: found) survive.2).weaken (fun _ => id) ?_
      rintro indices pool ⟨-, defined⟩ ⟨new, rfl, length, allDefined⟩
      exact ⟨index :: new, by simp, by simp [length], List.forall_mem_cons.mpr ⟨defined, allDefined⟩⟩

end

theorem defines_invokeDynamic {name descriptor : Text} {method : Handle} {values : List Constant}
    (nameSurvives : name.Survives) (descriptorSurvives : descriptor.Survives)
    (survives : method.Survives) (valuesSurvive : Constant.AllSurvive values) :
    AddsEntry Before (invokeDynamic name descriptor method values) := by
  refine defines_dynamic PoolKey.invokeDynamic (fun _ _ => trivial) (fun _ _ => rfl) (fun _ _ => rfl)
    (adds_someBootstrap survives ((defines_constants values [] valuesSurvive).weaken (fun _ => id) ?_))
    nameSurvives descriptorSurvives
  rintro indices pool - ⟨new, rfl, length, defined⟩
  exact ⟨length, defined⟩

end PoolBuilder

end ClassFile
