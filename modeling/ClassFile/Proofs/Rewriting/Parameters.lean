import ClassFile.Proofs.Rewriting.Attributes
import ClassFile.Proofs.Story.Classes

/-!
# Parameters, written and read

A method has a table of its parameters and two of their annotations.  The annotations of a parameter stand
in a table of their own, and there is such a table for every parameter up to the number that was told
(`ParameterAnnotations.Tells`).
-/

namespace ClassFile

open Emit Item Draft ClassImage

/-! ### Names and access flags -/

/-- Tells one parameter. -/
def ClassImage.tellParameter (image : ClassImage) (offset : Nat) : Emit Nat := do
  let name? ← Pool.optional image.pool.text (← image.input.u16 offset)
  let access ← image.input.u16 (offset + 2)
  tellItem (.parameter ⟨name?, access⟩)
  return offset + 4

theorem ClassImage.loops_tellParameters (image : ClassImage) :
    Loops image.tellParameters image.tellParameter fun _ => () where
  zero _ := rfl
  succ offset count := by
    rw [tellParameters, tellParameter]
    simp

theorem ClassImage.told_parameter {pool : Pool} {entry : Parameter} {name : UInt16}
    (means : (Slot.ofOption .text entry.name?).Means pool name) :
    ToldOne tellParameter pool (.event (.methodItem (.parameter entry)))
      (bigEndian16 name ++ bigEndian16 entry.access) := by
  rintro image proper rfl offset held
  have access : image.input.u16 (offset + 2) = .ok entry.access := held.right.u16
  rw [tellParameter]
  apply Emits.bind_lift held.left.u16
  apply Emits.bind_lift (proper.optionalText means)
  apply Emits.bind_lift access
  exact (emits_tell _).bind (emits_pure _)

namespace MethodDraft

/-- The bytes of the entries for parameters. -/
def parameterBytes (entries : List (UInt16 × UInt16)) : List UInt8 :=
  entries.flatMap fun entry => bigEndian16 entry.1 ++ bigEndian16 entry.2

theorem runs_parameterTable {σ : Type} {Before : σ → Pool → Prop} (entries : List (UInt16 × UInt16)) :
    Runs Before (parameterTable entries) fun output part pool =>
      (entries.length < 256 ∧ output.toList = [entries.length.toUInt8] ++ parameterBytes entries) ∧
        Before part pool := by
  have append (output : Output) : (entries.foldl (fun output entry => (output.u16 entry.1).u16 entry.2)
      output).toList = output.toList ++ parameterBytes entries := by
    induction entries generalizing output with
    | nil => simp [parameterBytes]
    | cons entry rest ih =>
        rw [List.foldl_cons, ih]
        simp [parameterBytes]
  unfold parameterTable
  dsimp only
  split
  · exact Runs.throw _
  · rename_i small
    apply (Runs.pure _).weaken (fun _ _ => id)
    rintro _ part pool ⟨rfl, before⟩
    refine ⟨⟨by omega, ?_⟩, before⟩
    rw [append]
    simp

end MethodDraft

/-! ### Annotations -/

/-- What comes in the order of its ranks is taken apart by rank. -/
theorem flatMap_filter_rank {α : Type} {rank : α → Nat} {values : List α}
    (ordered : values.Pairwise fun first second => rank first ≤ rank second) (bound : Nat) :
    ((List.range bound).flatMap fun level => values.filter fun value => rank value = level) =
      values.filter fun value => rank value < bound := by
  induction bound with
  | zero => simp
  | succ bound ih =>
      rw [List.range_succ, List.flatMap_append, ih, List.flatMap_singleton]
      clear ih
      induction values with
      | nil => rfl
      | cons value rest ih =>
          rw [List.pairwise_cons] at ordered
          have others := ih ordered.2
          rcases Nat.lt_trichotomy (rank value) bound with below | same | above
          · have notSame : rank value ≠ bound := Nat.ne_of_lt below
            have before : rank value < bound + 1 := Nat.lt_succ_of_lt below
            simp only [List.filter_cons, decide_eq_true below, decide_eq_false notSame, decide_eq_true before,
              if_true, Bool.false_eq_true, if_false, List.cons_append, others]
          · have noneBelow : rest.filter (fun value => decide (rank value < bound)) = [] := by
              simp only [List.filter_eq_nil_iff, decide_eq_true_eq]
              intro other member
              have := ordered.1 other member
              omega
            rw [noneBelow, List.nil_append] at others
            have notBelow : ¬rank value < bound := by omega
            have before : rank value < bound + 1 := by omega
            simp only [List.filter_cons, decide_eq_false notBelow, decide_eq_true same, decide_eq_true before,
              if_true, Bool.false_eq_true, if_false, noneBelow, List.nil_append, others]
          · have notBelow : ¬rank value < bound := by omega
            have notSame : rank value ≠ bound := by omega
            have notBefore : ¬rank value < bound + 1 := by omega
            simp only [List.filter_cons, decide_eq_false notBelow, decide_eq_false notSame,
              decide_eq_false notBefore, Bool.false_eq_true, if_false, others]

namespace ParameterAnnotations

/-- Whether annotations of parameters tell those among the items, and the number of parameters that was told
last. -/
structure Tells (pool : Pool) (visible : Bool) (items : List Item) (annotations : ParameterAnnotations) :
    Prop where
  count : annotations.annotable?.map
      (fun count => Item.event (.methodItem (.annotableParameterCount count visible))) =
    (ofTurn (.ofCount visible) items).getLast?
  sets : ∀ position, (annotations.parameter position).Spells
    (ToldOne ( tellAnnotation (Opening.annotateParameter position · visible)) pool)
    ((ofTurn (.ofParameter visible) items).filter fun item => item.parameter = position.toNat)
  few : ∀ bound, (∀ item ∈ ofTurn (.ofParameter visible) items, item.parameter < bound) →
    annotations.sets.size ≤ bound

variable {pool : Pool} {visible : Bool} {items others : List Item} {annotations : ParameterAnnotations}

theorem tells_empty (visible : Bool) : Tells pool visible [] {} where
  count := rfl
  sets _ := Table.spells_empty
  few _ _ := Nat.zero_le _

theorem Tells.congr (tells : annotations.Tells pool visible items)
    (counts : ofTurn (.ofCount visible) others = ofTurn (.ofCount visible) items)
    (parameters : ofTurn (.ofParameter visible) others = ofTurn (.ofParameter visible) items) :
    annotations.Tells pool visible others := by
  rcases tells with ⟨count, sets, few⟩
  rw [← counts] at count
  rw [← parameters] at sets few
  exact ⟨count, sets, few⟩

theorem Tells.setCount (tells : annotations.Tells pool visible items) (count : UInt8) :
    Tells pool visible (items ++ [.event (.methodItem (.annotableParameterCount count visible))])
      { annotations with annotable? := some count } where
  count := by
    rw [AnnotationTables.ofTurn_concat, if_pos (by cases visible <;> rfl)]
    simp
  sets position := by
    rw [AnnotationTables.ofTurn_concat, if_neg (by cases visible <;> nofun)]
    exact tells.sets position
  few bound below := by
    rw [AnnotationTables.ofTurn_concat, if_neg (by cases visible <;> nofun)] at below
    exact tells.few bound below

theorem parameter_setParameter (annotations : ParameterAnnotations) (position other : UInt8)
    (set : AnnotationSet) : (annotations.setParameter position set).parameter other =
      if other = position then set else annotations.parameter other := by
  unfold parameter setParameter
  dsimp only
  split
  · rename_i same
    subst same
    have inside : other.toNat <
        (annotations.sets ++ Array.replicate (other.toNat + 1 - annotations.sets.size) Table.empty).size := by
      simp only [Array.size_append, Array.size_replicate]
      omega
    rw [Array.getD_eq_getD_getElem?, Array.set!_eq_setIfInBounds, Array.getElem?_setIfInBounds_self,
      if_pos inside]
    rfl
  · rename_i apart
    have different : position.toNat ≠ other.toNat := fun same => apart (UInt8.toNat_inj.mp same.symm)
    simp only [Array.getD_eq_getD_getElem?, Array.set!_eq_setIfInBounds,
      Array.getElem?_setIfInBounds_ne different, Array.getElem?_append]
    split
    · rfl
    · rename_i outside
      rw [Array.getElem?_eq_none (Nat.le_of_not_lt outside), Array.getElem?_replicate]
      split <;> rfl

theorem size_setParameter (annotations : ParameterAnnotations) (position : UInt8) (set : AnnotationSet) :
    (annotations.setParameter position set).sets.size = max annotations.sets.size (position.toNat + 1) := by
  simp only [setParameter, Array.set!_eq_setIfInBounds, Array.size_setIfInBounds, Array.size_append,
    Array.size_replicate]
  omega

theorem setParameter_setParameter (annotations : ParameterAnnotations) (position : UInt8)
    (set other : AnnotationSet) :
    (annotations.setParameter position set).setParameter position other =
      annotations.setParameter position other := by
  have missing : position.toNat + 1 - (annotations.setParameter position set).sets.size = 0 := by
    rw [size_setParameter]
    omega
  rw [setParameter.eq_def position other (annotations.setParameter position set), missing]
  simp [setParameter]

theorem Tells.setParameter {item : Item} {position : UInt8} {set : AnnotationSet}
    (tells : annotations.Tells pool visible items) (isTurn : item.turn = .ofParameter visible)
    (isPosition : item.parameter = position.toNat)
    (spells : set.Spells (ToldOne ( tellAnnotation (Opening.annotateParameter position · visible)) pool)
      ((ofTurn (.ofParameter visible) items).filter (fun item => item.parameter = position.toNat) ++ [item])) :
    Tells pool visible (items ++ [item]) (annotations.setParameter position set) := by
  have parameters : ofTurn (.ofParameter visible) (items ++ [item]) =
      ofTurn (.ofParameter visible) items ++ [item] := by
    rw [AnnotationTables.ofTurn_concat, if_pos isTurn]
  constructor
  · rw [AnnotationTables.ofTurn_concat, isTurn, if_neg (by cases visible <;> decide)]
    exact tells.count
  · intro other
    rw [parameters, List.filter_append, parameter_setParameter]
    by_cases same : other = position
    · subst same
      simpa [isPosition] using spells
    · have different : position.toNat ≠ other.toNat := fun equal => same (UInt8.toNat_inj.mp equal.symm)
      simpa [isPosition, same, different] using tells.sets other
  · intro bound below
    rw [parameters, List.forall_mem_append] at below
    have here := below.2 item (List.mem_singleton_self _)
    have others := tells.few bound below.1
    rw [size_setParameter]
    omega

/-- What annotations of parameters are written as. -/
def part (kind : AttributeKind) (annotations : ParameterAnnotations) : AttributeKind × Option Output :=
  (kind, if annotations.isEmpty then none else some annotations.toOutput)

theorem writeParameterAnnotations_eq (kind : AttributeKind) (annotations : ParameterAnnotations) :
    MethodDraft.writeParameterAnnotations kind annotations =
      AttributeTable.addPart (annotations.part kind).1 (annotations.part kind).2 := by
  unfold MethodDraft.writeParameterAnnotations part
  cases annotations.isEmpty <;> rfl

/-- The bytes of the tables of some parameters. -/
def bytesOf (annotations : ParameterAnnotations) (positions : List Nat) : List UInt8 :=
  positions.flatMap fun position =>
    bigEndian16 (annotations.parameter position.toUInt8).count ++
      Pieces.toList (annotations.parameter position.toUInt8).entries

theorem toList_toOutput {size : Nat} (isSize : annotations.size = size) (small : size ≤ 256) :
    annotations.toOutput.toList = [size.toUInt8] ++ annotations.bytesOf (List.range size) := by
  have append (positions : List Nat) (few : ∀ position ∈ positions, position < 256) (output : Output) :
      (positions.foldl (fun output position => (annotations.sets.getD position Table.empty).write output)
        output).toList = output.toList ++ annotations.bytesOf positions := by
    induction positions generalizing output with
    | nil => simp [bytesOf]
    | cons position rest ih =>
        rw [List.forall_mem_cons] at few
        have same : annotations.parameter position.toUInt8 = annotations.sets.getD position Table.empty := by
          rw [parameter, UInt8.toNat_ofNat', Nat.mod_eq_of_lt few.1]
        rw [List.foldl_cons, ih few.2]
        simp [bytesOf, same]
  have few : ∀ position ∈ List.range size, position < 256 := fun position member =>
    Nat.lt_of_lt_of_le (List.mem_range.mp member) small
  rw [toOutput, isSize, append _ few]
  simp

theorem emits_tellParameterTables {image : ClassImage} (proper : image.IsProper)
    (tells : annotations.Tells image.pool visible items) {position offset count : Nat}
    (small : position + count ≤ 256)
    (held : image.input.HasAt offset (annotations.bytesOf (List.range' position count))) :
    (image.tellParameterTables visible position.toUInt8 offset count).Emits ()
      ((List.range' position count).flatMap fun level =>
        (ofTurn (.ofParameter visible) items).filter fun item => item.parameter = level) := by
  induction count generalizing position offset with
  | zero => exact emits_pure ()
  | succ count ih =>
      have isPosition : position.toUInt8.toNat = position := by
        rw [UInt8.toNat_ofNat']
        omega
      have next : position.toUInt8 + 1 = (position + 1).toUInt8 := by
        apply UInt8.toNat_inj.mp
        simp
      have spells := tells.sets position.toUInt8
      rw [isPosition] at spells
      rw [List.range'_succ, bytesOf, List.flatMap_cons] at held
      rw [List.range'_succ, List.flatMap_cons, tellParameterTables]
      have told := ToldAs.counted
        (loops_tellAnnotationList (Opening.annotateParameter position.toUInt8 · visible)) spells.count
        spells.entries
      refine (told image proper rfl offset held.left).bind ?_
      rw [next]
      exact ih (by omega) held.right

/-- The annotations of parameters that are counted are told again. -/
theorem Tells.told {good : Item → Prop} {count : UInt8} (tells : annotations.Tells pool visible items)
    (counts : annotations.annotable? = some count) (single : (ofTurn (.ofCount visible) items).length ≤ 1)
    (inOrder : AtTurn good (.ofParameter visible) (ofTurn (.ofParameter visible) items))
    (below : ∀ item ∈ ofTurn (.ofParameter visible) items, item.parameter < count.toNat) :
    ToldAs (fun image => image.tellParameterAnnotations visible) (fun _ => ()) pool
      (ofTurn (.ofCount visible) items ++ ofTurn (.ofParameter visible) items)
      annotations.toOutput.toList := by
  rintro image proper rfl offset held
  have size : annotations.size = count.toNat := by
    have few := tells.few count.toNat below
    rw [ParameterAnnotations.size, counts]
    simpa using few
  have small := count.toNat_lt
  rw [toList_toOutput size (by omega), Nat.toUInt8_eq, UInt8.ofNat_toNat] at held
  have number : ofTurn (.ofCount visible) items =
      [.event (.methodItem (.annotableParameterCount count visible))] := by
    have last := tells.count
    rw [counts, Option.map_some] at last
    rcases isList : ofTurn (.ofCount visible) items with _ | ⟨item, _ | ⟨other, rest⟩⟩
    · rw [isList] at last
      cases last
    · rw [isList, List.getLast?_singleton, Option.some.injEq] at last
      rw [last]
    · rw [isList] at single
      simp at single
  have behind := held.right
  rw [List.range_eq_range'] at behind
  have sets := emits_tellParameterTables proper tells (by omega) behind
  have all : (ofTurn (.ofParameter visible) items).filter (fun item => decide (item.parameter < count.toNat)) =
      ofTurn (.ofParameter visible) items := by
    simpa using below
  rw [← List.range_eq_range', flatMap_filter_rank inOrder.ordered, all] at sets
  rw [number]
  show Emits (image.tellParameterAnnotations visible offset) _ _
  rw [tellParameterAnnotations]
  apply Emits.bind_lift held.left.u8
  exact (emits_tell _).bind sets

/-- What is told of the annotations of parameters, if there are any. -/
theorem Tells.emits {image : ClassImage} (proper : image.IsProper)
    (tells : annotations.Tells image.pool visible items) (counts : CountsParameters items)
    {good : Item → Prop} (single : (ofTurn (.ofCount visible) items).length ≤ 1)
    (inOrder : AtTurn good (.ofParameter visible) (ofTurn (.ofParameter visible) items))
    {kind : AttributeKind} { entry? : Option RawAttribute}
    (same : Option.Rel (Stands image) (annotations.part kind).2 entry?) :
    (tellIfPresent ( entry?.map RawAttribute.offset) (image.tellParameterAnnotations visible)).Emits ()
      (ofTurn (.ofCount visible) items ++ ofTurn (.ofParameter visible) items) := by
  have isCounted : ∀ item ∈ ofTurn (.ofParameter visible) items, ∃ count,
      Item.event (.methodItem (.annotableParameterCount count visible)) ∈ ofTurn (.ofCount visible) items ∧
        item.parameter < count.toNat := by
    intro item member
    rcases List.mem_filter.mp member with ⟨isItem, isTurn⟩
    rcases counts visible item isItem (of_decide_eq_true isTurn) with ⟨count, counted, below⟩
    exact ⟨count, List.mem_filter.mpr ⟨counted, decide_eq_true (by cases visible <;> rfl)⟩, below⟩
  have last := tells.count
  cases isThere : annotations.annotable? with
  | none =>
      rw [isThere, Option.map_none, eq_comm, List.getLast?_eq_none_iff] at last
      have noParameters : ofTurn (.ofParameter visible) items = [] := by
        apply List.eq_nil_iff_forall_not_mem.mpr
        intro item member
        rcases isCounted item member with ⟨count, counted, -⟩
        rw [last] at counted
        cases counted
      have noSets : annotations.sets = #[] := by
        apply Array.eq_empty_of_size_eq_zero
        have few := tells.few 0 (by simp [noParameters])
        omega
      have isEmpty : annotations.isEmpty = true := by
        simp [ParameterAnnotations.isEmpty, isThere, noSets]
      rw [part, isEmpty] at same
      cases same
      rw [last, noParameters]
      exact emits_pure ()
  | some count =>
      have notEmpty : annotations.isEmpty = false := by
        simp [ParameterAnnotations.isEmpty, isThere]
      have below : ∀ item ∈ ofTurn (.ofParameter visible) items, item.parameter < count.toNat := by
        intro item member
        rcases isCounted item member with ⟨other, counted, below⟩
        rw [isThere, Option.map_some] at last
        rcases isList : ofTurn (.ofCount visible) items with _ | ⟨first, _ | ⟨second, rest⟩⟩
        · rw [isList] at counted
          cases counted
        · rw [isList, List.mem_singleton] at counted
          rw [isList, List.getLast?_singleton, ← counted] at last
          cases last
          exact below
        · rw [isList] at single
          simp at single
      rw [part, notEmpty] at same
      apply emits_tellIfPresent same
      · rintro _ ⟨⟩ entry stands
        exact tells.told isThere single inOrder below image proper rfl _ stands.held
      · nofun

end ParameterAnnotations

end ClassFile
