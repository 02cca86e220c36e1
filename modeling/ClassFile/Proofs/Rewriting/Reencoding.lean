import ClassFile.Proofs.Rewriting.Targets

/-!
# Places of type annotations, read and written

What is read at an offset is written as the bytes that it was read from, for targets with the
location that was read along with them and for paths.  A target is a byte for its sort and the
operands behind it; there are six layouts of operands, and each has one lemma that tells what its
reader has found.
-/

namespace ClassFile

/-- Whether `write` appends the bytes of the input from one offset up to another. -/
structure Input.IsWrittenBy (input : Input) (start stop : Nat) (write : Output → Output) :
    Prop where
  forward : start < stop
  inside : stop ≤ input.size
  appends (output : Output) :
    (write output).toList = output.toList ++ (input.toList.drop start).take (stop - start)

variable {input : Input} {offset next : Nat}

theorem Input.HasAt.isWrittenBy {bytes : List UInt8} {write : Output → Output}
    (held : input.HasAt offset bytes) (nonempty : bytes ≠ [])
    (appends : ∀ output, (write output).toList = output.toList ++ bytes) :
    input.IsWrittenBy offset (offset + bytes.length) write where
  forward := Nat.lt_add_of_pos_right (List.length_pos_iff.mpr nonempty)
  inside := held.stop_le nonempty
  appends output := by
    rw [Nat.add_sub_cancel_left, held.take_drop]
    exact appends output

namespace TypeTarget

/-- The bytes of a range. -/
def rangeBytes (range : CodeRange) : List UInt8 :=
  bigEndian16 range.start ++ bigEndian16 range.length ++ bigEndian16 range.slot

/-- The bytes behind the one for the sort of target. -/
def operandBytes (target : TypeTarget) (location : TargetLocation) : List UInt8 :=
  match target with
  | .classTypeParameter parameter | .methodTypeParameter parameter
  | .methodFormalParameter parameter => [parameter]
  | .classExtends interface? => bigEndian16 (interface?.getD superClassIndex)
  | .classTypeParameterBound parameter bound | .methodTypeParameterBound parameter bound =>
      [parameter, bound]
  | .field | .methodReturn | .methodReceiver => []
  | .throws index | .exceptionParameter index => bigEndian16 index
  | .localVariable | .resourceVariable =>
      bigEndian16 location.rangeList.length.toUInt16 ++ location.rangeList.flatMap rangeBytes
  | .instanceOf | .newObject | .constructorReference | .methodReference =>
      bigEndian16 location.offsetOrZero
  | .cast argument | .constructorInvocationArgument argument | .methodInvocationArgument argument
  | .constructorReferenceArgument argument | .methodReferenceArgument argument =>
      bigEndian16 location.offsetOrZero ++ [argument]

theorem toList_writeRanges (ranges : List CodeRange) (output : Output) :
    (writeRanges output ranges).toList = output.toList ++ ranges.flatMap rangeBytes := by
  unfold writeRanges
  induction ranges generalizing output with
  | nil => simp
  | cons range rest ih => simp [ih, rangeBytes]

theorem toList_write (target : TypeTarget) (location : TargetLocation) (output : Output) :
    (target.write location output).toList =
      output.toList ++ target.code :: target.operandBytes location := by
  cases target <;> simp [write, operandBytes, toList_writeRanges]

/-! ### The layouts of operands -/

/-- Whether a target of the given sort has been read, with its operands, from `offset` on. -/
def HasOperands (input : Input) (offset : Nat) (sort : UInt8)
    (found : TypeTarget × TargetLocation × Nat) : Prop :=
  found.1.code = sort ∧ input.HasAt offset (found.1.operandBytes found.2.1) ∧
    found.2.2 = offset + (found.1.operandBytes found.2.1).length

section Layouts

variable {sort : UInt8} {found : TypeTarget × TargetLocation × Nat}

theorem hasOperands_of_readByteTarget {target : UInt8 → TypeTarget}
    (ofSort : ∀ operand, (target operand).code = sort)
    (layout : ∀ operand location, (target operand).operandBytes location = [operand])
    (read : readByteTarget input offset target = .ok found) :
    HasOperands input offset sort found := by
  simp only [readByteTarget, bind_eq_ok, pure_eq_ok] at read
  rcases read with ⟨operand, readOperand, rfl⟩
  refine ⟨ofSort operand, ?_, ?_⟩
  · rw [layout]
    exact Input.u8_eq_ok.mp readOperand
  · rw [layout]
    rfl

theorem hasOperands_of_readPairTarget {target : UInt8 → UInt8 → TypeTarget}
    (ofSort : ∀ first second, (target first second).code = sort)
    (layout : ∀ first second location,
      (target first second).operandBytes location = [first, second])
    (read : readPairTarget input offset target = .ok found) :
    HasOperands input offset sort found := by
  simp only [readPairTarget, bind_eq_ok, pure_eq_ok] at read
  rcases read with ⟨first, readFirst, second, readSecond, rfl⟩
  refine ⟨ofSort first second, ?_, ?_⟩
  · rw [layout, Input.hasAt_cons]
    exact ⟨Input.u8_eq_ok.mp readFirst, Input.u8_eq_ok.mp readSecond⟩
  · rw [layout]
    rfl

/-- The layout of an index, also of one that is read as another value and written back as itself. -/
theorem hasOperands_of_readIndexTarget {target : UInt16 → TypeTarget}
    (ofSort : ∀ index, (target index).code = sort)
    (layout : ∀ index location, (target index).operandBytes location = bigEndian16 index)
    (read : readIndexTarget input offset target = .ok found) :
    HasOperands input offset sort found := by
  simp only [readIndexTarget, bind_eq_ok, pure_eq_ok] at read
  rcases read with ⟨index, readIndex, rfl⟩
  refine ⟨ofSort index, ?_, ?_⟩
  · rw [layout]
    exact Input.u16_eq_ok.mp readIndex
  · rw [layout, length_bigEndian16]

theorem hasOperands_of_readInstructionTarget {target : TypeTarget}
    (ofSort : target.code = sort)
    (layout : ∀ location, target.operandBytes location = bigEndian16 location.offsetOrZero)
    (read : readInstructionTarget input offset target = .ok found) :
    HasOperands input offset sort found := by
  simp only [readInstructionTarget, bind_eq_ok, pure_eq_ok] at read
  rcases read with ⟨place, readPlace, rfl⟩
  refine ⟨ofSort, ?_, ?_⟩
  · rw [layout]
    exact Input.u16_eq_ok.mp readPlace
  · rw [layout, length_bigEndian16]

theorem hasOperands_of_readArgumentTarget {target : UInt8 → TypeTarget}
    (ofSort : ∀ argument, (target argument).code = sort)
    (layout : ∀ argument location,
      (target argument).operandBytes location = bigEndian16 location.offsetOrZero ++ [argument])
    (read : readArgumentTarget input offset target = .ok found) :
    HasOperands input offset sort found := by
  simp only [readArgumentTarget, bind_eq_ok, pure_eq_ok] at read
  rcases read with ⟨argument, readArgument, place, readPlace, rfl⟩
  refine ⟨ofSort argument, ?_, ?_⟩
  · rw [layout, Input.hasAt_append]
    exact ⟨Input.u16_eq_ok.mp readPlace, Input.u8_eq_ok.mp readArgument⟩
  · rw [layout, List.length_append, length_bigEndian16, List.length_singleton]

theorem length_flatMap_rangeBytes (ranges : List CodeRange) :
    (ranges.flatMap rangeBytes).length = ranges.length * 6 := by
  induction ranges with
  | nil => rfl
  | cons range rest ih =>
      rw [List.flatMap_cons, List.length_append, ih, List.length_cons, rangeBytes]
      simp only [List.length_append, length_bigEndian16]
      omega

theorem hasAt_of_readRanges {count : Nat} {ranges : List CodeRange}
    (read : readRanges input offset count = .ok ranges) :
    ranges.length = count ∧ input.HasAt offset (ranges.flatMap rangeBytes) := by
  induction count generalizing offset ranges with
  | zero =>
      cases read
      exact ⟨rfl, List.nil_prefix⟩
  | succ count ih =>
      simp only [readRanges, bind_eq_ok, pure_eq_ok] at read
      rcases read with
        ⟨start, readStart, length, readLength, slot, readSlot, rest, readRest, rfl⟩
      rcases ih readRest with ⟨number, heldRest⟩
      refine ⟨congrArg Nat.succ number, ?_⟩
      simp only [List.flatMap_cons, rangeBytes, List.append_assoc, Input.hasAt_append,
        length_bigEndian16, Nat.add_assoc]
      exact ⟨Input.u16_eq_ok.mp readStart, Input.u16_eq_ok.mp readLength,
        Input.u16_eq_ok.mp readSlot, heldRest⟩

theorem hasOperands_of_readVariableTarget {target : TypeTarget} (ofSort : target.code = sort)
    (layout : ∀ location, target.operandBytes location =
      bigEndian16 location.rangeList.length.toUInt16 ++ location.rangeList.flatMap rangeBytes)
    (read : readVariableTarget input offset target = .ok found) :
    HasOperands input offset sort found := by
  simp only [readVariableTarget, bind_eq_ok, pure_eq_ok] at read
  rcases read with ⟨count, readCount, ranges, readPlaces, rfl⟩
  rcases hasAt_of_readRanges readPlaces with ⟨number, heldRanges⟩
  -- The count that is written is the one that was read, since it was read from two bytes.
  have written : ranges.length.toUInt16 = count := by
    rw [number]
    exact UInt16.ofNat_toNat
  refine ⟨ofSort, ?_, ?_⟩
  · rw [layout, Input.hasAt_append]
    simp only [TargetLocation.rangeList, written]
    exact ⟨Input.u16_eq_ok.mp readCount, heldRanges⟩
  · rw [layout, List.length_append, length_bigEndian16]
    simp only [TargetLocation.rangeList, length_flatMap_rangeBytes, number]
    omega

end Layouts

theorem operandBytes_classExtends (index : UInt16) (location : TargetLocation) :
    (classExtends (if index = superClassIndex then none else some index)).operandBytes location =
      bigEndian16 index := by
  by_cases isSuper : index = superClassIndex
  · rw [if_pos isSuper, isSuper]
    rfl
  · rw [if_neg isSuper]
    rfl

/-- A target is its sort, and behind it the operands of that sort. -/
theorem hasOperands_of_read {found : TypeTarget × TargetLocation × Nat}
    (read : TypeTarget.read input offset = .ok found) :
    ∃ sort, input.u8 offset = .ok sort ∧ HasOperands input (offset + 1) sort found := by
  rcases bind_eq_ok.mp read with ⟨sort, readSort, readOperands⟩
  refine ⟨sort, readSort, ?_⟩
  split at readOperands
  case h_3 =>
    exact hasOperands_of_readIndexTarget (fun _ => rfl) operandBytes_classExtends readOperands
  case h_10 | h_13 =>
    exact hasOperands_of_readIndexTarget (fun _ => rfl) (fun _ _ => rfl) readOperands
  case h_1 | h_2 | h_9 =>
    exact hasOperands_of_readByteTarget (fun _ => rfl) (fun _ _ => rfl) readOperands
  case h_4 | h_5 =>
    exact hasOperands_of_readPairTarget (fun _ _ => rfl) (fun _ _ _ => rfl) readOperands
  case h_6 | h_7 | h_8 =>
    cases readOperands
    exact ⟨rfl, List.nil_prefix, rfl⟩
  case h_11 | h_12 =>
    exact hasOperands_of_readVariableTarget rfl (fun _ => rfl) readOperands
  case h_14 | h_15 | h_16 | h_17 =>
    exact hasOperands_of_readInstructionTarget rfl (fun _ => rfl) readOperands
  case h_18 | h_19 | h_20 | h_21 | h_22 =>
    exact hasOperands_of_readArgumentTarget (fun _ => rfl) (fun _ _ => rfl) readOperands
  case h_23 => cases readOperands

theorem isWrittenBy_of_read {target : TypeTarget} {location : TargetLocation}
    (read : TypeTarget.read input offset = .ok (target, location, next)) :
    input.IsWrittenBy offset next (target.write location) := by
  rcases hasOperands_of_read read with ⟨sort, readSort, ofSort, heldOperands, stop⟩
  have held : input.HasAt offset ([target.code] ++ target.operandBytes location) := by
    rw [Input.hasAt_append]
    refine ⟨?_, heldOperands⟩
    rw [show target.code = sort from ofSort]
    exact Input.u8_eq_ok.mp readSort
  have length : next = offset + ([target.code] ++ target.operandBytes location).length := by
    rw [List.length_append, List.length_singleton, ← Nat.add_assoc]
    exact stop
  rw [length]
  exact held.isWrittenBy (by simp) (toList_write target location)

end TypeTarget

namespace TypePath

/-- Bytes of an even number are those of the pairs that they are grouped into. -/
theorem flatMap_pairUp {count : Nat} {bytes : List UInt8} (even : bytes.length = count * 2) :
    (pairUp bytes).length = count ∧
      (pairUp bytes).flatMap (fun pair => [pair.1, pair.2]) = bytes := by
  induction count generalizing bytes with
  | zero =>
      rw [Nat.zero_mul, List.length_eq_zero_iff] at even
      subst even
      exact ⟨rfl, rfl⟩
  | succ count ih =>
      rcases bytes with _ | ⟨first, _ | ⟨second, rest⟩⟩
      · simp at even
      · simp only [List.length_singleton] at even
        omega
      · have evenRest : rest.length = count * 2 := by
          simp only [List.length_cons] at even
          omega
        rcases ih evenRest with ⟨number, same⟩
        exact ⟨congrArg Nat.succ number, congrArg (first :: second :: ·) same⟩

/-- A path is its number of steps, and behind it two bytes for each of them. -/
theorem hasAt_of_read {path : TypePath} (read : TypePath.read input offset = .ok (path, next)) :
    input.u8 offset = .ok path.length.toUInt8 ∧ next = offset + 1 + path.length * 2 ∧
      input.HasAt offset
        ([path.length.toUInt8] ++ path.pairs.flatMap fun pair => [pair.1, pair.2]) := by
  simp only [TypePath.read, bind_eq_ok, pure_eq_ok, Prod.mk.injEq] at read
  rcases read with ⟨count, readCount, bytes, readBytes, rfl, rfl⟩
  rcases Input.bytes_eq_ok.mp readBytes with ⟨-, size, held⟩
  rcases flatMap_pairUp size with ⟨number, same⟩
  have number : (⟨pairUp bytes⟩ : TypePath).length = count.toNat := number
  have written : (⟨pairUp bytes⟩ : TypePath).length.toUInt8 = count := by
    rw [number]
    exact UInt8.ofNat_toNat
  rw [written, number]
  refine ⟨readCount, rfl, ?_⟩
  rw [Input.hasAt_append, same]
  exact ⟨Input.u8_eq_ok.mp readCount, held⟩

theorem isWrittenBy_of_read {path : TypePath}
    (read : TypePath.read input offset = .ok (path, next)) :
    input.IsWrittenBy offset next path.write := by
  rcases hasAt_of_read read with ⟨-, rfl, held⟩
  have length : offset + 1 + path.length * 2 =
      offset + ([path.length.toUInt8] ++ path.pairs.flatMap fun pair => [pair.1, pair.2]).length := by
    simp [List.length_flatMap, TypePath.length]
    omega
  rw [length]
  exact held.isWrittenBy (by simp) path.toList_write

theorem length_steps (path : TypePath) : path.steps.length = path.length :=
  List.length_map _

end TypePath

/-- Wherever a target or a path is read, it is written as the bytes that it was read from; and the
length of the path is the number of the steps that it lists and of those that stand there. -/
theorem annotationPlaces_reencode (input : Input) (offset next : Nat) :
    (∀ target location, TypeTarget.read input offset = .ok (target, location, next) →
      input.IsWrittenBy offset next (target.write location)) ∧
    (∀ path, TypePath.read input offset = .ok (path, next) →
      input.IsWrittenBy offset next path.write ∧ path.steps.length = path.length ∧
        input.u8 offset = .ok path.length.toUInt8 ∧ next = offset + 1 + path.length * 2) := by
  refine ⟨fun target location read => TypeTarget.isWrittenBy_of_read read, ?_⟩
  intro path read
  rcases TypePath.hasAt_of_read read with ⟨count, stop, -⟩
  exact ⟨TypePath.isWrittenBy_of_read read, path.length_steps, count, stop⟩

/-- A local variable with two ranges, and behind it a path of two steps. -/
def variableInput : Input :=
  ⟨⟨#[0x40, 0, 2, 0, 1, 0, 5, 0, 3, 0, 9, 0, 2, 0, 4, 2, 0, 0, 3, 1]⟩⟩

theorem annotationPlaces_reencode_variableInput :
    variableInput.IsWrittenBy 0 15
        (TypeTarget.localVariable.write (.ranges [⟨1, 5, 3⟩, ⟨9, 2, 4⟩])) ∧
      variableInput.IsWrittenBy 15 20 (TypePath.mk [(0, 0), (3, 1)]).write :=
  ⟨(annotationPlaces_reencode variableInput 0 15).1 _ _ (by rfl),
    ((annotationPlaces_reencode variableInput 15 20).2 _ (by rfl)).1⟩

end ClassFile
