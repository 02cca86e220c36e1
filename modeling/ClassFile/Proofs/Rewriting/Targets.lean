import ClassFile.Proofs.Bytes
import ClassFile.Proofs.Result
import ClassFile.TypeAnnotation

/-!
# Places of type annotations, written and read

A target is read as it was written, but for its place in the code, which nothing outside of a method body
tells; a path is read as it was written.
-/

namespace ClassFile

variable {input : Input} {offset : Nat}

/-- A target is read again, wherever its bytes stand, but for its place in the code. -/
theorem TypeTarget.exists_read {target : TypeTarget}
    (apart : target ≠ .classExtends (some superClassIndex))
    (held : input.HasAt offset (target.write .none .empty).toList) :
    ∃ location, read input offset =
      .ok (target, location, offset + (target.write .none .empty).toList.length) := by
  cases target
  case classExtends interface? =>
    have index : (if interface?.getD superClassIndex = superClassIndex then none
        else some (interface?.getD superClassIndex)) = interface? := by
      cases interface? with
      | none => rfl
      | some interface => exact if_neg fun same => apart (congrArg (classExtends ∘ some) same)
    simp only [write, code, Output.toList_u8, Output.toList_u16, Output.toList_empty, List.nil_append,
      Input.hasAt_append, List.length_singleton, ← Input.u8_eq_ok, ← Input.u16_eq_ok] at held
    simp [read, readIndexTarget, write, held, index]
  all_goals
    simp only [write, code, TargetLocation.offsetOrZero, TargetLocation.rangeList, writeRanges,
      List.foldl_nil, Output.toList_u8, Output.toList_u16, Output.toList_empty, List.nil_append,
      List.append_assoc, Input.hasAt_append, List.length_singleton, length_bigEndian16,
      ← Input.u8_eq_ok, ← Input.u16_eq_ok] at held
    simp [read, readByteTarget, readPairTarget, readIndexTarget, readVariableTarget, readRanges,
      readInstructionTarget, readArgumentTarget, TargetLocation.offsetOrZero,
      TargetLocation.rangeList, writeRanges, write, held]

namespace TypePath

theorem toList_write (path : TypePath) (output : Output) :
    (path.write output).toList =
      output.toList ++ path.length.toUInt8 :: path.pairs.flatMap fun pair => [pair.1, pair.2] := by
  have append (pairs : List (UInt8 × UInt8)) (output : Output) :
      (pairs.foldl (fun output pair => (output.u8 pair.1).u8 pair.2) output).toList =
        output.toList ++ pairs.flatMap fun pair => [pair.1, pair.2] := by
    induction pairs generalizing output with
    | nil => simp
    | cons pair rest ih => simp [ih]
  simp [write, append]

theorem pairUp_flatMap (pairs : List (UInt8 × UInt8)) :
    pairUp (pairs.flatMap fun pair => [pair.1, pair.2]) = pairs := by
  induction pairs with
  | nil => rfl
  | cons pair rest ih => simp [pairUp, ih]

theorem read_of_hasAt {path : TypePath} (short : path.length < 256)
    (held : input.HasAt offset (path.write .empty).toList) :
    read input offset = .ok (path, offset + (path.write .empty).toList.length) := by
  have number : path.length.toUInt8.toNat = path.length := by
    simpa using Nat.mod_eq_of_lt short
  have size : (path.pairs.flatMap fun pair => [pair.1, pair.2]).length = path.length * 2 := by
    simp [List.length_flatMap, length]
  rw [toList_write, Output.toList_empty, List.nil_append] at held ⊢
  replace held : input.HasAt offset ([path.length.toUInt8] ++ path.pairs.flatMap fun pair => [pair.1, pair.2]) :=
    held
  have inside : offset + 1 ≤ input.size := held.left.stop_le (by simp)
  have behind := held.right.bytes inside
  rw [List.length_singleton, size] at behind
  rw [read, held.left.u8, ok_bind, number, behind, ok_bind, pairUp_flatMap,
    List.length_cons, size, Nat.add_assoc, Nat.add_comm 1]
  rfl

end TypePath

end ClassFile
