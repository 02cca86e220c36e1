import ClassFile.Access
import Mathlib.Tactic.IntervalCases

/-!
# Access flags that are stored

A class file stores sixteen access flags, and some marks in attributes.  From both together the flags are
found again (`Access.restored`).
-/

namespace ClassFile

namespace Access

variable {marks access first second : UInt32}

/-- Whether access flags are those of a class file and given marks. -/
def Within (marks access : UInt32) : Prop :=
  access &&& ~~~(0xFFFF ||| marks) = 0

theorem Within.or (one : Within marks first) (two : Within marks second) :
    Within marks (first ||| second) := by
  unfold Within at *
  rw [← UInt32.toBitVec_inj] at *
  simp only [UInt32.toBitVec_and, UInt32.toBitVec_or] at *
  rw [BitVec.and_comm] at one two
  rw [BitVec.and_comm, BitVec.and_or_distrib_left, one, two]
  rfl

theorem within_toUInt32 (marks : UInt32) (access : UInt16) : Within marks access.toUInt32 := by
  have low : ∀ place : Fin 16, (65535#32)[place.val] = true := by decide
  unfold Within
  rw [← UInt32.toBitVec_inj]
  ext place bound
  have inside (found : access.toBitVec.getLsbD place = true) : (65535#32)[place] = true :=
    low ⟨place, BitVec.lt_of_getLsbD found⟩
  simpa using fun found high => absurd (inside found) (by simp [high])

theorem Within.mono (within : Within marks access) (more : UInt32) : Within (more ||| marks) access := by
  unfold Within at *
  rw [← UInt32.toBitVec_inj] at *
  ext place bound
  have here := congrArg (fun bits : BitVec 32 => bits[place]) within
  simp at here ⊢
  intro found notLow notMore
  exact here found notLow

/-- A field or a method is not a record. -/
theorem Within.and_record (within : Within deprecated access) : access &&& record = 0 := by
  have inside : record = ~~~(0xFFFF ||| deprecated) &&& record := by decide
  rw [inside, ← UInt32.and_assoc, within]
  decide

theorem or_and_self (access flag : UInt32) : (access ||| flag) &&& flag = flag := by
  rw [← UInt32.toBitVec_inj]
  ext place bound
  simpa using Or.inr

/-- A flag of one bit is there or not. -/
theorem flag_eq (access flag : UInt32) {place : Nat}
    (single : flag.toBitVec = BitVec.twoPow 32 place) :
    (if access &&& flag != 0 then flag else 0) = access &&& flag := by
  have both : (access &&& flag).toBitVec =
      if access.toBitVec.getLsbD place then BitVec.twoPow 32 place else 0#32 := by
    rw [UInt32.toBitVec_and, single, BitVec.and_twoPow]
  split
  · rename_i isThere
    split at both
    · rw [← UInt32.toBitVec_inj, both, single]
    · rw [bne_iff_ne, ne_eq, ← UInt32.toBitVec_inj] at isThere
      exact absurd both isThere
  · rename_i absent
    exact (by simpa using absent : access &&& flag = 0).symm

theorem synthetic_eq (access : UInt32) (major : UInt16) :
    (if needsSyntheticAttribute access major then synthetic else 0) =
      if major < firstWithSyntheticFlag then access &&& synthetic else 0 := by
  unfold needsSyntheticAttribute
  by_cases old : major < firstWithSyntheticFlag
  · simpa [old] using @flag_eq access synthetic 12 rfl
  · simp [old]

/-- The flags of a class file are found again in what is stored and in the marks. -/
theorem restored (within : Within (record ||| deprecated) access) (major : UInt16) :
    (stored access major).toUInt32 |||
        ((if access &&& deprecated != 0 then deprecated else 0) |||
          (if needsSyntheticAttribute access major then synthetic else 0)) |||
        (if access &&& record != 0 then record else 0) = access := by
  rw [@flag_eq access deprecated 17 rfl, @flag_eq access record 16 rfl, synthetic_eq]
  unfold stored
  rw [Within, ← UInt32.toBitVec_inj] at within
  have low (flags : UInt32) {place : Nat} (bound : place < 32) :
      flags.toUInt16.toUInt32.toBitVec[place] = (decide (place < 16) && flags.toBitVec.getLsbD place) := by
    simp [-UInt32.toUInt32_toUInt16, UInt32.toBitVec_toUInt16, UInt16.toBitVec_toUInt32]
  rw [← UInt32.toBitVec_inj]
  ext place bound
  have here := congrArg (fun bits : BitVec 32 => bits.getLsbD place) within
  simp only [UInt32.toBitVec_or, BitVec.getElem_or, low]
  by_cases old : major < firstWithSyntheticFlag
  · simp [old, record, deprecated, synthetic] at here ⊢
    interval_cases place <;> simp_all
  · simp [old, record, deprecated] at here ⊢
    interval_cases place <;> simp_all

/-- So are those of a field or a method, which is never marked as a record. -/
theorem restored_member (within : Within deprecated access) (major : UInt16) :
    (stored access major).toUInt32 |||
      ((if access &&& deprecated != 0 then deprecated else 0) |||
        (if needsSyntheticAttribute access major then synthetic else 0)) = access := by
  have same := restored (within.mono record) major
  rw [within.and_record] at same
  simpa using same

end Access

end ClassFile
