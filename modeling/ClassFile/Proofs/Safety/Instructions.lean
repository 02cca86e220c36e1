import ClassFile.Proofs.Image.Instructions
import ClassFile.Proofs.Safety.Annotations

/-!
# Stepping over instructions is safe

Both passes over a code array go forward from its start, so an offset inside the code can be told
relative to the start, and as many steps as the code has bytes lead to its end.  The tables of switches
are checked against the end of the code, with numbers that fit into eight bytes with a sign.
-/

namespace ClassFile

open Input

theorem CodeArray.yields_place {code : CodeArray} {target source : Nat} :
    Yields (code.place target source) fun _ => True := by
  unfold CodeArray.place
  split
  · exact rfl
  · exact trivial

theorem CodeArray.yields_branch {code : CodeArray} {position source : Nat} {delta : Int} :
    Yields (code.branch position delta source) fun _ => True := by
  unfold CodeArray.branch
  dsimp only
  split
  · exact rfl
  · exact trivial

theorem CodeArray.yields_position {code : CodeArray} {pc : Nat} (begun : code.start ≤ pc) :
    Yields (code.position pc) fun position => position = pc - code.start := by
  rw [CodeArray.position_eq_ok.mpr ⟨begun, rfl⟩]
  exact rfl

/-- A table switch has at most as many cases as there are numbers of four bytes. -/
theorem TableHead.count_le (head : TableHead) : head.count ≤ 4294967296 := by
  have greatest := head.high.toInt_lt
  have least := head.low.le_toInt
  unfold count
  omega

namespace ClassImage

variable {image : ClassImage} {code : CodeArray} {pc offset : Nat} (safe : image.IsSafe)

theorem yields_requireDynamicConstants {api : Api} (supports : api.supports .v7 = true) (used : Bool) :
    Yields (requireDynamicConstants api used) fun _ => True := by
  unfold requireDynamicConstants Api.requireFor
  rw [supports, Bool.not_true, Bool.and_false]
  exact trivial

section Heads

include safe

theorem IsSafe.yields_tableHead {position stop : Nat} (near : image.input.Near pc)
    (bound : stop ≤ image.input.size) :
    Yields (image.tableHead pc position stop) fun head =>
      pc < head.table ∧ head.table + head.count * 4 ≤ image.input.size := by
  have small := safe.small
  have padding : Layout.switchPadding position < 4 := Nat.mod_lt _ (by decide)
  refine (yields_i32 (by omega)).bind fun default read => ?_
  refine (yields_i32 (by omega)).bind fun low readLow => ?_
  refine (yields_i32 (by omega)).bind fun high readHigh => ?_
  have count := TableHead.count_le ⟨default, low, high, pc + 1 + Layout.switchPadding position + 12⟩
  dsimp only
  split
  · refine isMalformed_orOverflow rfl ?_
    show _ ≤ 9223372036854775807
    omega
  · rename_i inside
    rw [not_or] at inside
    exact Yields.pure ⟨by dsimp only; omega, by dsimp only at inside ⊢; omega⟩

theorem IsSafe.yields_lookupHead {position stop : Nat} (near : image.input.Near pc)
    (bound : stop ≤ image.input.size) :
    Yields (image.lookupHead pc position stop) fun head =>
      pc < head.cases ∧ head.cases + head.count * 8 ≤ image.input.size := by
  have small := safe.small
  have padding : Layout.switchPadding position < 4 := Nat.mod_lt _ (by decide)
  refine (yields_i32 (by omega)).bind fun default read => ?_
  refine (yields_i32 (by omega)).bind fun count readCount => ?_
  have greatest := count.toInt_lt
  dsimp only
  split
  · refine isMalformed_orOverflow rfl ?_
    show _ ≤ 9223372036854775807
    omega
  · rename_i inside
    rw [not_or] at inside
    exact Yields.pure ⟨by dsimp only; omega, by dsimp only; omega⟩

theorem IsSafe.yields_markTargets {stride count : Nat} {labels : LabelSet} (short : stride ≤ 8)
    (near : image.input.Near offset) :
    Yields (image.markTargets code pc stride offset labels count) fun _ => True := by
  have small := safe.small
  induction count generalizing offset labels with
  | zero => exact trivial
  | succ count ih =>
      rw [markTargets]
      refine (yields_i32 (by omega)).bind fun delta read => ?_
      exact CodeArray.yields_branch.bind fun target _ => ih (by omega)

theorem IsSafe.yields_readTargets {count : Nat} {found : List Label} (near : image.input.Near offset) :
    Yields (image.readTargets code pc offset found count) fun _ => True := by
  have small := safe.small
  induction count generalizing offset found with
  | zero => exact trivial
  | succ count ih =>
      rw [readTargets]
      refine (yields_i32 (by omega)).bind fun delta read => ?_
      exact CodeArray.yields_branch.bind fun target _ => ih (by omega)

theorem IsSafe.yields_readCases {count : Nat} {found : List (Int32 × Label)}
    (near : image.input.Near offset) :
    Yields (image.readCases code pc offset found count) fun _ => True := by
  have small := safe.small
  induction count generalizing offset found with
  | zero => exact trivial
  | succ count ih =>
      rw [readCases]
      refine (yields_i32 (by omega)).bind fun key read => ?_
      refine (yields_i32 (by omega)).bind fun delta _ => ?_
      exact CodeArray.yields_branch.bind fun target _ => ih (by omega)

end Heads

section Passes

variable (bound : code.stop ≤ image.input.size) (begun : code.start ≤ pc)

include safe bound begun

/-- The first pass goes forward by each instruction. -/
theorem IsSafe.yields_markInstruction {labels : LabelSet} (inside : pc < code.stop) :
    Yields (image.markInstruction code pc labels) fun marked =>
      pc < marked.2 ∧ image.input.Near marked.2 := by
  have small := safe.small
  unfold markInstruction
  refine (CodeArray.yields_position begun).bind fun position _ => ?_
  refine (yields_u8 (by omega)).bind fun byte read => ?_
  split
  · exact rfl
  · refine (yields_i16 (by omega)).bind fun delta _ => ?_
    exact CodeArray.yields_branch.bind fun target _ => ⟨by dsimp only; omega, by dsimp only; omega⟩
  · refine (yields_i32 (by omega)).bind fun delta _ => ?_
    exact CodeArray.yields_branch.bind fun target _ => ⟨by dsimp only; omega, by dsimp only; omega⟩
  · refine (safe.yields_tableHead (by omega) bound).bind fun head ⟨forward, table⟩ => ?_
    refine CodeArray.yields_branch.bind fun target _ => ?_
    refine (safe.yields_markTargets (by decide) (by omega)).bind fun labels _ => ?_
    exact ⟨by dsimp only; omega, by dsimp only; omega⟩
  · refine (safe.yields_lookupHead (by omega) bound).bind fun head ⟨forward, cases_⟩ => ?_
    refine CodeArray.yields_branch.bind fun target _ => ?_
    refine (safe.yields_markTargets (by decide) (by omega)).bind fun labels _ => ?_
    exact ⟨by dsimp only; omega, by dsimp only; omega⟩
  · refine (yields_u8 (by omega)).bind fun next _ => ?_
    split
    · exact ⟨by dsimp only; omega, by dsimp only; omega⟩
    · exact ⟨by dsimp only; omega, by dsimp only; omega⟩
    · exact rfl
  · rename_i layout noJump noJumpWide noTable noLookup noWide _
    have length : 0 < layout.size?.getD 0 ∧ layout.size?.getD 0 ≤ 5 := by
      cases layout <;> simp_all [Layout.size?]
    exact ⟨by dsimp only; omega, by dsimp only; omega⟩

theorem IsSafe.yields_markInstructions {labels : LabelSet} {fuel : Nat}
    (near : image.input.Near pc) (enough : code.stop ≤ pc + fuel) :
    Yields (image.markInstructions code pc labels fuel) fun marked =>
      image.input.Near marked.2 := by
  induction fuel generalizing pc labels with
  | zero =>
      rw [markInstructions, if_neg (by omega)]
      exact near
  | succ fuel ih =>
      rw [markInstructions]
      split
      · rename_i inside
        refine (safe.yields_markInstruction bound begun inside).bind
          fun ⟨labels, next⟩ ⟨forward, nearNext⟩ => ?_
        exact ih (by dsimp only at forward; omega) nearNext (by dsimp only at forward; omega)
      · exact near

omit begun in
/-- The second pass stays near the file. -/
theorem IsSafe.yields_readInstruction {api : Api} (supports : api.supports .v7 = true)
    (inside : pc < code.stop) :
    Yields (image.readInstruction api code pc) fun found => image.input.Near found.2 := by
  have small := safe.small
  have pool := safe.pool
  have next {amount : Nat} {instruction : Instruction} (short : amount ≤ 6) :
      Yields (pure (instruction, pc + amount)) fun found => image.input.Near found.2 :=
    Yields.pure (by dsimp only; omega)
  have opcode {byte : UInt8} {place : Nat} : Yields (opcodeAt byte place) fun _ => True := by
    unfold opcodeAt
    split
    · exact trivial
    · exact rfl
  unfold readInstruction
  dsimp only
  refine (yields_u8 (by omega)).bind fun byte read => ?_
  split
  · exact rfl
  · exact opcode.bind fun _ _ => next (by decide)
  · exact (yields_i8 (by omega)).bind fun _ _ => next (by decide)
  · exact (yields_i16 (by omega)).bind fun _ _ => next (by decide)
  · refine (yields_u8 (by omega)).bind fun element _ => ?_
    split
    · exact next (by decide)
    · exact rfl
  · refine (yields_u8 (by omega)).bind fun index _ => ?_
    refine pool.yields_constant.bind fun constant _ => ?_
    exact (yields_requireDynamicConstants supports _).bind fun _ _ => next (by decide)
  · refine (yields_u16 (by omega)).bind fun index _ => ?_
    refine pool.yields_constant.bind fun constant _ => ?_
    exact (yields_requireDynamicConstants supports _).bind fun _ _ => next (by decide)
  · refine (yields_u16 (by omega)).bind fun index _ => ?_
    refine pool.yields_constant.bind fun constant _ => ?_
    exact (yields_requireDynamicConstants supports _).bind fun _ _ => next (by decide)
  · refine opcode.bind fun _ _ => ?_
    exact (yields_u8 (by omega)).bind fun _ _ => next (by decide)
  · exact opcode.bind fun _ _ => next (by decide)
  · refine (yields_u8 (by omega)).bind fun _ _ => ?_
    exact (yields_i8 (by omega)).bind fun _ _ => next (by decide)
  · refine (yields_i16 (by omega)).bind fun delta _ => ?_
    refine CodeArray.yields_branch.bind fun target _ => ?_
    exact opcode.bind fun _ _ => next (by decide)
  · refine (yields_i32 (by omega)).bind fun delta _ => ?_
    exact CodeArray.yields_branch.bind fun target _ => next (by decide)
  · refine (safe.yields_tableHead (by omega) bound).bind fun head ⟨forward, table⟩ => ?_
    refine CodeArray.yields_branch.bind fun target _ => ?_
    refine (safe.yields_readTargets (by omega)).bind fun targets _ => ?_
    exact Yields.pure (by dsimp only; omega)
  · refine (safe.yields_lookupHead (by omega) bound).bind fun head ⟨forward, table⟩ => ?_
    refine CodeArray.yields_branch.bind fun target _ => ?_
    refine (safe.yields_readCases (by omega)).bind fun cases_ _ => ?_
    exact Yields.pure (by dsimp only; omega)
  · refine (yields_u16 (by omega)).bind fun index _ => ?_
    refine pool.yields_member.bind fun member _ => ?_
    exact opcode.bind fun _ _ => next (by decide)
  · refine (yields_u16 (by omega)).bind fun index _ => ?_
    refine pool.yields_anyMethodRef.bind fun ⟨member, isInterface⟩ _ => ?_
    exact opcode.bind fun _ _ => next (by decide)
  · refine (yields_u16 (by omega)).bind fun index _ => ?_
    exact pool.yields_member.bind fun member _ => next (by decide)
  · refine (yields_u16 (by omega)).bind fun index _ => ?_
    refine pool.yields_invokeDynamicRef.bind fun reference _ => ?_
    refine pool.yields_bootstrapMethod.bind fun ⟨bootstrap, arguments⟩ _ => ?_
    exact (yields_requireDynamicConstants supports _).bind fun _ _ => next (by decide)
  · refine (yields_u16 (by omega)).bind fun index _ => ?_
    refine pool.yields_named.bind fun name _ => ?_
    exact opcode.bind fun _ _ => next (by decide)
  · refine (yields_u16 (by omega)).bind fun index _ => ?_
    refine pool.yields_named.bind fun descriptor _ => ?_
    exact (yields_u8 (by omega)).bind fun _ _ => next (by decide)
  · refine (yields_u8 (by omega)).bind fun second _ => ?_
    refine (yields_u16 (by omega)).bind fun slot _ => ?_
    split
    · exact (yields_i16 (by omega)).bind fun _ _ => next (by decide)
    · exact opcode.bind fun _ _ => next (by decide)

end Passes

end ClassImage

end ClassFile
