import ClassFile.Proofs.Safety.Outcomes
import ClassFile.Pool

/-!
# Reading constants is safe

The entries of a pool were all seen when it was read, so they start inside the file (`Pool.IsSafe`), and
every look-up yields a value or finds the bytes malformed.  Dynamic constants may need each other in a
circle; the levels bound how deep that is followed.
-/

namespace ClassFile

namespace Pool

open Input

/-- Whether the entries and the bootstrap methods of a pool start inside a file that is small enough. -/
structure IsSafe (pool : Pool) : Prop where
  small : pool.input.IsSmall
  offsets : ∀ offset ∈ pool.offsets, offset ≤ pool.input.size
  bootstraps : ∀ offset ∈ pool.bootstrapOffsets, offset ≤ pool.input.size

variable {input : Input} {pool : Pool} {index : UInt16} {offset : Nat}

theorem yields_tagAt (known : offset ≤ 18446744073709551615) :
    Yields (tagAt input offset) fun _ => offset + 1 ≤ input.size := by
  unfold tagAt
  refine (yields_u8 known).bind fun byte read => ?_
  split
  · exact read.1
  · exact rfl

theorem yields_bodySize {tag : PoolTag} (known : offset ≤ 18446744073709551615) :
    Yields (bodySize input tag offset) fun size => size ≤ 65537 := by
  unfold bodySize
  split
  · rename_i size fixed
    cases tag <;> simp_all [PoolTag.bodySize?, Yields] <;> omega
  · refine Yields.map ((yields_u16 known).weaken fun length read => ?_)
    omega

theorem yields_findEntries (small : input.IsSmall) {count index : Nat} {offsets : Array Nat}
    (near : input.Near offset) (inside : ∀ place ∈ offsets, place ≤ input.size) :
    Yields (findEntries input count index offset offsets) fun found =>
      (∀ place ∈ found.1, place ≤ input.size) ∧ input.Near found.2 := by
  induction index, offset, offsets using findEntries.induct count with
  | case1 index offset offsets more wide narrow =>
      rw [findEntries, if_pos more]
      refine (yields_tagAt (by omega)).bind fun tag tagInside => ?_
      have pushed : ∀ place ∈ offsets.push offset, place ≤ input.size := by
        simp only [Array.mem_push]
        rintro place (member | rfl)
        · exact inside place member
        · omega
      by_cases last : (tag.isWide && decide (count ≤ index + 1)) = true
      · rw [if_pos last]
        exact rfl
      rw [if_neg last]
      refine (yields_bodySize (by omega)).bind fun size bound => ?_
      cases tag.isWide
      · exact narrow size (by omega) pushed
      · refine wide size (by omega) fun place member => ?_
        rcases Array.mem_push.mp member with before | rfl
        · exact pushed place before
        · exact Nat.zero_le _
  | case2 index offset offsets done =>
      rw [findEntries, if_neg done]
      exact ⟨inside, near⟩

theorem yields_ofInput? (small : input.IsSmall) :
    Yields (ofInput? input) fun pool =>
      pool.IsSafe ∧ pool.input = input ∧ input.Near pool.stop := by
  unfold ofInput?
  refine (yields_u16 (by decide)).bind fun count _ => ?_
  refine (yields_findEntries small (by unfold firstOffset; omega) ?_).bind
    fun ⟨offsets, stop⟩ ⟨inside, near⟩ => ?_
  · split <;> simp
  · exact ⟨⟨small, inside, by simp⟩, rfl, near⟩

theorem yields_findBootstrapMethods (small : input.IsSmall) {count : Nat} {offsets : Array Nat}
    (near : input.Near offset) (inside : ∀ place ∈ offsets, place ≤ input.size) :
    Yields (findBootstrapMethods input offset offsets count) fun found =>
      ∀ place ∈ found, place ≤ input.size := by
  induction count generalizing offset offsets with
  | zero => exact inside
  | succ count ih =>
      rw [findBootstrapMethods]
      refine (yields_u16 (by omega)).bind fun arguments read => ?_
      refine ih (by omega) fun place member => ?_
      rcases Array.mem_push.mp member with before | rfl
      · exact inside place before
      · omega

theorem IsSafe.yields_withBootstrapMethods (safe : pool.IsSafe) (inside : offset ≤ pool.input.size) :
    Yields (pool.withBootstrapMethods offset) fun next =>
      next.IsSafe ∧ next.input = pool.input := by
  have small := safe.small
  unfold withBootstrapMethods
  refine (yields_u16 (by omega)).bind fun count read => ?_
  refine (yields_findBootstrapMethods small (by omega) (by simp)).bind fun offsets insideAll => ?_
  exact ⟨⟨small, safe.offsets, insideAll⟩, rfl⟩

section Lookups

variable (safe : pool.IsSafe)

include safe

theorem IsSafe.yields_offsetOf : Yields (pool.offsetOf index) fun offset =>
    offset ≤ pool.input.size := by
  unfold offsetOf
  split
  · exact rfl
  · rename_i offset _ found
    exact safe.offsets offset (Array.mem_of_getElem? found)
  · exact rfl

theorem IsSafe.yields_tag : Yields (pool.tag index) fun _ => True := by
  have small := safe.small
  exact safe.yields_offsetOf.bind fun offset inside => (yields_tagAt (by omega)).any

theorem IsSafe.yields_bodyOf {expected : PoolTag} :
    Yields (pool.bodyOf expected index) fun offset => offset ≤ pool.input.size := by
  have small := safe.small
  unfold bodyOf
  refine safe.yields_offsetOf.bind fun offset inside => ?_
  refine (yields_tagAt (by omega)).bind fun actual tagInside => ?_
  split
  · exact tagInside
  · exact rfl

theorem IsSafe.yields_storedTextAt (near : pool.input.Near offset) :
    Yields (pool.storedTextAt offset) fun _ => offset + 2 ≤ pool.input.size := by
  have small := safe.small
  unfold storedTextAt
  refine (yields_u16 (by omega)).bind fun length read => ?_
  exact (yields_bytes (by omega) _).weaken fun _ _ => read.1

theorem IsSafe.yields_textAt (near : pool.input.Near offset) :
    Yields (pool.textAt offset) fun _ => True := by
  unfold textAt
  refine (safe.yields_storedTextAt near).bind fun stored _ => ?_
  split
  · exact trivial
  · exact rfl

theorem IsSafe.yields_storedText : Yields (pool.storedText index) fun _ => True :=
  safe.yields_bodyOf.bind fun _ inside => (safe.yields_storedTextAt (by omega)).any

theorem IsSafe.yields_text : Yields (pool.text index) fun _ => True :=
  safe.yields_bodyOf.bind fun _ inside => safe.yields_textAt (by omega)

/-- What stands behind an index that is read in the file. -/
theorem IsSafe.yields_at {α : Type} {look : UInt16 → Except ClassError α}
    (looks : ∀ index, Yields (look index) fun _ => True) (near : pool.input.Near offset) :
    Yields (pool.input.u16 offset >>= look) fun _ => offset + 2 ≤ pool.input.size := by
  have small := safe.small
  refine (yields_u16 (by omega)).bind fun index read => ?_
  exact (looks index).weaken fun _ _ => read.1

theorem IsSafe.yields_textRefAt (near : pool.input.Near offset) :
    Yields (pool.textRefAt offset) fun _ => offset + 2 ≤ pool.input.size :=
  safe.yields_at (fun _ => safe.yields_text) near

theorem IsSafe.yields_named {tag : PoolTag} : Yields (pool.named tag index) fun _ => True :=
  safe.yields_bodyOf.bind fun _ inside => (safe.yields_textRefAt (by omega)).any

theorem IsSafe.yields_integer : Yields (pool.integer index) fun _ => True := by
  have small := safe.small
  exact safe.yields_bodyOf.bind fun _ inside => (yields_i32 (by omega)).any

theorem IsSafe.yields_float : Yields (pool.float index) fun _ => True := by
  have small := safe.small
  exact safe.yields_bodyOf.bind fun _ inside => (yields_u32 (by omega)).any

theorem IsSafe.yields_long : Yields (pool.long index) fun _ => True := by
  have small := safe.small
  exact safe.yields_bodyOf.bind fun _ inside => (yields_i64 small (by omega)).any

theorem IsSafe.yields_double : Yields (pool.double index) fun _ => True := by
  have small := safe.small
  exact safe.yields_bodyOf.bind fun _ inside => (yields_u64 small (by omega)).any

theorem IsSafe.yields_nameAndTypeAt (near : pool.input.Near offset) :
    Yields (pool.nameAndTypeAt offset) fun _ => True := by
  unfold nameAndTypeAt
  refine (safe.yields_textRefAt near).bind fun name read => ?_
  exact (safe.yields_textRefAt (by omega)).last

theorem IsSafe.yields_nameAndType : Yields (pool.nameAndType index) fun _ => True :=
  safe.yields_bodyOf.bind fun _ inside => safe.yields_nameAndTypeAt (by omega)

theorem IsSafe.yields_memberAt (near : pool.input.Near offset) :
    Yields (pool.memberAt offset) fun _ => True := by
  have small := safe.small
  unfold memberAt
  refine (yields_u16 (by omega)).bind fun owner read => ?_
  refine safe.yields_named.bind fun _ _ => ?_
  refine (yields_u16 (by omega)).bind fun member _ => ?_
  exact safe.yields_nameAndType.last

theorem IsSafe.yields_member {tag : PoolTag} : Yields (pool.member tag index) fun _ => True :=
  safe.yields_bodyOf.bind fun _ inside => safe.yields_memberAt (by omega)

theorem IsSafe.yields_anyMethodRef : Yields (pool.anyMethodRef index) fun _ => True := by
  have small := safe.small
  unfold anyMethodRef
  refine safe.yields_offsetOf.bind fun offset inside => ?_
  refine (yields_tagAt (by omega)).bind fun tag _ => ?_
  split
  · exact (safe.yields_memberAt (by omega)).last
  · exact (safe.yields_memberAt (by omega)).last
  · exact rfl

theorem IsSafe.yields_handleAt (near : pool.input.Near offset) :
    Yields (pool.handleAt offset) fun _ => True := by
  have small := safe.small
  unfold handleAt
  refine (yields_u8 (by omega)).bind fun byte _ => ?_
  split
  · exact rfl
  · rename_i kind _
    refine (yields_u16 (by omega)).bind fun member _ => ?_
    cases kind
    case invokeStatic | invokeSpecial =>
      refine safe.yields_anyMethodRef.bind fun _ _ => ?_
      exact trivial
    all_goals
      refine safe.yields_member.bind fun _ _ => ?_
      exact trivial

theorem IsSafe.yields_handle : Yields (pool.handle index) fun _ => True :=
  safe.yields_bodyOf.bind fun _ inside => safe.yields_handleAt (by omega)

theorem IsSafe.yields_dynamicAt (near : pool.input.Near offset) :
    Yields (pool.dynamicAt offset) fun _ => True := by
  have small := safe.small
  unfold dynamicAt
  refine (yields_u16 (by omega)).bind fun bootstrap read => ?_
  refine (yields_u16 (by omega)).bind fun member _ => ?_
  exact safe.yields_nameAndType.last

theorem IsSafe.yields_dynamicRef : Yields (pool.dynamicRef index) fun _ => True :=
  safe.yields_bodyOf.bind fun _ inside => safe.yields_dynamicAt (by omega)

theorem IsSafe.yields_invokeDynamicRef : Yields (pool.invokeDynamicRef index) fun _ => True :=
  safe.yields_bodyOf.bind fun _ inside => safe.yields_dynamicAt (by omega)

omit safe in
theorem yields_optional {α : Type} {look : UInt16 → Except ClassError α}
    (looks : Yields (look index) fun _ => True) :
    Yields (optional look index) fun _ => True := by
  unfold optional
  split
  · exact trivial
  · exact Yields.map looks

theorem IsSafe.yields_bootstrapOffset : Yields (pool.bootstrapOffset index) fun offset =>
    offset ≤ pool.input.size := by
  unfold bootstrapOffset
  split
  · rename_i offset found
    exact safe.bootstraps offset (Array.mem_of_getElem? found)
  · exact rfl

theorem IsSafe.yields_readArguments {constant : UInt16 → Except ClassError Constant}
    (constants : ∀ index, Yields (constant index) fun _ => True) {found : List Constant} {count : Nat}
    (near : pool.input.Near offset) :
    Yields (pool.readArguments constant offset found count) fun _ => True := by
  induction count generalizing offset found with
  | zero => exact trivial
  | succ count ih =>
      have small := safe.small
      rw [readArguments]
      refine (yields_u16 (by omega)).bind fun argument read => ?_
      exact (constants argument).bind fun value _ => ih (by omega)

theorem IsSafe.yields_bootstrapWith {constant : UInt16 → Except ClassError Constant}
    (constants : ∀ index, Yields (constant index) fun _ => True) :
    Yields (pool.bootstrapWith constant index) fun _ => True := by
  have small := safe.small
  unfold bootstrapWith
  refine safe.yields_bootstrapOffset.bind fun offset inside => ?_
  refine (yields_u16 (by omega)).bind fun handle read => ?_
  refine safe.yields_handle.bind fun _ _ => ?_
  refine (yields_u16 (by omega)).bind fun count _ => ?_
  exact (safe.yields_readArguments constants (by omega)).last

/-- A constant is safe to read if dynamic constants inside a dynamic one are. -/
theorem IsSafe.yields_constant_step {levels : Nat}
    (inner : ∀ level < levels, ∀ index, Yields (pool.constantWithin level index) fun _ => True) :
    Yields (pool.constantWithin levels index) fun _ => True := by
  unfold constantWithin
  refine safe.yields_tag.bind fun tag _ => ?_
  split
  · exact safe.yields_integer.last
  · exact safe.yields_float.last
  · exact safe.yields_long.last
  · exact safe.yields_double.last
  · exact safe.yields_named.last
  · exact safe.yields_named.last
  · exact safe.yields_named.last
  · exact safe.yields_handle.last
  · refine safe.yields_dynamicRef.bind fun reference _ => ?_
    split
    · exact rfl
    · exact (safe.yields_bootstrapWith fun index => inner _ (Nat.lt_succ_self _) index).last
  · exact rfl

/-- The levels bound how deep dynamic constants that need each other in a circle are followed. -/
theorem IsSafe.yields_constantWithin {levels : Nat} :
    Yields (pool.constantWithin levels index) fun _ => True := by
  induction levels using Nat.strongRecOn generalizing index with
  | ind levels ih => exact safe.yields_constant_step fun level less index => ih level less

theorem IsSafe.yields_constant : Yields (pool.constant index) fun _ => True :=
  safe.yields_constantWithin

theorem IsSafe.yields_bootstrapMethod : Yields (pool.bootstrapMethod index) fun _ => True :=
  safe.yields_bootstrapWith fun _ => safe.yields_constantWithin

end Lookups

end Pool

end ClassFile
