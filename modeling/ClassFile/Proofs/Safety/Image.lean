import ClassFile.Image
import ClassFile.Proofs.Safety.Pool

/-!
# Finding the parts of a class file is safe

Tables of attributes are stepped over by lengths that the file claims; each is checked against the end
of the file before it is used.  So attributes lie inside the file (`RawAttribute.IsInside`), and an image
knows only places that are near the file (`ClassImage.IsSafe`).
-/

namespace ClassFile

open Input

/-- Whether the contents of an attribute lie inside a file. -/
def RawAttribute.IsInside (entry : RawAttribute) (input : Input) : Prop :=
  entry.offset + entry.length ≤ input.size

namespace ClassImage

variable {input : Input} {pool : Pool} {offset : Nat}

theorem yields_attributesStop (small : input.IsSmall) {count : Nat} (near : input.Near offset) :
    Yields (attributesStop input offset count) fun stop => input.Near stop := by
  induction count generalizing offset with
  | zero => exact near
  | succ count ih =>
      rw [attributesStop]
      refine (yields_u32 (by omega)).bind fun length read => ?_
      exact ih (by omega)

theorem yields_skipAttributes (small : input.IsSmall) (known : offset ≤ 18446744073709551615) :
    Yields (skipAttributes input offset) fun stop => stop ≤ input.size := by
  unfold skipAttributes
  refine (yields_u16 known).bind fun count read => ?_
  refine (yields_attributesStop small (by omega)).bind fun stop near => ?_
  split
  · exact isMalformed_orOverflow rfl (show stop ≤ 18446744073709551615 by omega)
  · rename_i inside
    exact Nat.not_lt.mp inside

theorem yields_membersStop (small : input.IsSmall) {count : Nat} (near : input.Near offset) :
    Yields (membersStop input offset count) fun stop => input.Near stop := by
  induction count generalizing offset with
  | zero => exact near
  | succ count ih =>
      rw [membersStop]
      exact (yields_skipAttributes small (by omega)).bind fun stop inside => ih (by omega)

theorem yields_skipMembers (small : input.IsSmall) (near : input.Near offset) :
    Yields (skipMembers input offset) fun stop => input.Near stop := by
  unfold skipMembers
  refine (yields_u16 (by omega)).bind fun count read => ?_
  exact yields_membersStop small (by omega)

theorem yields_listAttributes (safe : pool.IsSafe) {found : Array RawAttribute} {count : Nat}
    (near : pool.input.Near offset) (inside : ∀ entry ∈ found, entry.IsInside pool.input) :
    Yields (listAttributes pool offset found count) fun listed =>
      (∀ entry ∈ listed.1, entry.IsInside pool.input) ∧ pool.input.Near listed.2 := by
  have small := safe.small
  induction count generalizing offset found with
  | zero => exact ⟨fun entry member => inside entry (by simpa using member), near⟩
  | succ count ih =>
      rw [listAttributes]
      refine (yields_u16 (by omega)).bind fun nameIndex read => ?_
      refine (yields_u32 (by omega)).bind fun length readLength => ?_
      by_cases beyond : pool.input.size < offset + 6 + length.toNat
      · rw [if_pos beyond]
        exact isMalformed_orOverflow rfl
          (show offset + 6 + length.toNat ≤ 18446744073709551615 by omega)
      rw [if_neg beyond]
      refine safe.yields_storedText.bind fun stored _ => ih (by omega) fun entry member => ?_
      rcases Array.mem_push.mp member with before | rfl
      · exact inside entry before
      · exact Nat.not_lt.mp beyond

theorem yields_rawAttributes (safe : pool.IsSafe) (near : pool.input.Near offset) :
    Yields (rawAttributes pool offset) fun listed =>
      (∀ entry ∈ listed.1, entry.IsInside pool.input) ∧ pool.input.Near listed.2 := by
  have small := safe.small
  unfold rawAttributes
  refine (yields_u16 (by omega)).bind fun count read => ?_
  exact yields_listAttributes safe (by omega) (by simp)

theorem yields_withBootstrapMethods (safe : pool.IsSafe) {attributes : List RawAttribute}
    (inside : ∀ entry ∈ attributes, entry.IsInside pool.input) :
    Yields (withBootstrapMethods pool attributes) fun next =>
      next.IsSafe ∧ next.input = pool.input := by
  refine @Yields.foldlM _ _ (fun next : Pool => next.IsSafe ∧ next.input = pool.input) _ _ _
    ⟨safe, rfl⟩ fun next ⟨safeNext, same⟩ entry member => ?_
  split
  · have own := inside entry member
    rw [RawAttribute.IsInside, ← same] at own
    refine (safeNext.yields_withBootstrapMethods (by omega)).weaken fun last ⟨safeLast, sameLast⟩ => ?_
    exact ⟨safeLast, sameLast.trans same⟩
  · exact ⟨safeNext, same⟩

/-- Whether an image knows only places that are near the file. -/
structure IsSafe (image : ClassImage) : Prop where
  pool : image.pool.IsSafe
  input : image.pool.input = image.input
  header : image.input.Near image.headerOffset
  attributes : image.input.Near image.attributesOffset

/-- Behind the header with the version everything is the fault of the bytes. -/
theorem yields_ofPool (small : input.IsSmall) (version : FormatVersion) :
    Yields (do
      let pool ← Pool.ofInput? input
      let headerOffset := pool.stop
      let interfaces ← input.u16 (headerOffset + 6)
      let methodsOffset ← skipMembers input (headerOffset + 8 + interfaces.toNat * 2)
      let attributesOffset ← skipMembers input methodsOffset
      let (attributes, _) ← rawAttributes pool attributesOffset
      let pool ← withBootstrapMethods pool attributes
      return ({ input, pool, version, headerOffset, attributesOffset } : ClassImage)) IsSafe := by
  refine (Pool.yields_ofInput? small).bind fun pool ⟨safe, same, nearHeader⟩ => ?_
  refine (yields_u16 (by omega)).bind fun interfaces read => ?_
  refine (yields_skipMembers small (by omega)).bind fun methods nearMethods => ?_
  refine (yields_skipMembers small nearMethods).bind fun attributes nearAttributes => ?_
  refine (yields_rawAttributes safe (same ▸ nearAttributes)).bind fun ⟨entries, _⟩ ⟨inside, _⟩ => ?_
  refine (yields_withBootstrapMethods safe inside).bind fun next ⟨safeNext, sameNext⟩ => ?_
  exact ⟨safeNext, sameNext.trans same, nearHeader, nearAttributes⟩

/-- The bytes of any file are an image whose places are near the file, or they are malformed or of a
version that is too new. -/
theorem ofInput?_cases (small : input.IsSmall) :
    (∃ image, ofInput? input = .ok image ∧ image.IsSafe) ∨
      ∃ cause, ofInput? input = .error cause ∧
        (cause.isMalformed = true ∨ ∃ major, cause = .unsupportedVersion major) := by
  have blames {result : Except ClassError ClassImage} (yields : Yields result IsSafe) :
      (∃ image, result = .ok image ∧ image.IsSafe) ∨ ∃ cause, result = .error cause ∧
        (cause.isMalformed = true ∨ ∃ major, cause = .unsupportedVersion major) :=
    yields.cases.imp_right fun ⟨cause, failed, malformed⟩ => ⟨cause, failed, .inl malformed⟩
  unfold ofInput?
  rcases (@yields_u32 input 0 (by decide)).cases with ⟨word, read, -⟩ | ⟨cause, failed, malformed⟩
  · rw [read, ok_bind]
    by_cases isMagic : (word != magic) = true
    · rw [if_pos isMagic]
      exact .inr ⟨_, rfl, .inl rfl⟩
    rw [if_neg isMagic]
    rcases (@yields_u16 input 6 (by decide)).cases with ⟨major, read, -⟩ | ⟨cause, failed, malformed⟩
    · rw [read, ok_bind]
      rcases (@yields_u16 input 4 (by decide)).cases with
        ⟨minor, read, -⟩ | ⟨cause, failed, malformed⟩
      · rw [read, ok_bind]
        by_cases tooNew : FormatVersion.latestMajor < major
        · rw [if_pos tooNew]
          exact .inr ⟨_, rfl, .inr ⟨major, rfl⟩⟩
        rw [if_neg tooNew]
        exact blames (yields_ofPool small ⟨major, minor⟩)
      · rw [failed]
        exact .inr ⟨cause, rfl, .inl malformed⟩
    · rw [failed]
      exact .inr ⟨cause, rfl, .inl malformed⟩
  · rw [failed]
    exact .inr ⟨cause, rfl, .inl malformed⟩

end ClassImage

end ClassFile
