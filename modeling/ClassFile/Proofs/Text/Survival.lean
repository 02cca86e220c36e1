import ClassFile.Proofs.Text

/-!
# Texts that were read survive

The bytes of a text that was read are well-formed: sequences of one to four bytes, in which a high
surrogate never stands in front of a low one, since the two are read as one code point.  Such bytes are
read back from the form in which they are stored, so whatever text was read can be written and read
again (`Text.survives_of_decode`).
-/

namespace ClassFile

namespace Text

/-- Whether bytes start with a low surrogate. -/
def StartsLow : List UInt8 → Prop
  | first :: second :: third :: _ =>
      first = 0xED ∧ 0xB0 ≤ second ∧ second ≤ 0xBF ∧ isContinuation third = true
  | _ => False

/-- Whether three bytes are a high surrogate. -/
def IsHigh (first second : UInt8) : Prop :=
  first = 0xED ∧ 0xA0 ≤ second ∧ second ≤ 0xAF

/-- The bytes of texts that can be read. -/
inductive WellFormed : List UInt8 → Prop where
  | nil : WellFormed []
  | one {first : UInt8} {rest : List UInt8} (low : first < 0x80) (behind : WellFormed rest) :
      WellFormed (first :: rest)
  | two {first second : UInt8} {rest : List UInt8} (lead : 0xC2 ≤ first ∧ first ≤ 0xDF)
      (goesOn : isContinuation second = true) (behind : WellFormed rest) :
      WellFormed (first :: second :: rest)
  | three {first second third : UInt8} {rest : List UInt8} (lead : 0xE0 ≤ first ∧ first ≤ 0xEF)
      (goesOn : isContinuation second = true) (ends : isContinuation third = true)
      (long : ¬(first = 0xE0 ∧ second < 0xA0)) (alone : IsHigh first second → ¬StartsLow rest)
      (behind : WellFormed rest) : WellFormed (first :: second :: third :: rest)
  | four {first second third fourth : UInt8} {rest : List UInt8}
      (lead : 0xF0 ≤ first ∧ first ≤ 0xF4) (goesOn : isSecondOfFour first second = true)
      (continues : isContinuation third = true) (ends : isContinuation fourth = true)
      (behind : WellFormed rest) : WellFormed (first :: second :: third :: fourth :: rest)

theorem isContinuation_iff {byte : UInt8} :
    isContinuation byte = true ↔ 128 ≤ byte.toNat ∧ byte.toNat ≤ 191 := by
  simp [isContinuation, UInt8.le_iff_toNat_le]

theorem isSecondOfThree_of {first byte : UInt8} (second : isSecondOfThree first byte = true) :
    isContinuation byte = true ∧ ¬(first = 0xE0 ∧ byte < 0xA0) ∧ ¬IsHigh first byte := by
  simp only [isSecondOfThree, Bool.and_eq_true] at second
  refine ⟨second.1, ?_, ?_⟩
  · rintro ⟨rfl, short⟩
    have long := second.2
    simp only [UInt8.le_iff_toNat_le, UInt8.lt_iff_toNat_lt, if_true, decide_eq_true_eq] at long short
    omega
  · rintro ⟨rfl, high, -⟩
    have low := second.2
    simp [UInt8.le_iff_toNat_le] at low high
    omega

/-- Plain UTF-8 is well-formed. -/
theorem wellFormed_of_isPlain {bytes : List UInt8} (plain : isPlain bytes = true) :
    WellFormed bytes := by
  fun_induction isPlain bytes
  case case1 => exact .nil
  case case2 low ih => exact .one low (ih plain)
  case case4 lead ih => exact .two ⟨lead.1, lead.2.1⟩ lead.2.2 (ih plain)
  case case6 lead ih =>
    rcases isSecondOfThree_of lead.2.2.1 with ⟨goesOn, long, notHigh⟩
    exact .three ⟨lead.1, lead.2.1⟩ goesOn lead.2.2.2 long (fun high => absurd high notHigh) (ih plain)
  case case8 lead ih =>
    exact .four ⟨lead.1, lead.2.1⟩ lead.2.2.1 lead.2.2.2.1 lead.2.2.2.2 (ih plain)
  all_goals cases plain

/-! ### Decoding gives well-formed bytes -/

theorem not_startsLow {first : UInt8} {rest : List UInt8} (notSurrogate : first ≠ 0xED) :
    ¬StartsLow (first :: rest) := by
  unfold StartsLow
  split
  · rename_i same
    cases same
    exact fun low => notSurrogate low.1
  · exact id

theorem not_startsLow_of_lead {first second : UInt8} {rest : List UInt8}
    (notLow : ¬(0xB0 ≤ second ∧ second ≤ 0xBF)) : ¬StartsLow (first :: second :: rest) := by
  unfold StartsLow
  split
  · rename_i same
    cases same
    exact fun low => notLow ⟨low.2.1, low.2.2.1⟩
  · exact id

/-- The four bytes of a code point above U+FFFF. -/
def pointBytes (point : Nat) : List UInt8 :=
  [(0xF0 + point / 262144).toUInt8, (0x80 + point / 4096 % 64).toUInt8,
    (0x80 + point / 64 % 64).toUInt8, (0x80 + point % 64).toUInt8]

theorem wellFormed_pointBytes {point : Nat} (large : 65536 ≤ point) (small : point < 1114112)
    {rest : List UInt8} (behind : WellFormed rest) : WellFormed (pointBytes point ++ rest) := by
  have trails (number : Nat) : isContinuation (0x80 + number % 64).toUInt8 = true := by
    rw [isContinuation_iff]
    simp
    omega
  refine .four ?_ ?_ (trails _) (trails _) behind
  · simp [UInt8.le_iff_toNat_le]
    omega
  · rw [isSecondOfFour, trails, Bool.true_and]
    split
    · rename_i first
      simp [← UInt8.toNat_inj] at first
      simp [UInt8.le_iff_toNat_le]
      omega
    split
    · rename_i first
      simp [← UInt8.toNat_inj] at first
      simp [UInt8.le_iff_toNat_le]
      omega
    · rfl

theorem wellFormed_joinSurrogates {b c e f : UInt8} (high : 0xA0 ≤ b ∧ b ≤ 0xAF)
    (second : isContinuation c = true) (low : 0xB0 ≤ e ∧ e ≤ 0xBF) (fourth : isContinuation f = true)
    {rest : List UInt8} (behind : WellFormed rest) : WellFormed (joinSurrogates b c e f ++ rest) := by
  rw [isContinuation_iff] at second fourth
  simp only [UInt8.le_iff_toNat_le, UInt8.reduceToNat] at high low
  exact wellFormed_pointBytes (by omega) (by omega) behind

/-- What is decoded is well-formed, and starts with a low surrogate only where the stored form does. -/
theorem wellFormed_of_decodeModified {index : Nat} {decoded stored result : List UInt8}
    (read : decodeModified index decoded stored = .ok result) :
    ∃ more, result = decoded.reverse ++ more ∧ WellFormed more ∧
      (StartsLow more → StartsLow stored) := by
  -- What is behind a piece is put behind it in front of what was decoded before.
  have piece {piece decoded rest : List UInt8} {low : Prop}
      (behind : ∃ more, result = (piece.reverse ++ decoded).reverse ++ more ∧ WellFormed more ∧
        (StartsLow more → StartsLow rest))
      (formed : ∀ more, WellFormed more → (StartsLow more → StartsLow rest) →
        WellFormed (piece ++ more) ∧ (StartsLow (piece ++ more) → low)) :
      ∃ more, result = decoded.reverse ++ more ∧ WellFormed more ∧ (StartsLow more → low) := by
    rcases behind with ⟨more, rfl, wellFormed, starts⟩
    exact ⟨piece ++ more, by simp, formed more wellFormed starts⟩
  fun_induction decodeModified index decoded stored
  case case1 =>
    cases read
    exact ⟨[], by simp, .nil, id⟩
  case case3 decoded first rest _ low ih =>
    refine @piece [first] decoded rest _ (ih read) fun more behind _ => ⟨.one low behind, ?_⟩
    intro starts
    refine absurd starts (not_startsLow ?_)
    rintro rfl
    exact absurd low (by decide)
  case case6 decoded rest _ _ _ ih =>
    refine @piece [0] decoded rest _ (ih read) fun more behind _ => ⟨.one (by decide) behind, ?_⟩
    exact fun starts => absurd starts (not_startsLow (by decide))
  case case8 decoded first _ _ second rest goesOn _ lead ih =>
    refine @piece [first, second] decoded rest _ (ih read) fun more behind _ =>
      ⟨.two lead (by simpa using goesOn) behind, ?_⟩
    intro starts
    refine absurd starts (not_startsLow ?_)
    rintro rfl
    exact absurd lead.2 (by decide)
  case case12 decoded first _ _ second goesOn _ _ lead third ends _ fourth fifth sixth rest pair ih =>
    refine @piece _ decoded rest _ (ih read) fun more behind _ => ⟨?_, ?_⟩
    · exact wellFormed_joinSurrogates ⟨pair.2.1, pair.2.2.1⟩ (by simpa using ends)
        ⟨pair.2.2.2.2.1, pair.2.2.2.2.2.1⟩ pair.2.2.2.2.2.2 behind
    · have second := isContinuation_iff.mp (by simpa using ends : isContinuation third = true)
      have fourth := isContinuation_iff.mp pair.2.2.2.2.2.2
      have bounds := pair
      simp only [UInt8.le_iff_toNat_le, UInt8.reduceToNat] at bounds
      refine fun starts => absurd starts (not_startsLow (ne_of_apply_ne UInt8.toNat ?_))
      simp
      omega
  case case13 decoded first _ _ second goesOn _ _ lead third ends long fourth fifth sixth rest pair ih =>
    refine @piece [first, second, third] decoded _ _ (ih read) fun more behind starts => ⟨?_, id⟩
    refine .three lead (by simpa using goesOn) (by simpa using ends) long (fun high low => ?_) behind
    exact pair ⟨high.1, high.2.1, high.2.2, starts low⟩
  case case14 decoded first _ _ second goesOn _ _ lead third ends long rest short ih =>
    refine @piece [first, second, third] decoded _ _ (ih read) fun more behind starts => ⟨?_, id⟩
    refine .three lead (by simpa using goesOn) (by simpa using ends) long (fun _ low => ?_) behind
    have startsRest := starts low
    unfold StartsLow at startsRest
    split at startsRest
    · exact short _ _ _ _ rfl
    · exact startsRest
  all_goals cases read

theorem wellFormed_of_decode {stored : List UInt8} {text : Text} (decoded : decode stored = .ok text) :
    WellFormed text.bytes := by
  unfold decode at decoded
  split at decoded
  · rename_i plain
    cases decoded
    exact wellFormed_of_isPlain plain
  · rcases map_eq_ok.mp decoded with ⟨result, read, rfl⟩
    rcases wellFormed_of_decodeModified read with ⟨more, rfl, wellFormed, -⟩
    exact wellFormed

/-! ### Well-formed bytes are read back from their stored form -/

/-- The stored form of bytes. -/
def storedForm (bytes : List UInt8) : List UInt8 :=
  encodeModified [] bytes

theorem encodeModified_append (before encoded bytes : List UInt8) :
    encodeModified (encoded ++ before) bytes = before.reverse ++ encodeModified encoded bytes := by
  fun_induction encodeModified encoded bytes
  case case1 => simp [encodeModified]
  case case2 ih =>
    rw [encodeModified.eq_def]
    simpa using ih
  case case3 nonzero wide _ _ _ _ ih =>
    rw [encodeModified.eq_def]
    simpa [nonzero, wide] using ih
  case case4 nonzero wide rest short ih =>
    rw [encodeModified.eq_def]
    dsimp only
    rw [if_neg nonzero, if_pos wide]
    split
    · exact absurd rfl (short _ _ _ _)
    · exact ih
  case case5 nonzero narrow ih =>
    rw [encodeModified.eq_def]
    simpa [nonzero, narrow] using ih

theorem encodeModified_eq (encoded bytes : List UInt8) :
    encodeModified encoded bytes = encoded.reverse ++ storedForm bytes := by
  exact encodeModified_append encoded [] bytes

theorem storedForm_zero (rest : List UInt8) :
    storedForm (0 :: rest) = 0xC0 :: 0x80 :: storedForm rest := by
  rw [storedForm, encodeModified.eq_def]
  dsimp only
  rw [if_pos rfl, encodeModified_eq]
  rfl

theorem storedForm_narrow {first : UInt8} (nonzero : first ≠ 0) (narrow : ¬0xF0 ≤ first)
    (rest : List UInt8) : storedForm (first :: rest) = first :: storedForm rest := by
  rw [storedForm, encodeModified.eq_def]
  dsimp only
  rw [if_neg nonzero, if_neg narrow, encodeModified_eq]
  rfl

theorem storedForm_wide {a b c d : UInt8} (wide : 0xF0 ≤ a) (rest : List UInt8) :
    storedForm (a :: b :: c :: d :: rest) = splitSurrogates a b c d ++ storedForm rest := by
  have nonzero : a ≠ 0 := by
    rintro rfl
    exact absurd wide (by decide)
  rw [storedForm, encodeModified, if_neg nonzero, if_pos wide, encodeModified_eq]
  simp

/-- The code point of four bytes. -/
theorem exists_point {a b c d : UInt8} (lead : 0xF0 ≤ a ∧ a ≤ 0xF4)
    (goesOn : isSecondOfFour a b = true) (continues : isContinuation c = true)
    (ends : isContinuation d = true) :
    ∃ point, 65536 ≤ point ∧ point < 1114112 ∧ pointBytes point = [a, b, c, d] ∧
      (a.toNat - 0xF0) * 262144 + (b.toNat - 0x80) * 4096 + (c.toNat - 0x80) * 64 +
        (d.toNat - 0x80) = point := by
  simp only [isSecondOfFour, Bool.and_eq_true, isContinuation_iff] at goesOn continues ends
  rcases goesOn with ⟨goesOn, bounds⟩
  simp only [UInt8.le_iff_toNat_le, UInt8.reduceToNat] at lead
  have first : a.toNat = 0xF0 → 0x90 ≤ b.toNat := by
    intro isFirst
    rw [if_pos (UInt8.toNat_inj.mp isFirst)] at bounds
    simpa [UInt8.le_iff_toNat_le] using bounds
  have last : a.toNat = 0xF4 → b.toNat ≤ 0x8F := by
    intro isLast
    rw [if_neg (ne_of_apply_ne UInt8.toNat (by simp [isLast])),
      if_pos (UInt8.toNat_inj.mp isLast)] at bounds
    simpa [UInt8.le_iff_toNat_le] using bounds
  refine ⟨_, ?_, ?_, ?_, rfl⟩
  · omega
  · omega
  · simp [pointBytes, ← UInt8.toNat_inj]
    omega

/-- The two surrogates of a code point are read as the code point. -/
theorem join_splitSurrogates {a b c d : UInt8} (lead : 0xF0 ≤ a ∧ a ≤ 0xF4)
    (goesOn : isSecondOfFour a b = true) (continues : isContinuation c = true)
    (ends : isContinuation d = true) :
    ∃ second third fifth sixth, splitSurrogates a b c d = [0xED, second, third, 0xED, fifth, sixth] ∧
      IsHigh 0xED second ∧ isContinuation third = true ∧
        (0xB0 ≤ fifth ∧ fifth ≤ 0xBF) ∧ isContinuation sixth = true ∧
          joinSurrogates second third fifth sixth = [a, b, c, d] := by
  rcases exists_point lead goesOn continues ends with ⟨point, large, small, bytes, same⟩
  refine ⟨_, _, _, _, rfl, ⟨rfl, ?_⟩, ?_, ?_, ?_, ?_⟩
  · rw [same]
    simp [UInt8.le_iff_toNat_le]
    omega
  · rw [isContinuation_iff, same]
    simp
    omega
  · rw [same]
    simp [UInt8.le_iff_toNat_le]
    omega
  · rw [isContinuation_iff, same]
    simp
    omega
  · rw [← bytes, same]
    refine congrArg pointBytes ?_
    simp
    omega

/-! Bytes of sequences of two or three bytes are stored as they are. -/

theorem storedForm_below {first : UInt8} (lead : 0x80 ≤ first ∧ first ≤ 0xEF) (rest : List UInt8) :
    storedForm (first :: rest) = first :: storedForm rest := by
  simp only [UInt8.le_iff_toNat_le, UInt8.reduceToNat] at lead
  refine storedForm_narrow (ne_of_apply_ne UInt8.toNat ?_) ?_ rest
  · simp
    omega
  · simp [UInt8.le_iff_toNat_le]
    omega

theorem storedForm_continuation {byte : UInt8} (goesOn : isContinuation byte = true)
    (rest : List UInt8) : storedForm (byte :: rest) = byte :: storedForm rest := by
  simp only [isContinuation, Bool.and_eq_true, decide_eq_true_eq] at goesOn
  exact storedForm_below ⟨goesOn.1, UInt8.le_trans goesOn.2 (by decide)⟩ rest

theorem storedForm_two {first second : UInt8} (lead : 0xC2 ≤ first ∧ first ≤ 0xDF)
    (goesOn : isContinuation second = true) (rest : List UInt8) :
    storedForm (first :: second :: rest) = first :: second :: storedForm rest := by
  rw [storedForm_below ⟨UInt8.le_trans (by decide) lead.1, UInt8.le_trans lead.2 (by decide)⟩,
    storedForm_continuation goesOn]

theorem storedForm_three {first second third : UInt8} (lead : 0xE0 ≤ first ∧ first ≤ 0xEF)
    (goesOn : isContinuation second = true) (ends : isContinuation third = true)
    (rest : List UInt8) :
    storedForm (first :: second :: third :: rest) = first :: second :: third :: storedForm rest := by
  rw [storedForm_below ⟨UInt8.le_trans (by decide) lead.1, lead.2⟩, storedForm_continuation goesOn,
    storedForm_continuation ends]

theorem storedForm_one {first : UInt8} (low : first < 0x80) (nonzero : first ≠ 0)
    (rest : List UInt8) : storedForm (first :: rest) = first :: storedForm rest := by
  refine storedForm_narrow nonzero ?_ rest
  simp only [UInt8.le_iff_toNat_le, UInt8.lt_iff_toNat_lt, UInt8.reduceToNat] at low ⊢
  omega

/-- The stored form starts with a low surrogate only if the bytes do. -/
theorem startsLow_of_storedForm {bytes : List UInt8} (wellFormed : WellFormed bytes)
    (low : StartsLow (storedForm bytes)) : StartsLow bytes := by
  cases wellFormed with
  | nil => exact low
  | @one first rest ascii _ =>
      by_cases zero : first = 0
      · subst zero
        rw [storedForm_zero] at low
        exact absurd low (not_startsLow (by decide))
      · rw [storedForm_one ascii zero] at low
        refine absurd low (not_startsLow ?_)
        rintro rfl
        exact absurd ascii (by decide)
  | two lead goesOn _ =>
      rw [storedForm_two lead goesOn] at low
      refine absurd low (not_startsLow ?_)
      rintro rfl
      exact absurd lead.2 (by decide)
  | three lead goesOn ends _ _ _ =>
      rw [storedForm_three lead goesOn ends] at low
      exact low
  | four lead goesOn continues ends _ =>
      rcases join_splitSurrogates lead goesOn continues ends with
        ⟨second, third, fifth, sixth, split, high, -⟩
      rw [storedForm_wide lead.1, split] at low
      refine absurd low (not_startsLow_of_lead fun bounds => ?_)
      exact absurd (UInt8.le_trans bounds.1 high.2.2) (by decide)

/-- Well-formed bytes are read back from their stored form. -/
theorem decodeModified_storedForm {bytes : List UInt8} (wellFormed : WellFormed bytes) (index : Nat)
    (decoded : List UInt8) :
    decodeModified index decoded (storedForm bytes) = .ok (decoded.reverse ++ bytes) := by
  induction wellFormed generalizing index decoded with
  | nil => simp [storedForm, encodeModified, decodeModified]
  | @one first rest low _ ih =>
      by_cases zero : first = 0
      · subst zero
        rw [storedForm_zero, decodeModified.eq_def]
        simp [isContinuation, ih]
      · rw [storedForm_one low zero, decodeModified.eq_def]
        simp [zero, low, ih]
  | @two first second rest lead goesOn _ ih =>
      have notZero : first ≠ 0 := by
        rintro rfl
        exact absurd lead.1 (by decide)
      have notLow : ¬first < 0x80 := fun low => absurd (UInt8.lt_of_le_of_lt lead.1 low) (by decide)
      have notOverlong : first ≠ 0xC0 := by
        rintro rfl
        exact absurd lead.1 (by decide)
      rw [storedForm_two lead goesOn, decodeModified.eq_def]
      simp [notZero, notLow, notOverlong, goesOn, lead, ih]
  | @three first second third rest lead goesOn ends long alone wellFormed ih =>
      have notZero : first ≠ 0 := by
        rintro rfl
        exact absurd lead.1 (by decide)
      have notLow : ¬first < 0x80 := fun low => absurd (UInt8.lt_of_le_of_lt lead.1 low) (by decide)
      have notOverlong : first ≠ 0xC0 := by
        rintro rfl
        exact absurd lead.1 (by decide)
      have notTwo : ¬(0xC2 ≤ first ∧ first ≤ 0xDF) :=
        fun two => absurd (UInt8.le_trans lead.1 two.2) (by decide)
      have next := ih (index + 3) (third :: second :: first :: decoded)
      have notLowSurrogate : IsHigh first second → ¬StartsLow (storedForm rest) :=
        fun high low => alone high (startsLow_of_storedForm wellFormed low)
      rw [storedForm_three lead goesOn ends, decodeModified.eq_def]
      dsimp only
      rw [if_neg notZero, if_neg notLow, if_neg (by simp [goesOn]), if_neg notOverlong, if_neg notTwo,
        if_pos lead]
      generalize storedForm rest = behind at next notLowSurrogate ⊢
      rw [if_neg (by simp [ends]), if_neg long]
      split
      · rw [if_neg fun pair => notLowSurrogate ⟨pair.1, pair.2.1, pair.2.2.1⟩ pair.2.2.2]
        simpa using next
      · simpa using next
  | @four a b c d rest lead goesOn continues ends _ ih =>
      rcases join_splitSurrogates lead goesOn continues ends with
        ⟨second, third, fifth, sixth, split, high, thirdGoesOn, low, sixthGoesOn, joined⟩
      have secondGoesOn : isContinuation second = true := by
        simp only [isContinuation, Bool.and_eq_true, decide_eq_true_eq]
        exact ⟨UInt8.le_trans (by decide) high.2.1, UInt8.le_trans high.2.2 (by decide)⟩
      have pair : (0xA0 ≤ second ∧ second ≤ 0xAF) ∧ 0xB0 ≤ fifth ∧ fifth ≤ 0xBF := ⟨high.2, low⟩
      rw [storedForm_wide lead.1, split, decodeModified.eq_def]
      simp [secondGoesOn, thirdGoesOn, sixthGoesOn, pair, joined, ih]

theorem isPlain_zero (rest : List UInt8) : isPlain (0xC0 :: 0x80 :: rest) = false := by
  refine Bool.eq_false_iff.mpr fun plain => ?_
  rcases wellFormed_of_isPlain plain with _ | low | lead | lead | lead
  · exact absurd low (by decide)
  · exact absurd lead.1 (by decide)
  · exact absurd lead.1 (by decide)
  · exact absurd lead.1 (by decide)

theorem isPlain_high {first second third : UInt8} (high : IsHigh first second) (rest : List UInt8) :
    isPlain (first :: second :: third :: rest) = false := by
  have notSecond : isSecondOfThree first second = false :=
    Bool.eq_false_iff.mpr fun isSecond => (isSecondOfThree_of isSecond).2.2 high
  rcases high with ⟨rfl, -, -⟩
  rw [isPlain.eq_def]
  dsimp only
  rw [if_neg (by decide), if_neg (by simp), if_neg (by simp [notSecond])]
  split
  · rfl
  · rw [if_neg (by simp)]

/-- The stored form is plain only if nothing had to be changed. -/
theorem storedForm_of_isPlain {bytes : List UInt8} (wellFormed : WellFormed bytes)
    (plain : isPlain (storedForm bytes) = true) : storedForm bytes = bytes := by
  induction wellFormed with
  | nil => rfl
  | @one first rest low _ ih =>
      by_cases zero : first = 0
      · subst zero
        rw [storedForm_zero, isPlain_zero] at plain
        cases plain
      · rw [storedForm_one low zero] at plain ⊢
        rw [isPlain.eq_def] at plain
        simp only [low, if_true] at plain
        rw [ih plain]
  | @two first second rest lead goesOn _ ih =>
      have notLow : ¬first < 0x80 := fun low => absurd (UInt8.lt_of_le_of_lt lead.1 low) (by decide)
      rw [storedForm_two lead goesOn] at plain ⊢
      rw [isPlain.eq_def] at plain
      simp only [notLow, lead, goesOn, and_self, if_true, if_false] at plain
      rw [ih plain]
  | @three first second third rest lead goesOn ends long alone _ ih =>
      have notLow : ¬first < 0x80 := fun low => absurd (UInt8.lt_of_le_of_lt lead.1 low) (by decide)
      have notTwo : ¬first ≤ 0xDF := fun two => absurd (UInt8.le_trans lead.1 two) (by decide)
      have notFour : ¬0xF0 ≤ first := fun four => absurd (UInt8.le_trans four lead.2) (by decide)
      rw [storedForm_three lead goesOn ends] at plain ⊢
      have behind : isPlain (storedForm rest) = true := by
        rw [isPlain.eq_def] at plain
        simp only [notLow, notTwo, lead, ends, false_and, and_false, and_true, true_and, if_false]
          at plain
        split at plain
        · exact plain
        · split at plain
          · cases plain
          · simp [notFour] at plain
      rw [ih behind]
  | @four a b c d rest lead goesOn continues ends _ ih =>
      rcases join_splitSurrogates lead goesOn continues ends with ⟨_, _, _, _, split, high, -⟩
      rw [storedForm_wide lead.1, split, List.cons_append, List.cons_append, List.cons_append,
        isPlain_high high] at plain
      cases plain

/-- A text that was read is read back when it was written. -/
theorem survives_of_decode {stored : List UInt8} {text : Text} (decoded : decode stored = .ok text) :
    text.Survives := by
  have wellFormed := wellFormed_of_decode decoded
  show decode (storedForm text.bytes) = .ok text
  unfold decode
  split
  · rename_i plain
    rw [storedForm_of_isPlain wellFormed plain]
  · rw [decodeModified_storedForm wellFormed]
    rfl

end Text

/-! ### What stands in a pool can be stored again -/

namespace Pool

variable {pool : Pool} {index : UInt16} {name : Text}

theorem survives_of_text {text : Text} (named : pool.text index = .ok text) : text.Survives := by
  rcases text_eq_ok.mp named with ⟨offset, body, found, tagged, held, stored, bound, rfl, decoded⟩
  exact Text.survives_of_decode decoded

theorem survives_of_textRefAt {offset : Nat} {text : Text} (found : pool.textRefAt offset = .ok text) :
    text.Survives := by
  rcases bind_eq_ok.mp found with ⟨place, -, named⟩
  exact survives_of_text named

theorem survives_of_classRef (found : pool.classRef index = .ok name) : name.Survives := by
  rcases classRef_eq_ok.mp found with ⟨place, -, named⟩
  exact survives_of_text named

theorem survives_of_moduleRef (found : pool.moduleRef index = .ok name) : name.Survives := by
  rcases moduleRef_eq_ok.mp found with ⟨place, -, named⟩
  exact survives_of_text named

theorem survives_of_packageRef (found : pool.packageRef index = .ok name) : name.Survives := by
  rcases packageRef_eq_ok.mp found with ⟨place, -, named⟩
  exact survives_of_text named

theorem survives_of_string {value : Text} (found : pool.string index = .ok value) :
    value.Survives := by
  rcases string_eq_ok.mp found with ⟨place, -, named⟩
  exact survives_of_text named

theorem survives_of_methodType {descriptor : Text} (found : pool.methodType index = .ok descriptor) :
    descriptor.Survives := by
  rcases methodType_eq_ok.mp found with ⟨place, -, named⟩
  exact survives_of_text named

theorem survives_of_nameAndType {value : NameAndType} (found : pool.nameAndType index = .ok value) :
    value.name.Survives ∧ value.descriptor.Survives := by
  rcases nameAndType_eq_ok.mp found with ⟨one, two, -, named, described⟩
  exact ⟨survives_of_text named, survives_of_text described⟩

theorem survives_of_optional {α : Type} {look : UInt16 → Except ClassError α} {value? : Option α}
    {survives : α → Prop} (found : optional look index = .ok value?)
    (looks : ∀ value, look index = .ok value → survives value) :
    ∀ value ∈ value?, survives value := by
  unfold optional at found
  split at found
  · cases found
    simp
  · rcases map_eq_ok.mp found with ⟨value, looked, rfl⟩
    rintro _ ⟨⟩
    exact looks value looked

theorem survives_of_member {member : MemberRef} {owner target : UInt16}
    (owned : pool.classRef owner = .ok member.owner)
    (named : pool.nameAndType target = .ok ⟨member.name, member.descriptor⟩) : member.Survives := by
  rcases survives_of_nameAndType named with ⟨name, descriptor⟩
  exact ⟨survives_of_classRef owned, name, descriptor⟩

theorem survives_of_fieldRef {member : MemberRef} (found : pool.fieldRef index = .ok member) :
    member.Survives := by
  rcases fieldRef_eq_ok.mp found with ⟨owner, target, -, owned, named⟩
  exact survives_of_member owned named

theorem survives_of_methodRef {member : MemberRef} (found : pool.methodRef index = .ok member) :
    member.Survives := by
  rcases methodRef_eq_ok.mp found with ⟨owner, target, -, owned, named⟩
  exact survives_of_member owned named

theorem survives_of_interfaceMethodRef {member : MemberRef}
    (found : pool.interfaceMethodRef index = .ok member) : member.Survives := by
  rcases interfaceMethodRef_eq_ok.mp found with ⟨owner, target, -, owned, named⟩
  exact survives_of_member owned named

theorem survives_of_anyMethodRef {member : MemberRef} {isInterface : Bool}
    (found : pool.anyMethodRef index = .ok (member, isInterface)) : member.Survives := by
  have read := anyMethodRef_eq_ok.mp found
  cases isInterface with
  | true => exact survives_of_interfaceMethodRef read
  | false => exact survives_of_methodRef read

theorem storable_of_handle {handle : Handle} (found : pool.handle index = .ok handle) :
    handle.Storable := by
  rcases handle with ⟨kind, owner, name, descriptor, isInterface⟩
  rcases handle_eq_ok.mp found with ⟨place, -, referred⟩
  cases kind with
  | invokeStatic | invokeSpecial => exact ⟨survives_of_anyMethodRef referred, trivial⟩
  | getField | getStatic | putField | putStatic =>
      rcases bind_eq_ok.mp referred with ⟨member, read, same⟩
      cases same
      exact ⟨survives_of_fieldRef read, rfl⟩
  | invokeVirtual | newInvokeSpecial =>
      rcases bind_eq_ok.mp referred with ⟨member, read, same⟩
      cases same
      exact ⟨survives_of_methodRef read, rfl⟩
  | invokeInterface =>
      rcases bind_eq_ok.mp referred with ⟨member, read, same⟩
      cases same
      exact ⟨survives_of_interfaceMethodRef read, rfl⟩

theorem storable_of_bootstrapWith {constant : UInt16 → Except ClassError Constant} {handle : Handle}
    {arguments : List Constant}
    (constants : ∀ index value, constant index = .ok value → value.Storable)
    (found : pool.bootstrapWith constant index = .ok (handle, arguments)) :
    handle.Storable ∧ Constant.AllStorable arguments := by
  rcases bootstrapWith_eq_ok.mp found with ⟨refs, -, handled, all⟩
  refine ⟨storable_of_handle handled, ?_⟩
  generalize refs.arguments = indices at all
  clear found
  induction all with
  | nil => trivial
  | cons first _ ih => exact ⟨constants _ _ first, ih⟩

theorem storable_of_constantWithin {levels : Nat} {constant : Constant}
    (found : pool.constantWithin levels index = .ok constant) : constant.Storable := by
  induction levels generalizing index constant with
  | zero =>
      have loads := constantWithin_eq_ok.mp found
      cases constant with
      | integer | float | long | double => trivial
      | string => exact survives_of_string loads
      | classRef => exact survives_of_classRef loads
      | methodType => exact survives_of_methodType loads
      | handle => exact storable_of_handle loads
      | dynamic =>
          rcases loads with ⟨inner, bootstrap, same, -⟩
          cases same
  | succ levels ih =>
      have loads := constantWithin_eq_ok.mp found
      cases constant with
      | integer | float | long | double => trivial
      | string => exact survives_of_string loads
      | classRef => exact survives_of_classRef loads
      | methodType => exact survives_of_methodType loads
      | handle => exact storable_of_handle loads
      | dynamic name descriptor method arguments =>
          rcases loads with ⟨inner, bootstrap, same, referred, called⟩
          cases same
          rcases dynamicRef_eq_ok.mp referred with ⟨target, -, named⟩
          rcases survives_of_nameAndType named with ⟨nameSurvives, descriptorSurvives⟩
          exact ⟨nameSurvives, descriptorSurvives,
            storable_of_bootstrapWith (fun _ _ => ih) called⟩

end Pool

end ClassFile
