import ClassFile.AttributeKind
import ClassFile.Proofs.Pool.Content

/-!
# Names in ASCII

A text in ASCII without a zero byte is stored as it is, and only its own bytes are read as that text:
so the name of an attribute that the format defines is always found under the bytes of the name.
-/

namespace ClassFile

namespace Text

/-- Whether every byte is an ASCII character other than zero. -/
def IsAscii (bytes : List UInt8) : Prop :=
  ∀ byte ∈ bytes, 0 < byte ∧ byte < 0x80

theorem encodeModified_ascii {bytes : List UInt8} (ascii : IsAscii bytes) (encoded : List UInt8) :
    encodeModified encoded bytes = encoded.reverse ++ bytes := by
  induction bytes generalizing encoded with
  | nil => simp [encodeModified]
  | cons byte rest ih =>
      rcases List.forall_mem_cons.mp ascii with ⟨⟨positive, low⟩, restAscii⟩
      have nonzero : byte ≠ 0 := (UInt8.ne_of_lt positive).symm
      have notLarge : ¬0xF0 ≤ byte := UInt8.not_le.mpr (UInt8.lt_trans low (by decide))
      rw [encodeModified.eq_def]
      simp [nonzero, notLarge, ih restAscii]

theorem isPlain_ascii {bytes : List UInt8} (ascii : IsAscii bytes) : isPlain bytes = true := by
  induction bytes with
  | nil => rfl
  | cons byte rest ih =>
      rcases List.forall_mem_cons.mp ascii with ⟨⟨-, low⟩, restAscii⟩
      rw [isPlain.eq_def]
      simp [low, ih restAscii]

theorem encode_of_isAscii {text : Text} (ascii : IsAscii text.bytes) : text.encode = text.bytes := by
  rw [encode, encodeModified_ascii ascii, List.reverse_nil, List.nil_append]

theorem survives_of_isAscii {text : Text} (ascii : IsAscii text.bytes) : text.Survives := by
  rw [Survives, encode_of_isAscii ascii, decode, if_pos (isPlain_ascii ascii)]

theorem not_ascii_joinSurrogates (b c e f : UInt8) : ¬IsAscii (joinSurrogates b c e f) := by
  intro ascii
  have last := ascii _ (List.getLast_mem (List.cons_ne_nil _ _))
  simp only [List.getLast_cons_cons, List.getLast_singleton, UInt8.lt_iff_toNat_lt] at last
  simp at last
  omega

/-- What is read from modified UTF-8 is in ASCII only where nothing had to be decoded. -/
theorem decodeModified_eq_ok {index : Nat} {decoded stored result : List UInt8}
    (read : decodeModified index decoded stored = .ok result) :
    ∃ more, result = decoded.reverse ++ more ∧ (IsAscii more → more = stored) := by
  -- A sequence of several bytes leaves a byte that is not in ASCII.
  have several {piece decoded stored : List UInt8} (foreign : ¬IsAscii piece)
      (rest : ∃ more, result = (piece.reverse ++ decoded).reverse ++ more ∧
        (IsAscii more → more = stored)) (whole : List UInt8) :
      ∃ more, result = decoded.reverse ++ more ∧ (IsAscii more → more = whole) := by
    rcases rest with ⟨more, rfl, -⟩
    refine ⟨piece ++ more, by simp, fun ascii => absurd ?_ foreign⟩
    exact fun byte member => ascii byte (List.mem_append_left _ member)
  have high {byte : UInt8} {rest : List UInt8} (notLow : ¬byte < 0x80) : ¬IsAscii (byte :: rest) :=
    fun ascii => notLow (ascii byte List.mem_cons_self).2
  fun_induction decodeModified index decoded stored
  case case1 decoded =>
    cases read
    exact ⟨[], by simp, fun _ => rfl⟩
  case case3 decoded byte rest nonzero low ih =>
    rcases ih read with ⟨more, rfl, same⟩
    refine ⟨byte :: more, by simp, fun ascii => ?_⟩
    rw [same (List.forall_mem_cons.mp ascii).2]
  case case6 decoded rest _ _ _ ih =>
    exact @several [0] decoded rest (by simp [IsAscii]) (ih read) _
  case case8 decoded first _ notLow second rest _ _ _ ih =>
    exact @several [first, second] decoded rest (high notLow) (ih read) _
  case case12 decoded _ _ _ second _ _ _ _ third _ _ fourth fifth sixth rest _ ih =>
    exact several (not_ascii_joinSurrogates second third fifth sixth) (ih read) _
  case case13 first _ notLow second _ _ _ _ third _ _ fourth fifth sixth rest _ ih =>
    exact @several [first, second, third] _ _ (high notLow) (ih read) _
  case case14 first _ notLow second _ _ _ _ third _ _ rest _ ih =>
    exact @several [first, second, third] _ _ (high notLow) (ih read) _
  all_goals cases read

theorem eq_of_decode {stored : List UInt8} {text : Text} (ascii : IsAscii text.bytes)
    (decoded : decode stored = .ok text) : stored = text.bytes := by
  unfold decode at decoded
  split at decoded
  · cases decoded
    rfl
  · rename_i notPlain
    rcases map_eq_ok.mp decoded with ⟨result, read, rfl⟩
    rcases decodeModified_eq_ok read with ⟨more, same, isStored⟩
    rw [List.reverse_nil, List.nil_append] at same
    subst same
    rw [isStored ascii]

end Text

namespace AttributeKind

theorem text_isAscii (kind : AttributeKind) : Text.IsAscii kind.text.bytes := by
  unfold Text.IsAscii
  cases kind <;> decide +kernel

theorem text_survives (kind : AttributeKind) : kind.text.Survives :=
  Text.survives_of_isAscii kind.text_isAscii

theorem ofStored?_bytes (kind : AttributeKind) : ofStored? kind.text.bytes = some kind := by
  cases kind <;> decide +kernel

end AttributeKind

/-- A defined attribute is found under the index of its name. -/
theorem Pool.storedText_of_text {pool : Pool} {index : UInt16} {kind : AttributeKind}
    (named : pool.text index = .ok kind.text) :
    ∃ stored, pool.storedText index = .ok stored ∧ AttributeKind.ofStored? stored = some kind := by
  rcases text_eq_ok.mp named with ⟨offset, body, found, tagged, held, stored, bound, rfl, decoded⟩
  refine ⟨stored, bodyOf_bind.mpr ⟨offset, found, tagged, ?_⟩, ?_⟩
  · exact storedTextAt_eq_ok.mpr ⟨bound, held⟩
  · rw [Text.eq_of_decode kind.text_isAscii decoded, kind.ofStored?_bytes]

end ClassFile
