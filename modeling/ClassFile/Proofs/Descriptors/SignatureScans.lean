import ClassFile.Proofs.Descriptors.Signatures
import ClassFile.Proofs.Result

/-!
# Scans of spelled types

Each part of the scan of a signature stops at the first byte behind what it reads.  `Scan.Takes` says
what a part takes in front of what is left: of a spelled type it takes the pieces that the type is
spelled from (`ReferenceType.takes`).  The proofs follow the grammar, and the bytes of what is taken
bound the nesting, since every nested scan has a byte of its own.
-/

namespace ClassFile

open Descriptor

namespace Descriptor

/-- The bytes of pieces, with the names of classes as they are. -/
def bytesOf (pieces : List Piece) : List UInt8 :=
  (spelling id pieces).bytes

@[simp]
theorem bytesOf_nil : bytesOf [] = [] :=
  rfl

@[simp]
theorem bytesOf_byte (value : UInt8) (rest : List Piece) :
    bytesOf (.byte value :: rest) = value :: bytesOf rest :=
  rfl

@[simp]
theorem bytesOf_className (name : Text) (rest : List Piece) :
    bytesOf (.className name :: rest) = name.bytes ++ bytesOf rest :=
  rfl

@[simp]
theorem bytesOf_append (front back : List Piece) :
    bytesOf (front ++ back) = bytesOf front ++ bytesOf back :=
  List.flatMap_append

theorem ofBytes_cons (byte : UInt8) (bytes : List UInt8) :
    ofBytes (byte :: bytes) = .byte byte :: ofBytes bytes :=
  rfl

theorem ofBytes_nil : ofBytes [] = [] :=
  rfl

@[simp]
theorem bytesOf_ofBytes (bytes : List UInt8) : bytesOf (ofBytes bytes) = bytes := by
  induction bytes with
  | nil => rfl
  | cons byte rest ih => rw [ofBytes_cons, bytesOf_byte, ih]

theorem inBrackets_of_ne_nil {pieces : List Piece} (nonempty : pieces ≠ []) :
    inBrackets pieces = .byte Ascii.less :: (pieces ++ [.byte Ascii.greater]) := by
  cases pieces with
  | nil => exact absurd rfl nonempty
  | cons piece rest => rfl

/-- Whether bytes begin with one of the given bytes. -/
def Begins (starts bytes : List UInt8) : Prop :=
  ∃ first ∈ starts, ∃ more, bytes = first :: more

namespace Begins

variable {starts bytes : List UInt8}

theorem append (begins : Begins starts bytes) (rest : List UInt8) : Begins starts (bytes ++ rest) := by
  rcases begins with ⟨first, isStart, more, rfl⟩
  exact ⟨first, isStart, more ++ rest, rfl⟩

theorem length_pos (begins : Begins starts bytes) : 0 < bytes.length := by
  rcases begins with ⟨first, -, more, rfl⟩
  exact Nat.succ_pos _

theorem ne_nil (begins : Begins starts bytes) : bytes ≠ [] :=
  List.length_pos_iff.mp begins.length_pos

/-- Nothing begins with a byte that is not among the given ones. -/
theorem head?_ne (begins : Begins starts bytes) {other : UInt8} (noStart : other ∉ starts) :
    bytes.head? ≠ some other := by
  rcases begins with ⟨first, isStart, more, rfl⟩
  rw [List.head?_cons, Ne, Option.some_inj]
  exact ne_of_mem_of_not_mem isStart noStart

end Begins

theorem reverse_cons_append (piece : Piece) (pieces done : List Piece) :
    (piece :: pieces).reverse ++ done = pieces.reverse ++ piece :: done := by
  rw [List.reverse_cons, List.append_assoc, List.singleton_append]

namespace Scan

/-- Whether a part of the scan takes pieces in front of what is left. -/
def Takes (part : Scan → Except Scan Scan) (pieces : List Piece) (rest : List UInt8) : Prop :=
  ∀ done, part ⟨bytesOf pieces ++ rest, done⟩ = .ok ⟨rest, pieces.reverse ++ done⟩

variable {first second : Scan → Except Scan Scan} {front back pieces tail : List Piece}
  {rest : List UInt8} {fuel : Nat}

/-- What a part takes in front of what another takes, the two take together. -/
theorem Takes.bind (takes : Takes first front (bytesOf back ++ rest)) (next : Takes second back rest) :
    Takes (fun scan => first scan >>= second) (front ++ back) rest := by
  intro done
  have taken := takes done
  dsimp only
  rw [bytesOf_append, List.append_assoc, taken, ok_bind, next, List.reverse_append, List.append_assoc]

theorem takes_keep (value : UInt8) (rest : List UInt8) : Takes keep [.byte value] rest :=
  fun _ => rfl

theorem takes_keepUntil {stops bytes : List UInt8} (plain : ∀ byte ∈ bytes, byte ∉ stops)
    (begins : Begins stops rest) :
    Takes (fun scan => keepUntil stops scan.done scan.rest) (ofBytes bytes) rest := by
  rcases begins with ⟨stop, isStop, more, rfl⟩
  intro done
  dsimp only
  rw [bytesOf_ofBytes]
  induction bytes generalizing done with
  | nil =>
      rw [List.nil_append, keepUntil, if_pos (List.contains_iff_mem.mpr isStop)]
      rfl
  | cons byte bytes ih =>
      rw [List.forall_mem_cons] at plain
      rw [List.cons_append, keepUntil, if_neg (mt List.contains_iff_mem.mp plain.1), ih plain.2]
      simp [ofBytes]

theorem takeName_append {stops bytes : List UInt8} (plain : ∀ byte ∈ bytes, byte ∉ stops)
    (begins : Begins stops rest) (done : List Piece) (name : List UInt8) :
    takeName stops done name (bytes ++ rest) =
      .ok ⟨rest, .className ⟨name.reverse ++ bytes⟩ :: done⟩ := by
  rcases begins with ⟨stop, isStop, more, rfl⟩
  induction bytes generalizing name with
  | nil =>
      rw [List.nil_append, takeName, if_pos (List.contains_iff_mem.mpr isStop), List.append_nil]
  | cons byte bytes ih =>
      rw [List.forall_mem_cons] at plain
      rw [List.cons_append, takeName, if_neg (mt List.contains_iff_mem.mp plain.1), ih plain.2]
      simp

/-! ### Single steps -/

theorem takes_typeSignature_byte {value : UInt8} (noArray : value ≠ Ascii.openBracket)
    (noVariable : value ≠ Ascii.upperT) (noObject : value ≠ Ascii.upperL) :
    Takes (typeSignature (fuel + 1)) [.byte value] rest := by
  intro done
  simp [typeSignature, noArray, noVariable, noObject]

theorem takes_typeSignature_array (takes : Takes (typeSignature fuel) pieces rest) :
    Takes (typeSignature (fuel + 1)) (.byte Ascii.openBracket :: pieces) rest := by
  intro done
  simp [typeSignature, takes _]

theorem takes_typeSignature_variable {name : List UInt8}
    (plain : ∀ byte ∈ name, byte ≠ Ascii.semicolon) :
    Takes (typeSignature (fuel + 1))
      (.byte Ascii.upperT :: (ofBytes name ++ [.byte Ascii.semicolon])) rest := by
  have letters : ∀ byte ∈ Ascii.upperT :: name, byte ∉ [Ascii.semicolon] := by
    rw [List.forall_mem_cons]
    exact ⟨by decide, fun byte member => by simpa using plain byte member⟩
  have takes : Takes (fun scan => keepUntil [Ascii.semicolon] scan.done scan.rest >>= keep)
      (ofBytes (Ascii.upperT :: name) ++ [.byte Ascii.semicolon]) rest :=
    (takes_keepUntil letters ⟨_, List.mem_singleton_self _, rest, rfl⟩).bind (takes_keep _ rest)
  have noArray : Ascii.upperT ≠ Ascii.openBracket := by decide
  intro done
  have taken := takes done
  rw [ofBytes_cons, List.cons_append] at taken
  rw [typeSignature]
  simpa [noArray] using taken

theorem takes_typeSignature_object {name : Text} (plain : ∀ byte ∈ name.bytes, byte ∉ nameStops)
    (begins : Begins nameStops (bytesOf tail)) (takes : Takes (classTail fuel) tail rest) :
    Takes (typeSignature (fuel + 1)) (.byte Ascii.upperL :: .className name :: tail) rest := by
  have noArray : Ascii.upperL ≠ Ascii.openBracket := by decide
  have noVariable : Ascii.upperL ≠ Ascii.upperT := by decide
  intro done
  simp [typeSignature, noArray, noVariable, takeName_append plain (begins.append rest), takes _]

theorem takes_classTail_end : Takes (classTail (fuel + 1)) [.byte Ascii.semicolon] rest := by
  have noArguments : Ascii.semicolon ≠ Ascii.less := by decide
  have noInner : Ascii.semicolon ≠ Ascii.dot := by decide
  intro done
  simp [classTail, noArguments, noInner]

theorem takes_classTail_arguments
    (takes : Takes (typeArguments fuel) (pieces ++ [.byte Ascii.greater]) (bytesOf tail ++ rest))
    (next : Takes (classTail fuel) tail rest) :
    Takes (classTail (fuel + 1)) (.byte Ascii.less :: (pieces ++ [.byte Ascii.greater] ++ tail))
      rest := by
  intro done
  have taken := takes.bind next (.byte Ascii.less :: done)
  dsimp only at taken
  rw [bytesOf_byte, List.cons_append, classTail]
  simp only [if_pos]
  rw [taken, ← reverse_cons_append]

theorem takes_classTail_inner {name : List UInt8} (plain : ∀ byte ∈ name, byte ∉ nameStops)
    (begins : Begins nameStops (bytesOf tail)) (next : Takes (classTail fuel) tail rest) :
    Takes (classTail (fuel + 1)) (.byte Ascii.dot :: (ofBytes name ++ tail)) rest := by
  have noArguments : Ascii.dot ≠ Ascii.less := by decide
  intro done
  have taken := (takes_keepUntil plain (begins.append rest)).bind next (.byte Ascii.dot :: done)
  dsimp only at taken
  rw [bytesOf_byte, List.cons_append, classTail]
  simp only [if_neg noArguments, if_pos]
  rw [taken, ← reverse_cons_append]

theorem takes_typeArguments_end : Takes (typeArguments (fuel + 1)) [.byte Ascii.greater] rest := by
  intro done
  simp [typeArguments]

theorem takes_typeArguments_any (takes : Takes (typeArguments fuel) pieces rest) :
    Takes (typeArguments (fuel + 1)) (.byte Ascii.star :: pieces) rest := by
  have noEnd : Ascii.star ≠ Ascii.greater := by decide
  intro done
  simp [typeArguments, noEnd, takes _]

/-- The bytes that a type begins with unless it is primitive. -/
def typeStarts : List UInt8 := [Ascii.upperT, Ascii.upperL, Ascii.openBracket]

/-- A type argument is told from a bound and from the end of the arguments by its first byte. -/
theorem takes_typeArguments_exactly (begins : Begins typeStarts (bytesOf front))
    (takes : Takes (typeSignature fuel) front (bytesOf pieces ++ rest))
    (next : Takes (typeArguments fuel) pieces rest) :
    Takes (typeArguments (fuel + 1)) (front ++ pieces) rest := by
  rcases begins with ⟨first, isStart, more, spelled⟩
  have others {other : UInt8} (noStart : other ∉ typeStarts) : first ≠ other :=
    ne_of_mem_of_not_mem isStart noStart
  have noEnd : first ≠ Ascii.greater := others (by decide)
  have noStar : first ≠ Ascii.star := others (by decide)
  have noSign : ¬(first = Ascii.plus ∨ first = Ascii.minus) :=
    not_or.mpr ⟨others (by decide), others (by decide)⟩
  intro done
  have taken := takes.bind next done
  dsimp only at taken
  rw [bytesOf_append, spelled] at taken ⊢
  simp only [List.cons_append, typeArguments, if_neg noEnd, if_neg noStar, if_neg noSign]
  exact taken

theorem takes_typeArguments_bounded {sign : UInt8} (isSign : sign = Ascii.plus ∨ sign = Ascii.minus)
    (takes : Takes (typeSignature fuel) front (bytesOf pieces ++ rest))
    (next : Takes (typeArguments fuel) pieces rest) :
    Takes (typeArguments (fuel + 1)) (.byte sign :: (front ++ pieces)) rest := by
  have others : sign ≠ Ascii.greater ∧ sign ≠ Ascii.star := by
    rcases isSign with rfl | rfl <;> decide
  intro done
  have taken := takes.bind next (.byte sign :: done)
  dsimp only at taken
  rw [bytesOf_byte, List.cons_append, typeArguments]
  simp only [others, if_false, if_pos isSign]
  rw [taken, ← reverse_cons_append]

theorem takes_typeArguments_cons (wildcard : Wildcard) (begins : Begins typeStarts (bytesOf front))
    (takes : Takes (typeSignature fuel) front (bytesOf pieces ++ rest))
    (next : Takes (typeArguments fuel) pieces rest) :
    Takes (typeArguments (fuel + 1)) (ofBytes wildcard.bytes ++ (front ++ pieces)) rest := by
  cases wildcard with
  | exactly =>
      rw [Wildcard.bytes, ofBytes_nil, List.nil_append]
      exact takes_typeArguments_exactly begins takes next
  | below =>
      rw [Wildcard.bytes, ofBytes_cons, ofBytes_nil, List.cons_append, List.nil_append]
      exact takes_typeArguments_bounded (.inl rfl) takes next
  | above =>
      rw [Wildcard.bytes, ofBytes_cons, ofBytes_nil, List.cons_append, List.nil_append]
      exact takes_typeArguments_bounded (.inr rfl) takes next

/-- The type arguments of a class, if there are any, and what follows them. -/
theorem takes_classTail_inBrackets
    (enough : (bytesOf (inBrackets pieces ++ tail)).length ≤ fuel)
    (takes : ∀ {fuel rest}, (bytesOf pieces).length + 1 ≤ fuel →
      Takes (typeArguments fuel) (pieces ++ [.byte Ascii.greater]) rest)
    (next : ∀ {fuel}, (bytesOf tail).length ≤ fuel → Takes (classTail fuel) tail rest) :
    Takes (classTail fuel) (inBrackets pieces ++ tail) rest := by
  by_cases absent : pieces = []
  · subst absent
    exact next enough
  · rw [inBrackets_of_ne_nil absent] at enough ⊢
    simp only [List.cons_append, bytesOf_byte, bytesOf_append, List.length_cons,
      List.length_append, bytesOf_nil] at enough
    cases fuel with
    | zero => omega
    | succ fuel => exact takes_classTail_arguments (takes (by omega)) (next (by omega))

end Scan

end Descriptor

/-! ### Types -/

open Scan

theorem Identifier.not_mem_of_reserved (name : Identifier) {stops : List UInt8}
    (areReserved : stops ⊆ reserved) : ∀ byte ∈ name.bytes, byte ∉ stops :=
  fun byte member isStop => name.isPlain byte member (areReserved isStop)

/-- No byte that ends the name of a class stands in it. -/
theorem QualifiedName.not_mem_nameStops (name : QualifiedName) :
    ∀ byte ∈ name.text.bytes, byte ∉ nameStops := by
  have plain (part : Identifier) : ∀ byte ∈ part.bytes, byte ∉ nameStops :=
    part.not_mem_of_reserved (by decide)
  rw [text, List.forall_mem_append]
  refine ⟨fun byte member => ?_, plain name.simple⟩
  rcases List.mem_flatMap.mp member with ⟨part, -, isPart⟩
  rcases List.mem_append.mp isPart with inPart | isSlash
  · exact plain part byte inPart
  · rw [List.mem_singleton] at isSlash
    rw [isSlash]
    decide

theorem ClassType.begins (type : ClassType) : Begins [Ascii.upperL] (bytesOf type.pieces) := by
  cases type with
  | mk name arguments inner => exact ⟨_, List.mem_singleton_self _, _, rfl⟩

theorem ReferenceType.begins (type : ReferenceType) : Begins typeStarts (bytesOf type.pieces) := by
  cases type with
  | typeVariable name => exact ⟨Ascii.upperT, by decide, _, rfl⟩
  | object type =>
      rcases type.begins with ⟨first, isStart, more, spelled⟩
      rw [List.mem_singleton] at isStart
      exact ⟨first, by rw [isStart]; decide, more, spelled⟩
  | primitiveArray element => exact ⟨Ascii.openBracket, by decide, _, rfl⟩
  | array element => exact ⟨Ascii.openBracket, by decide, _, rfl⟩

/-- What follows a name of a class ends it. -/
theorem begins_inBrackets {tail : List Piece} (begins : Begins nameStops (bytesOf tail))
    (arguments : List Piece) : Begins nameStops (bytesOf (inBrackets arguments ++ tail)) := by
  cases arguments with
  | nil => exact begins
  | cons piece rest => exact ⟨Ascii.less, by decide, _, rfl⟩

theorem InnerTypes.begins (inner : InnerTypes) :
    Begins nameStops (bytesOf (inner.pieces ++ [.byte Ascii.semicolon])) := by
  cases inner with
  | nil => exact ⟨Ascii.semicolon, by decide, _, rfl⟩
  | cons name arguments rest => exact ⟨Ascii.dot, by decide, _, rfl⟩

theorem PrimitiveType.letter_ne (type : PrimitiveType) :
    type.letter ≠ Ascii.openBracket ∧ type.letter ≠ Ascii.upperT ∧ type.letter ≠ Ascii.upperL := by
  cases type <;> decide

mutual

theorem ReferenceType.takes (type : ReferenceType) {fuel : Nat} {rest : List UInt8}
    (enough : (bytesOf type.pieces).length ≤ fuel) : Takes (typeSignature fuel) type.pieces rest := by
  cases fuel with
  | zero => exact absurd enough (Nat.not_le_of_gt type.begins.length_pos)
  | succ fuel =>
      cases type with
      | typeVariable name =>
          refine takes_typeSignature_variable fun byte member isEnd => ?_
          exact name.isPlain byte member (by rw [isEnd]; decide)
      | object type => exact type.takes enough
      | primitiveArray element =>
          rcases element.letter_ne with ⟨noArray, noVariable, noObject⟩
          cases fuel with
          | zero => simp [ReferenceType.pieces] at enough
          | succ fuel =>
              exact takes_typeSignature_array (takes_typeSignature_byte noArray noVariable noObject)
      | array element =>
          exact takes_typeSignature_array (element.takes (Nat.le_of_succ_le_succ enough))

theorem ClassType.takes (type : ClassType) {fuel : Nat} {rest : List UInt8}
    (enough : (bytesOf type.pieces).length ≤ fuel) : Takes (typeSignature fuel) type.pieces rest := by
  cases type with
  | mk name arguments inner =>
      rw [ClassType.pieces, bytesOf_byte, bytesOf_className, List.length_cons,
        List.length_append] at enough
      cases fuel with
      | zero => omega
      | succ fuel =>
          refine takes_typeSignature_object name.not_mem_nameStops
            (begins_inBrackets inner.begins _) ?_
          exact takes_classTail_inBrackets (by omega) arguments.takes inner.takes

theorem TypeArguments.takes (arguments : TypeArguments) {fuel : Nat} {rest : List UInt8}
    (enough : (bytesOf arguments.pieces).length + 1 ≤ fuel) :
    Takes (typeArguments fuel) (arguments.pieces ++ [.byte Ascii.greater]) rest := by
  cases fuel with
  | zero => omega
  | succ fuel =>
      cases arguments with
      | nil => exact takes_typeArguments_end
      | any others => exact takes_typeArguments_any (others.takes (Nat.le_of_succ_le_succ enough))
      | cons wildcard type others =>
          have positive := type.begins.length_pos
          rw [TypeArguments.pieces, bytesOf_append, bytesOf_append, List.length_append,
            List.length_append] at enough
          rw [TypeArguments.pieces, List.append_assoc, List.append_assoc]
          exact takes_typeArguments_cons wildcard type.begins (type.takes (by omega))
            (others.takes (by omega))

theorem InnerTypes.takes (inner : InnerTypes) {fuel : Nat} {rest : List UInt8}
    (enough : (bytesOf (inner.pieces ++ [.byte Ascii.semicolon])).length ≤ fuel) :
    Takes (classTail fuel) (inner.pieces ++ [.byte Ascii.semicolon]) rest := by
  cases fuel with
  | zero => exact absurd enough (Nat.not_le_of_gt inner.begins.length_pos)
  | succ fuel =>
      cases inner with
      | nil => exact takes_classTail_end
      | cons name arguments others =>
          have isPlain : ∀ byte ∈ name.bytes, byte ∉ nameStops := name.not_mem_of_reserved (by decide)
          rw [InnerTypes.pieces, List.cons_append, List.append_assoc, List.append_assoc] at enough ⊢
          rw [bytesOf_byte, bytesOf_append, List.length_cons, List.length_append] at enough
          refine takes_classTail_inner isPlain (begins_inBrackets others.begins _) ?_
          exact takes_classTail_inBrackets (by omega) arguments.takes others.takes

end

theorem JavaType.takes (type : JavaType) {fuel : Nat} {rest : List UInt8}
    (enough : (bytesOf type.pieces).length ≤ fuel) : Takes (typeSignature fuel) type.pieces rest := by
  cases type with
  | reference type => exact type.takes enough
  | primitive type =>
      rcases type.letter_ne with ⟨noArray, noVariable, noObject⟩
      cases fuel with
      | zero => simp [JavaType.pieces] at enough
      | succ fuel => exact takes_typeSignature_byte noArray noVariable noObject

theorem JavaType.begins (type : JavaType) :
    ∃ first more, bytesOf type.pieces = first :: more ∧ first ≠ Ascii.closeParen := by
  cases type with
  | primitive type => exact ⟨type.letter, [], rfl, by cases type <;> decide⟩
  | reference type =>
      rcases type.begins with ⟨first, isStart, more, spelled⟩
      exact ⟨first, more, spelled, ne_of_mem_of_not_mem isStart (by decide)⟩

end ClassFile
