import ClassFile.Proofs.Descriptors.SignatureScans

/-!
# Signatures under new names

The scan of a spelled signature finds the pieces that it is spelled from, the names of outer classes
among them (`Signature.scanSignature_text`).  So a renaming gives the text of the same signature with
other names of outer classes, and gives nothing if no outer class has a new name
(`Signature.renameSignature_text`).

Parameters, bounds, arguments and exceptions are read by loops, each of which knows by the next byte
whether it goes on; `Scan.takes_loop` is the induction for all of them.
-/

namespace ClassFile

open Descriptor Scan

/-! ### Parts that are repeated -/

namespace Descriptor.Scan

variable {tail front : List Piece} {rest : List UInt8} {fuel typeFuel : Nat}

/-- A loop takes the pieces of values one after the other if each round takes those of one value in front
of what the next round takes.  What follows a value is known to begin like a value or like the end. -/
theorem takes_loop {α : Type} {loop : Nat → Scan → Except Scan Scan} {piecesOf : α → List Piece}
    {last : List Piece} (follows : List UInt8 → Prop) (isLast : follows (bytesOf last ++ rest))
    (stop : ∀ fuel, Takes (loop (fuel + 1)) last rest) {values : List α}
    (isNext : ∀ value ∈ values, ∀ bytes, follows (bytesOf (piecesOf value) ++ bytes))
    (round : ∀ value ∈ values, ∀ {fuel tail}, follows (bytesOf tail ++ rest) →
      Takes (loop fuel) tail rest → Takes (loop (fuel + 1)) (piecesOf value ++ tail) rest)
    (enough : values.length < fuel) : Takes (loop fuel) (values.flatMap piecesOf ++ last) rest := by
  induction values generalizing fuel with
  | nil =>
      cases fuel with
      | zero => exact absurd enough (Nat.not_lt_zero _)
      | succ fuel => exact stop fuel
  | cons value values ih =>
      rw [List.forall_mem_cons] at isNext round
      cases fuel with
      | zero => exact absurd enough (Nat.not_lt_zero _)
      | succ fuel =>
          rw [List.flatMap_cons, List.append_assoc]
          refine round.1 ?_ (ih isNext.2 round.2 (Nat.lt_of_succ_lt_succ enough))
          cases values with
          | nil => exact isLast
          | cons next values =>
              rw [List.flatMap_cons, List.append_assoc, bytesOf_append, List.append_assoc]
              exact isNext.2 next List.mem_cons_self _

/-- Values with a byte of their own are not more than the bytes. -/
theorem length_le_bytesOf {α : Type} {piecesOf : α → List Piece} {values : List α}
    (nonempty : ∀ value ∈ values, bytesOf (piecesOf value) ≠ []) :
    values.length ≤ (bytesOf (values.flatMap piecesOf)).length := by
  induction values with
  | nil => exact Nat.zero_le _
  | cons value values ih =>
      rw [List.forall_mem_cons] at nonempty
      have positive := List.length_pos_iff.mpr nonempty.1
      have others := ih nonempty.2
      rw [List.flatMap_cons, bytesOf_append, List.length_append, List.length_cons]
      omega

theorem length_bytesOf_le {α : Type} (piecesOf : α → List Piece) {values : List α} {value : α}
    (member : value ∈ values) :
    (bytesOf (piecesOf value)).length ≤ (bytesOf (values.flatMap piecesOf)).length := by
  rcases List.append_of_mem member with ⟨before, behind, rfl⟩
  simp only [List.flatMap_append, List.flatMap_cons, bytesOf_append, List.length_append]
  omega

/-! ### Single rounds -/

theorem takes_typesWhile_stop {continues : UInt8 → Bool}
    (stops : ∀ first ∈ rest.head?, continues first = false) :
    Takes (typesWhile continues typeFuel (fuel + 1)) [] rest := by
  intro done
  cases rest with
  | nil => rfl
  | cons first more => simp [typesWhile, stops first rfl]

theorem takes_typesWhile_round {continues : UInt8 → Bool}
    (goesOn : ∃ first more, bytesOf front = first :: more ∧ continues first = true)
    (takes : Takes (typeSignature typeFuel) front (bytesOf tail ++ rest))
    (next : Takes (typesWhile continues typeFuel fuel) tail rest) :
    Takes (typesWhile continues typeFuel (fuel + 1)) (front ++ tail) rest := by
  rcases goesOn with ⟨first, more, spelled, isNext⟩
  intro done
  have taken := takes.bind next done
  dsimp only at taken
  rw [bytesOf_append, spelled] at taken ⊢
  simp only [List.cons_append, typesWhile, isNext, if_true]
  exact taken

theorem takes_thrownTypes_stop : Takes (thrownTypes typeFuel (fuel + 1)) [] [] :=
  fun _ => rfl

theorem takes_thrownTypes_round (takes : Takes (typeSignature typeFuel) front (bytesOf tail ++ rest))
    (next : Takes (thrownTypes typeFuel fuel) tail rest) :
    Takes (thrownTypes typeFuel (fuel + 1)) (.byte Ascii.caret :: front ++ tail) rest := by
  intro done
  have taken := takes.bind next (.byte Ascii.caret :: done)
  dsimp only at taken
  rw [List.cons_append, bytesOf_byte, List.cons_append, thrownTypes]
  simp only [if_pos]
  rw [taken, ← reverse_cons_append]

theorem takes_bounds_stop (noBound : rest.head? ≠ some Ascii.colon) :
    Takes (bounds typeFuel (fuel + 1)) [] rest := by
  intro done
  cases rest with
  | nil => rfl
  | cons first more =>
      have isOther : first ≠ Ascii.colon := fun same => noBound (congrArg some same)
      simp [bounds, isOther]

theorem takes_bounds_round (begins : Begins typeStarts (bytesOf front))
    (takes : Takes (typeSignature typeFuel) front (bytesOf tail ++ rest))
    (next : Takes (bounds typeFuel fuel) tail rest) :
    Takes (bounds typeFuel (fuel + 1)) (.byte Ascii.colon :: front ++ tail) rest := by
  rcases begins with ⟨first, isStart, more, spelled⟩
  have isType : first = Ascii.upperL ∨ first = Ascii.openBracket ∨ first = Ascii.upperT := by
    simpa [typeStarts, or_comm, or_left_comm] using isStart
  intro done
  have taken := takes.bind next (.byte Ascii.colon :: done)
  dsimp only at taken
  rw [bytesOf_append, spelled] at taken
  rw [List.cons_append, bytesOf_byte, bytesOf_append, spelled, List.cons_append, bounds]
  simp only [if_pos, List.cons_append, if_pos isType] at taken ⊢
  rw [taken, ← reverse_cons_append]

/-- An empty class bound in front of an interface bound. -/
theorem takes_bounds_empty (next : Takes (bounds typeFuel fuel) (.byte Ascii.colon :: tail) rest) :
    Takes (bounds typeFuel (fuel + 1)) (.byte Ascii.colon :: .byte Ascii.colon :: tail) rest := by
  have noType : ¬(Ascii.colon = Ascii.upperL ∨ Ascii.colon = Ascii.openBracket ∨
      Ascii.colon = Ascii.upperT) := by decide
  intro done
  have taken := next (.byte Ascii.colon :: done)
  rw [bytesOf_byte, List.cons_append] at taken
  rw [bytesOf_byte, bytesOf_byte, List.cons_append, List.cons_append, bounds]
  simp only [if_pos, if_neg noType]
  rw [taken, ← reverse_cons_append]

/-! ### Loops -/

theorem takes_typesWhile {α : Type} {continues : UInt8 → Bool} {piecesOf : α → List Piece}
    {values : List α}
    (goesOn : ∀ value ∈ values, ∃ first more,
      bytesOf (piecesOf value) = first :: more ∧ continues first = true)
    (takes : ∀ value ∈ values, ∀ rest, Takes (typeSignature typeFuel) (piecesOf value) rest)
    (stops : ∀ first ∈ rest.head?, continues first = false) (enough : values.length < fuel) :
    Takes (typesWhile continues typeFuel fuel) (values.flatMap piecesOf) rest := by
  rw [← List.append_nil (values.flatMap piecesOf)]
  refine takes_loop (fun _ => True) trivial (fun _ => takes_typesWhile_stop stops)
    (fun _ _ _ => trivial) (fun value member fuel tail _ next => ?_) enough
  exact takes_typesWhile_round (goesOn value member) (takes value member _) next

theorem takes_eachBehind {loop : Nat → Scan → Except Scan Scan} {sign : UInt8}
    {types : List ReferenceType} (stop : ∀ fuel, Takes (loop (fuel + 1)) [] rest)
    (round : ∀ (type : ReferenceType) {fuel tail},
      Takes (typeSignature typeFuel) type.pieces (bytesOf tail ++ rest) → Takes (loop fuel) tail rest →
        Takes (loop (fuel + 1)) (.byte sign :: type.pieces ++ tail) rest)
    (enough : (bytesOf (eachBehind sign types)).length < fuel)
    (enoughInside : (bytesOf (eachBehind sign types)).length ≤ typeFuel) :
    Takes (loop fuel) (eachBehind sign types) rest := by
  have notMore : types.length ≤ (bytesOf (eachBehind sign types)).length :=
    length_le_bytesOf fun type _ => List.cons_ne_nil _ _
  rw [← List.append_nil (eachBehind sign types)]
  refine takes_loop (fun _ => True) trivial stop (fun _ _ _ => trivial)
    (fun type member fuel tail _ next => ?_) (by omega)
  have inside : (bytesOf (.byte sign :: type.pieces)).length ≤
      (bytesOf (eachBehind sign types)).length :=
    length_bytesOf_le (fun type => .byte sign :: type.pieces) member
  rw [bytesOf_byte, List.length_cons] at inside
  exact round type (type.takes (by omega)) next

theorem takes_bounds {types : List ReferenceType} (noBound : rest.head? ≠ some Ascii.colon)
    (enough : (bytesOf (eachBehind Ascii.colon types)).length < fuel)
    (enoughInside : (bytesOf (eachBehind Ascii.colon types)).length ≤ typeFuel) :
    Takes (bounds typeFuel fuel) (eachBehind Ascii.colon types) rest :=
  takes_eachBehind (fun _ => takes_bounds_stop noBound)
    (fun type _ _ takes next => takes_bounds_round type.begins takes next) enough enoughInside

theorem takes_boundPieces (parameter : TypeParameter) (noBound : rest.head? ≠ some Ascii.colon)
    (enough : (bytesOf parameter.boundPieces).length < fuel)
    (enoughInside : (bytesOf parameter.boundPieces).length ≤ typeFuel) :
    Takes (bounds typeFuel fuel) parameter.boundPieces rest := by
  cases bound : parameter.classBound? with
  | some type =>
      simp only [TypeParameter.boundPieces, bound] at enough enoughInside ⊢
      exact takes_bounds noBound enough enoughInside
  | none =>
      simp only [TypeParameter.boundPieces, bound] at enough enoughInside ⊢
      rw [bytesOf_byte, List.length_cons] at enough enoughInside
      rcases List.exists_cons_of_ne_nil (parameter.isBounded bound) with ⟨first, others, interfaces⟩
      cases fuel with
      | zero => exact absurd enough (Nat.not_lt_zero _)
      | succ fuel =>
          have next : Takes (bounds typeFuel fuel)
              (eachBehind Ascii.colon parameter.interfaceBounds) rest :=
            takes_bounds noBound (by omega) (by omega)
          rw [interfaces] at next ⊢
          exact takes_bounds_empty next

theorem begins_boundPieces (parameter : TypeParameter) (bytes : List UInt8) :
    Begins [Ascii.colon] (bytesOf parameter.boundPieces ++ bytes) := by
  rw [TypeParameter.boundPieces]
  cases parameter.classBound? with
  | none => exact ⟨_, List.mem_singleton_self _, _, rfl⟩
  | some type => exact ⟨_, List.mem_singleton_self _, _, rfl⟩

/-- A type parameter begins with its name. -/
theorem exists_first_of_parameter (parameter : TypeParameter) :
    ∃ first more, bytesOf parameter.pieces = first :: more ∧ first ∉ Identifier.reserved := by
  rcases List.exists_cons_of_ne_nil parameter.name.isNonempty with ⟨first, others, spelled⟩
  have isPlain := parameter.name.isPlain first (by rw [spelled]; exact List.mem_cons_self)
  refine ⟨first, others ++ bytesOf parameter.boundPieces, ?_, isPlain⟩
  rw [TypeParameter.pieces, bytesOf_append, bytesOf_ofBytes, spelled, List.cons_append]

theorem takes_typeParameters_round (parameter : TypeParameter)
    (enoughInside : (bytesOf parameter.pieces).length ≤ typeFuel)
    (noBound : (bytesOf tail ++ rest).head? ≠ some Ascii.colon)
    (next : Takes (typeParameters typeFuel fuel) tail rest) :
    Takes (typeParameters typeFuel (fuel + 1)) (parameter.pieces ++ tail) rest := by
  rcases exists_first_of_parameter parameter with ⟨first, more, spelled, isPlain⟩
  have noEnd : first ≠ Ascii.greater := fun same => isPlain (by rw [same]; decide)
  have isPositive := List.length_pos_iff.mpr parameter.name.isNonempty
  rw [TypeParameter.pieces, bytesOf_append, bytesOf_ofBytes, List.length_append] at enoughInside
  have takesBounds : Takes (bounds typeFuel typeFuel) parameter.boundPieces (bytesOf tail ++ rest) :=
    takes_boundPieces parameter noBound (by omega) (by omega)
  have takesRest := takesBounds.bind next
  have noColon : ∀ byte ∈ parameter.name.bytes, byte ∉ [Ascii.colon] :=
    parameter.name.not_mem_of_reserved (by decide)
  have takesName := takes_keepUntil noColon (begins_boundPieces parameter (bytesOf tail ++ rest))
  rw [← List.append_assoc, ← bytesOf_append] at takesName
  have isPieces : parameter.pieces ++ tail =
      ofBytes parameter.name.bytes ++ (parameter.boundPieces ++ tail) := List.append_assoc _ _ _
  intro done
  have taken := takesName.bind takesRest done
  dsimp only at taken
  rw [← isPieces, bytesOf_append, spelled, List.append_assoc, List.cons_append] at taken
  rw [bytesOf_append, spelled, List.append_assoc, List.cons_append, typeParameters]
  simp only [if_neg noEnd]
  exact taken

theorem takes_typeParameters_stop :
    Takes (typeParameters typeFuel (fuel + 1)) [.byte Ascii.greater] rest :=
  fun _ => rfl

theorem takes_typeParameters {parameters : List TypeParameter}
    (enough : (bytesOf (parameters.flatMap TypeParameter.pieces)).length < fuel)
    (enoughInside : (bytesOf (parameters.flatMap TypeParameter.pieces)).length ≤ typeFuel) :
    Takes (typeParameters typeFuel fuel)
      (parameters.flatMap TypeParameter.pieces ++ [.byte Ascii.greater]) rest := by
  have notMore : parameters.length ≤ (bytesOf (parameters.flatMap TypeParameter.pieces)).length := by
    refine length_le_bytesOf fun parameter _ => ?_
    rcases exists_first_of_parameter parameter with ⟨first, more, spelled, -⟩
    rw [spelled]
    exact List.cons_ne_nil _ _
  have isEnd : (bytesOf [.byte Ascii.greater] ++ rest).head? ≠ some Ascii.colon := by
    rw [bytesOf_byte, List.cons_append, List.head?_cons]
    decide
  refine takes_loop (fun bytes => bytes.head? ≠ some Ascii.colon) isEnd
    (fun _ => takes_typeParameters_stop) (fun parameter _ bytes => ?_)
    (fun parameter member fuel tail noBound next => ?_) (by omega)
  · rcases exists_first_of_parameter parameter with ⟨first, more, spelled, isPlain⟩
    rw [spelled, List.cons_append, List.head?_cons, Ne, Option.some_inj]
    exact fun same => isPlain (by rw [same]; decide)
  · have inside := length_bytesOf_le TypeParameter.pieces member
    exact takes_typeParameters_round parameter (by omega) noBound next

/-! ### Parts of a signature -/

/-- The type parameters, if there are any. -/
def parametersPart (fuel : Nat) (scan : Scan) : Except Scan Scan :=
  if scan.peek? = some Ascii.less then scan.keep >>= typeParameters fuel fuel else pure scan

/-- What follows the type parameters. -/
def mainPart (fuel : Nat) (scan : Scan) : Except Scan Scan :=
  if scan.peek? = some Ascii.openParen then
    scan.keep >>= fun scan => typesWhile (fun byte => byte != Ascii.closeParen) fuel fuel scan >>=
      fun scan => scan.keep >>= fun scan => typeSignature fuel scan >>= thrownTypes fuel fuel
  else typesWhile (fun _ => true) fuel fuel scan

theorem signature_eq (fuel : Nat) (scan : Scan) :
    scan.signature fuel = parametersPart fuel scan >>= fun scan => mainPart fuel scan >>= fun scan =>
      if scan.rest.isEmpty then pure scan else throw scan := by
  unfold signature parametersPart
  split
  · simp only [bind_assoc]
    refine bind_congr fun scan => bind_congr fun scan => ?_
    unfold mainPart
    split <;> simp only [bind_assoc]
  · simp only [pure_bind]
    unfold mainPart
    split <;> simp only [bind_assoc]

theorem takes_parametersPart {parameters : List TypeParameter} (noBracket : rest.head? ≠ some Ascii.less)
    (enough : (bytesOf (Signature.parameterPieces parameters)).length ≤ fuel) :
    Takes (parametersPart fuel) (Signature.parameterPieces parameters) rest := by
  rw [Signature.parameterPieces] at enough ⊢
  intro done
  by_cases absent : parameters.flatMap TypeParameter.pieces = []
  · rw [absent]
    exact if_neg noBracket
  · rw [inBrackets_of_ne_nil absent] at enough ⊢
    rw [bytesOf_byte, bytesOf_append, List.length_cons, List.length_append] at enough
    have takes : Takes (typeParameters fuel fuel)
        (parameters.flatMap TypeParameter.pieces ++ [.byte Ascii.greater]) rest :=
      takes_typeParameters (by omega) (by omega)
    exact (if_pos rfl).trans ((takes_keep _ _).bind takes done)

theorem takes_mainPart_types {α : Type} {piecesOf : α → List Piece} {values : List α}
    (begins : ∀ value ∈ values, Begins typeStarts (bytesOf (piecesOf value)))
    (takes : ∀ value ∈ values, ∀ rest, Takes (typeSignature fuel) (piecesOf value) rest)
    (enough : values.length < fuel) : Takes (mainPart fuel) (values.flatMap piecesOf) [] := by
  have noParen : (bytesOf (values.flatMap piecesOf)).head? ≠ some Ascii.openParen := by
    cases values with
    | nil => exact nofun
    | cons value values =>
        rw [List.flatMap_cons, bytesOf_append]
        exact ((begins value List.mem_cons_self).append _).head?_ne (by decide)
  have takesTypes : Takes (typesWhile (fun _ => true) fuel fuel) (values.flatMap piecesOf) [] := by
    refine takes_typesWhile (fun value member => ?_) takes nofun enough
    rcases begins value member with ⟨first, -, more, spelled⟩
    exact ⟨first, more, spelled, rfl⟩
  intro done
  rw [mainPart, peek?, List.append_nil, if_neg noParen]
  simpa using takesTypes done

theorem takes_typeSignature_result {result? : Option JavaType}
    (enough : (bytesOf (Signature.resultPieces result?)).length ≤ fuel) :
    Takes (typeSignature fuel) (Signature.resultPieces result?) rest := by
  cases result? with
  | some type => exact type.takes enough
  | none =>
      cases fuel with
      | zero => simp [Signature.resultPieces] at enough
      | succ fuel => exact takes_typeSignature_byte (by decide) (by decide) (by decide)

theorem takes_thrownTypes {types : List ReferenceType}
    (enough : (bytesOf (eachBehind Ascii.caret types)).length < fuel)
    (enoughInside : (bytesOf (eachBehind Ascii.caret types)).length ≤ typeFuel) :
    Takes (thrownTypes typeFuel fuel) (eachBehind Ascii.caret types) [] :=
  takes_eachBehind (fun _ => takes_thrownTypes_stop) (fun _ _ _ => takes_thrownTypes_round) enough
    enoughInside

theorem takes_mainPart_method {arguments : List JavaType} {result? : Option JavaType}
    {thrown : List ThrownType}
    (enough : (bytesOf (arguments.flatMap JavaType.pieces)).length +
      (bytesOf (Signature.resultPieces result?)).length +
      (bytesOf (Signature.thrownPieces thrown)).length < fuel) :
    Takes (mainPart fuel) (.byte Ascii.openParen :: (arguments.flatMap JavaType.pieces ++
      .byte Ascii.closeParen :: (Signature.resultPieces result? ++ Signature.thrownPieces thrown)))
      [] := by
  have notMore : arguments.length ≤ (bytesOf (arguments.flatMap JavaType.pieces)).length := by
    refine length_le_bytesOf fun type _ => ?_
    rcases type.begins with ⟨first, more, spelled, -⟩
    rw [spelled]
    exact List.cons_ne_nil _ _
  have takesThrown : Takes (thrownTypes fuel fuel) (Signature.thrownPieces thrown) [] :=
    takes_thrownTypes (by rw [← Signature.thrownPieces]; omega)
      (by rw [← Signature.thrownPieces]; omega)
  have takesResult : ∀ {rest}, Takes (typeSignature fuel) (Signature.resultPieces result?) rest :=
    takes_typeSignature_result (by omega)
  have takesArguments : ∀ {rest : List UInt8}, rest.head? = some Ascii.closeParen →
      Takes (typesWhile (fun byte => byte != Ascii.closeParen) fuel fuel)
        (arguments.flatMap JavaType.pieces) rest := by
    intro rest isEnd
    refine takes_typesWhile (fun type _ => ?_) (fun type member rest => type.takes ?_) ?_ (by omega)
    · rcases type.begins with ⟨first, more, spelled, goesOn⟩
      exact ⟨first, more, spelled, bne_iff_ne.mpr goesOn⟩
    · have inside := length_bytesOf_le JavaType.pieces member
      omega
    · rw [isEnd]
      rintro first ⟨⟩
      rfl
  intro done
  have taken := (takes_keep Ascii.openParen _).bind ((takesArguments rfl).bind
    ((takes_keep Ascii.closeParen _).bind (takesResult.bind takesThrown))) done
  exact (if_pos rfl).trans taken

end Descriptor.Scan

/-! ### Signatures -/

namespace Signature

/-- The type parameters, of which the type of a field has none. -/
def parameters : Signature → List TypeParameter
  | .ofClass parameters _ _ | .ofMethod parameters _ _ _ => parameters
  | .ofField _ => []

/-- The pieces behind the type parameters. -/
def mainPieces : Signature → List Piece
  | .ofClass _ superclass interfaces => (superclass :: interfaces).flatMap ClassType.pieces
  | .ofMethod _ arguments result? thrown =>
      .byte Ascii.openParen :: (arguments.flatMap JavaType.pieces ++ .byte Ascii.closeParen ::
        (resultPieces result? ++ thrownPieces thrown))
  | .ofField type => type.pieces

theorem pieces_eq (signature : Signature) :
    signature.pieces = parameterPieces signature.parameters ++ signature.mainPieces := by
  cases signature <;> rfl

theorem head?_mainPieces (signature : Signature) :
    (bytesOf signature.mainPieces).head? ≠ some Ascii.less := by
  cases signature with
  | ofClass parameters superclass interfaces =>
      rw [mainPieces, List.flatMap_cons, bytesOf_append]
      exact (superclass.begins.append _).head?_ne (by decide)
  | ofMethod parameters arguments result? thrown =>
      exact fun same => absurd (Option.some.inj same) (by decide)
  | ofField type => exact type.begins.head?_ne (by decide)

theorem takes_mainPieces (signature : Signature) {fuel : Nat}
    (enough : (bytesOf signature.mainPieces).length < fuel) :
    Takes (mainPart fuel) signature.mainPieces [] := by
  cases signature with
  | ofClass parameters superclass interfaces =>
      have first (type : ClassType) : Begins typeStarts (bytesOf type.pieces) :=
        (ReferenceType.object type).begins
      have notMore : (superclass :: interfaces).length ≤
          (bytesOf ((superclass :: interfaces).flatMap ClassType.pieces)).length :=
        length_le_bytesOf fun type _ => (first type).ne_nil
      rw [mainPieces] at enough
      refine takes_mainPart_types (fun type _ => first type) (fun type member rest => type.takes ?_)
        (by omega)
      have inside := length_bytesOf_le ClassType.pieces member
      omega
  | ofMethod parameters arguments result? thrown =>
      simp only [mainPieces, bytesOf_byte, bytesOf_append, List.length_cons,
        List.length_append] at enough
      exact takes_mainPart_method (by omega)
  | ofField type =>
      have single : type.pieces = [type].flatMap ReferenceType.pieces := by simp
      rw [mainPieces] at enough
      have positive := type.begins.length_pos
      rw [mainPieces, single]
      refine takes_mainPart_types (fun type _ => type.begins)
        (fun other member rest => other.takes ?_) (by rw [List.length_singleton]; omega)
      rw [List.mem_singleton.mp member]
      omega

/-- The scan of a signature finds the pieces that it is spelled from. -/
theorem scanSignature_text (signature : Signature) :
    scanSignature signature.text = .ok ⟨[], signature.pieces.reverse⟩ := by
  have length : (bytesOf signature.pieces).length =
      (bytesOf (parameterPieces signature.parameters)).length +
        (bytesOf signature.mainPieces).length := by
    rw [pieces_eq, bytesOf_append, List.length_append]
  generalize enough : 2 * (bytesOf signature.pieces).length + 2 = fuel
  have takesMain : Takes (mainPart fuel) signature.mainPieces [] :=
    signature.takes_mainPieces (by omega)
  have takesParameters : Takes (parametersPart fuel) (parameterPieces signature.parameters)
      (bytesOf signature.mainPieces ++ []) :=
    takes_parametersPart (by rw [List.append_nil]; exact signature.head?_mainPieces) (by omega)
  have taken := takesParameters.bind takesMain []
  dsimp only at taken
  rw [← pieces_eq, List.append_nil, List.append_nil] at taken
  have isStart : Scan.start signature.text = ⟨bytesOf signature.pieces, []⟩ := rfl
  have isFuel : 2 * signature.text.bytes.length + 2 = fuel := enough
  rw [scanSignature, isStart, isFuel, signature_eq, ← bind_assoc, taken]
  rfl

/-- A signature is renamed exactly: with a new name for at least one outer class, the result is the text
of the same signature in which each outer class has its new name, if there is one, and all else is as it
was.  Otherwise there is no result. -/
theorem renameSignature_text (signature : Signature) (rename : Renaming) :
    renameSignature rename signature.text =
      if signature.outerNames.any fun name => (rename name).isSome then
        some (signature.textWith rename.newName)
      else none := by
  rw [renameSignature, scanSignature_text]
  exact renamed?_mk [] signature.pieces rename

end Signature

end ClassFile
