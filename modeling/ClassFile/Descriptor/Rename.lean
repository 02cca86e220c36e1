import ClassFile.Descriptor

/-!
# Class names in descriptors and signatures

Renaming classes splits a descriptor or a generic signature into pieces (`Scan`): bytes that stay,
and class names.  `Scan.renamed?` puts the pieces together again with new names.  The split itself
knows nothing of the names, so what is renamed does not depend on how.

A scan stops where the text can't be continued; such a text is never renamed.
-/

namespace ClassFile.Descriptor

/-- A part of a descriptor or signature. -/
inductive Piece where
  | byte (value : UInt8)
  | className (name : Text)
  deriving DecidableEq, Inhabited

/-- A text that is being split: what is still to be read, and the pieces before it, last first. -/
structure Scan where
  rest : List UInt8
  done : List Piece
  deriving DecidableEq, Inhabited

namespace Scan

/-- The scan of a text, at its start. -/
def start (text : Text) : Scan :=
  ⟨text.bytes, []⟩

/-- The class names found so far, in order. -/
def names (scan : Scan) : List Text :=
  scan.done.reverse.filterMap fun piece =>
    match piece with
    | .byte _ => none
    | .className name => some name

/-- The bytes of a piece under new names. -/
def pieceBytes (rename : Text → Option Text) : Piece → List UInt8
  | .byte value => [value]
  | .className name => ((rename name).getD name).bytes

/-- The text with its class names replaced, if there is a new name for one of them. -/
def renamed? (scan : Scan) (rename : Text → Option Text) : Option Text :=
  if scan.names.any fun name => (rename name).isSome then
    some ⟨scan.done.reverse.flatMap (pieceBytes rename)⟩
  else none

end Scan

/-- Splits a descriptor: `name?` holds, last first, the bytes of a class name that is being read. -/
def scanBytes (done : List Piece) (name? : Option (List UInt8)) :
    List UInt8 → Except Scan Scan
  | [] =>
      match name? with
      | none => .ok ⟨[], done⟩
      | some _ => .error ⟨[], done⟩
  | byte :: rest =>
      match name? with
      | none =>
          if byte = Ascii.upperL then scanBytes (.byte byte :: done) (some []) rest
          else scanBytes (.byte byte :: done) none rest
      | some name =>
          if byte = Ascii.semicolon then
            scanBytes (.byte byte :: .className ⟨name.reverse⟩ :: done) none rest
          else scanBytes done (some (byte :: name)) rest

/-- Splits a field or method descriptor: every `L` starts a class name, the next semicolon ends
it. -/
def scanDescriptor (descriptor : Text) : Except Scan Scan :=
  scanBytes [] none descriptor.bytes

namespace Scan

/-- The next byte. -/
def peek? (scan : Scan) : Option UInt8 :=
  scan.rest.head?

/-- Keeps the next byte. -/
def keep (scan : Scan) : Except Scan Scan :=
  match scan.rest with
  | [] => .error scan
  | byte :: rest => .ok ⟨rest, .byte byte :: scan.done⟩

/-- Keeps the bytes before the next one of `stops`. -/
def keepUntil (stops : List UInt8) (done : List Piece) : List UInt8 → Except Scan Scan
  | [] => .error ⟨[], done⟩
  | byte :: rest =>
      if stops.contains byte then .ok ⟨byte :: rest, done⟩
      else keepUntil stops (.byte byte :: done) rest

/-- Takes the bytes before the next one of `stops` as a class name; `name` holds the bytes before,
last first. -/
def takeName (stops : List UInt8) (done : List Piece) (name : List UInt8) :
    List UInt8 → Except Scan Scan
  | [] => .error ⟨[], done⟩
  | byte :: rest =>
      if stops.contains byte then .ok ⟨byte :: rest, .className ⟨name.reverse⟩ :: done⟩
      else takeName stops done (byte :: name) rest

/-- The bytes that end the simple name of a class in a signature. -/
def nameStops : List UInt8 := [Ascii.semicolon, Ascii.less, Ascii.dot]

mutual

/-- One type of a signature. -/
def typeSignature : Nat → Scan → Except Scan Scan
  | 0, scan => .error scan
  | fuel + 1, scan =>
      match scan.rest with
      | [] => .error scan
      | byte :: rest =>
          if byte = Ascii.openBracket then typeSignature fuel ⟨rest, .byte byte :: scan.done⟩
          else if byte = Ascii.upperT then do
            (← keepUntil [Ascii.semicolon] scan.done scan.rest).keep
          else if byte = Ascii.upperL then do
            classTail fuel (← takeName nameStops (.byte byte :: scan.done) [] rest)
          else .ok ⟨rest, .byte byte :: scan.done⟩

/-- What follows the name of the outer class: type arguments, names of inner classes, the end. -/
def classTail : Nat → Scan → Except Scan Scan
  | 0, scan => .error scan
  | fuel + 1, scan =>
      match scan.rest with
      | [] => .error scan
      | byte :: rest =>
          if byte = Ascii.less then do
            classTail fuel (← typeArguments fuel ⟨rest, .byte byte :: scan.done⟩)
          else if byte = Ascii.dot then do
            classTail fuel (← keepUntil nameStops (.byte byte :: scan.done) rest)
          else .ok ⟨rest, .byte byte :: scan.done⟩

/-- Type arguments up to the closing bracket. -/
def typeArguments : Nat → Scan → Except Scan Scan
  | 0, scan => .error scan
  | fuel + 1, scan =>
      match scan.rest with
      | [] => .error scan
      | byte :: rest =>
          if byte = Ascii.greater then .ok ⟨rest, .byte byte :: scan.done⟩
          else if byte = Ascii.star then typeArguments fuel ⟨rest, .byte byte :: scan.done⟩
          else if byte = Ascii.plus ∨ byte = Ascii.minus then do
            typeArguments fuel (← typeSignature fuel ⟨rest, .byte byte :: scan.done⟩)
          else do
            typeArguments fuel (← typeSignature fuel scan)

end

/-- Types as long as `continues` holds of the next byte. -/
def typesWhile (continues : UInt8 → Bool) (typeFuel : Nat) : Nat → Scan → Except Scan Scan
  | 0, scan => .error scan
  | fuel + 1, scan =>
      match scan.rest with
      | [] => .ok scan
      | byte :: _ =>
          if continues byte then do
            typesWhile continues typeFuel fuel (← typeSignature typeFuel scan)
          else .ok scan

/-- The bounds of a type parameter: after each colon a type, which may be left out. -/
def bounds (typeFuel : Nat) : Nat → Scan → Except Scan Scan
  | 0, scan => .error scan
  | fuel + 1, scan =>
      match scan.rest with
      | [] => .ok scan
      | byte :: rest =>
          if byte = Ascii.colon then
            let scan := ⟨rest, .byte byte :: scan.done⟩
            match rest with
            | [] => .error scan
            | next :: _ =>
                if next = Ascii.upperL ∨ next = Ascii.openBracket ∨ next = Ascii.upperT then do
                  bounds typeFuel fuel (← typeSignature typeFuel scan)
                else bounds typeFuel fuel scan
          else .ok scan

/-- Type parameters up to the closing bracket. -/
def typeParameters (typeFuel : Nat) : Nat → Scan → Except Scan Scan
  | 0, scan => .error scan
  | fuel + 1, scan =>
      match scan.rest with
      | [] => .error scan
      | byte :: rest =>
          if byte = Ascii.greater then .ok ⟨rest, .byte byte :: scan.done⟩
          else do
            let scan ← keepUntil [Ascii.colon] scan.done scan.rest
            typeParameters typeFuel fuel (← bounds typeFuel typeFuel scan)

/-- The exceptions of a method signature, each behind a caret. -/
def thrownTypes (typeFuel : Nat) : Nat → Scan → Except Scan Scan
  | 0, scan => .error scan
  | fuel + 1, scan =>
      match scan.rest with
      | [] => .ok scan
      | byte :: rest =>
          if byte = Ascii.caret then do
            thrownTypes typeFuel fuel
              (← typeSignature typeFuel ⟨rest, .byte byte :: scan.done⟩)
          else .ok scan

/-- A whole class, method or field signature. -/
def signature (fuel : Nat) (scan : Scan) : Except Scan Scan := do
  let scan ←
    if scan.peek? = some Ascii.less then do typeParameters fuel fuel (← scan.keep)
    else pure scan
  let scan ←
    if scan.peek? = some Ascii.openParen then do
      let scan ← typesWhile (fun byte => byte != Ascii.closeParen) fuel fuel (← scan.keep)
      let scan ← typeSignature fuel (← scan.keep)
      thrownTypes fuel fuel scan
    else typesWhile (fun _ => true) fuel fuel scan
  if scan.rest.isEmpty then return scan else throw scan

end Scan

/-- Splits a generic signature.  Every nested scan has consumed a byte or is about to, so twice the
length of the text bounds the nesting. -/
def scanSignature (text : Text) : Except Scan Scan :=
  (Scan.start text).signature (2 * text.bytes.length + 2)

/-- A descriptor with its classes renamed, if that changes it. -/
def renameDescriptor (rename : Text → Option Text) (descriptor : Text) : Option Text :=
  match scanDescriptor descriptor with
  | .ok scan => scan.renamed? rename
  | .error _ => none

/-- A generic signature with its classes renamed, if that changes it.  Type variables, names of type
parameters and the names of inner classes stay. -/
def renameSignature (rename : Text → Option Text) (text : Text) : Option Text :=
  match scanSignature text with
  | .ok scan => scan.renamed? rename
  | .error _ => none

/-- The class names that a scan reached, whether or not it reached the end. -/
def reachedNames : Except Scan Scan → List Text
  | .ok scan | .error scan => scan.names

end ClassFile.Descriptor
