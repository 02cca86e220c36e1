import ClassFile.Renaming
import Mathlib.Data.List.Basic
import Mathlib.Tactic.Common

/-!
# Renaming the classes of a descriptor twice

A text that is split to its end is a sequence of pieces in which each `L` stands in front of a name and
each name in front of a semicolon (`Descriptor.IsSplit`), and every such sequence is split that way when
it is spelled (`Descriptor.scanBytes_eq_ok`).  Names that hold no semicolon are therefore found again in
a text that was renamed, so that one renaming after the other is a single renaming, and an inverse
renaming restores the old names (`Renaming.descriptor_className_compose`).  A text that is no descriptor
is not split to its end, and stays what it is under every renaming.
-/

namespace ClassFile

namespace Renaming

/-- The name of a class under new names. -/
def newName (rename : Renaming) (name : Text) : Text :=
  (rename name).getD name

/-- New names, and new names for those. -/
def andThen (first second : Renaming) : Renaming := fun name =>
  match first name with
  | some new => some (second.newName new)
  | none => second name

theorem newName_andThen (first second : Renaming) (name : Text) :
    (first.andThen second).newName name = second.newName (first.newName name) := by
  unfold newName andThen
  cases first name <;> rfl

end Renaming

namespace Descriptor

/-! ### Pieces -/

namespace Piece

/-- The bytes of a piece when class names are spelled in the given way. -/
def spelled (spell : Text → Text) : Piece → List UInt8
  | .byte value => [value]
  | .className name => (spell name).bytes

/-- The class name that a piece is. -/
def name? : Piece → Option Text
  | .byte _ => none
  | .className name => some name

/-- A piece with another class name. -/
def withName (spell : Text → Text) : Piece → Piece
  | .byte value => .byte value
  | .className name => .className (spell name)

theorem spelled_withName (spell change : Text → Text) (piece : Piece) :
    (piece.withName change).spelled spell = piece.spelled (spell ∘ change) := by
  cases piece <;> rfl

theorem pieceBytes_eq_spelled (rename : Renaming) : Scan.pieceBytes rename = spelled rename.newName := by
  funext piece
  cases piece <;> rfl

end Piece

/-- The text that is put together from pieces when class names are spelled in the given way. -/
def spelling (spell : Text → Text) (pieces : List Piece) : Text :=
  ⟨pieces.flatMap (Piece.spelled spell)⟩

/-- The class names among pieces, in order. -/
def namesIn (pieces : List Piece) : List Text :=
  pieces.filterMap Piece.name?

variable {pieces : List Piece}

theorem mem_namesIn {name : Text} : name ∈ namesIn pieces ↔ .className name ∈ pieces := by
  rw [namesIn, List.mem_filterMap]
  constructor
  · rintro ⟨piece, member, isName⟩
    cases piece with
    | byte value => cases isName
    | className found =>
        cases isName
        exact member
  · intro member
    exact ⟨_, member, rfl⟩

theorem spelling_congr {spell other : Text → Text}
    (same : ∀ name ∈ namesIn pieces, spell name = other name) :
    spelling spell pieces = spelling other pieces := by
  refine congrArg Text.mk (List.flatMap_congr fun piece member => ?_)
  cases piece with
  | byte value => rfl
  | className name => exact congrArg Text.bytes (same name (mem_namesIn.mpr member))

theorem spelling_map_withName (spell change : Text → Text) (pieces : List Piece) :
    spelling spell (pieces.map (Piece.withName change)) = spelling (spell ∘ change) pieces := by
  simp only [spelling, List.flatMap_map, Piece.spelled_withName]

theorem names_mk (rest : List UInt8) (pieces : List Piece) :
    Scan.names ⟨rest, pieces.reverse⟩ = namesIn pieces := by
  rw [Scan.names, List.reverse_reverse]
  refine List.filterMap_congr fun piece _ => ?_
  cases piece <;> rfl

/-- What a scan that holds the pieces of a text makes of it: the text with the new names, if there is
one. -/
theorem renamed?_mk (rest : List UInt8) (pieces : List Piece) (rename : Renaming) :
    Scan.renamed? ⟨rest, pieces.reverse⟩ rename =
      if (namesIn pieces).any fun name => (rename name).isSome then
        some (spelling rename.newName pieces)
      else none := by
  rw [Scan.renamed?, names_mk, List.reverse_reverse, Piece.pieceBytes_eq_spelled]
  rfl

/-- Whether new names or not, the text is the one in which each class has its new name. -/
theorem getD_renamed?_mk (rest : List UInt8) (pieces : List Piece) (rename : Renaming) :
    (Scan.renamed? ⟨rest, pieces.reverse⟩ rename).getD (spelling id pieces) =
      spelling rename.newName pieces := by
  rw [renamed?_mk]
  split
  · rfl
  · rename_i none
    refine spelling_congr fun name member => ?_
    simp only [List.any_eq_true, not_exists, not_and, Bool.not_eq_true, Option.isSome_eq_false_iff,
      Option.isNone_iff_eq_none] at none
    rw [Renaming.newName, none name member]
    rfl

/-! ### Splitting a descriptor -/

/-- Whether pieces are those of a descriptor: an `L` is followed by a class name, a class name by a
semicolon, and both are found nowhere else. -/
inductive IsSplit : List Piece → Prop where
  | nil : IsSplit []
  | byte {value : UInt8} {rest : List Piece} (plain : value ≠ Ascii.upperL) (isSplit : IsSplit rest) :
      IsSplit (.byte value :: rest)
  | className {name : Text} {rest : List Piece} (plain : Ascii.semicolon ∉ name.bytes)
      (isSplit : IsSplit rest) :
      IsSplit (.byte Ascii.upperL :: .className name :: .byte Ascii.semicolon :: rest)

theorem IsSplit.map_withName (isSplit : IsSplit pieces) {change : Text → Text}
    (keeps : ∀ name, Ascii.semicolon ∉ name.bytes → Ascii.semicolon ∉ (change name).bytes) :
    IsSplit (pieces.map (Piece.withName change)) := by
  induction isSplit with
  | nil => exact .nil
  | byte plain _ ih => exact .byte plain ih
  | className plain _ ih => exact .className (keeps _ plain) ih

theorem scanBytes_name {name : List UInt8} (plain : Ascii.semicolon ∉ name) (done : List Piece)
    (front rest : List UInt8) :
    scanBytes done (some front) (name ++ Ascii.semicolon :: rest) =
      scanBytes (.byte Ascii.semicolon :: .className ⟨front.reverse ++ name⟩ :: done) none rest := by
  induction name generalizing front with
  | nil => rw [List.nil_append, scanBytes, if_pos rfl, List.append_nil]
  | cons byte name ih =>
      rw [List.mem_cons, not_or] at plain
      rw [List.cons_append, scanBytes, if_neg (Ne.symm plain.1), ih plain.2, List.reverse_cons,
        List.append_assoc, List.singleton_append]

theorem scanBytes_of_isSplit (isSplit : IsSplit pieces) (done : List Piece) :
    scanBytes done none (spelling id pieces).bytes = .ok ⟨[], pieces.reverse ++ done⟩ := by
  induction isSplit generalizing done with
  | nil => rfl
  | @byte value rest plain _ ih =>
      have spelled : (spelling id (.byte value :: rest)).bytes = value :: (spelling id rest).bytes := rfl
      rw [spelled, scanBytes]
      simp only [if_neg plain, ih, List.reverse_cons, List.append_assoc, List.singleton_append]
  | @className name rest plain _ ih =>
      have spelled : (spelling id (.byte Ascii.upperL :: .className name :: .byte Ascii.semicolon ::
          rest)).bytes = Ascii.upperL :: (name.bytes ++ Ascii.semicolon :: (spelling id rest).bytes) := rfl
      rw [spelled, scanBytes]
      simp only [if_pos, scanBytes_name plain, ih, List.reverse_cons, List.reverse_nil,
        List.nil_append, List.append_assoc, List.cons_append]

/-- What the scan has split when it comes to the end, in front of a name or inside one. -/
theorem isSplit_of_scanBytes {bytes : List UInt8} {done : List Piece} {scan : Scan} :
    (scanBytes done none bytes = .ok scan →
      ∃ pieces, IsSplit pieces ∧ bytes = (spelling id pieces).bytes ∧
        scan = ⟨[], pieces.reverse ++ done⟩) ∧
    ∀ front, scanBytes done (some front) bytes = .ok scan →
      ∃ name pieces, Ascii.semicolon ∉ name ∧ IsSplit pieces ∧
        bytes = name ++ Ascii.semicolon :: (spelling id pieces).bytes ∧
        scan = ⟨[], pieces.reverse ++
          .byte Ascii.semicolon :: .className ⟨front.reverse ++ name⟩ :: done⟩ := by
  induction bytes generalizing done with
  | nil =>
      constructor
      · intro scanned
        cases scanned
        exact ⟨[], .nil, rfl, rfl⟩
      · intro front scanned
        cases scanned
  | cons byte rest ih =>
      constructor
      · intro scanned
        rw [scanBytes] at scanned
        split at scanned
        · rename_i isName
          subst isName
          rcases ih.2 [] scanned with ⟨name, pieces, plain, isSplit, rfl, rfl⟩
          have named : Ascii.semicolon ∉ (Text.mk name).bytes := plain
          refine ⟨_, .className named isSplit, rfl, ?_⟩
          simp
        · rename_i isByte
          rcases ih.1 scanned with ⟨pieces, isSplit, rfl, rfl⟩
          refine ⟨_, .byte isByte isSplit, rfl, ?_⟩
          simp
      · intro front scanned
        rw [scanBytes] at scanned
        split at scanned
        · rename_i isEnd
          subst isEnd
          rcases ih.1 scanned with ⟨pieces, isSplit, rfl, rfl⟩
          refine ⟨[], pieces, List.not_mem_nil, isSplit, rfl, ?_⟩
          simp
        · rename_i goesOn
          rcases ih.2 (byte :: front) scanned with ⟨name, pieces, plain, isSplit, rfl, rfl⟩
          refine ⟨byte :: name, pieces, ?_, isSplit, rfl, ?_⟩
          · rw [List.mem_cons, not_or]
            exact ⟨Ne.symm goesOn, plain⟩
          · simp

/-- A text is split to its end exactly if it is spelled by the pieces of a descriptor. -/
theorem scanDescriptor_eq_ok {text : Text} {scan : Scan} :
    scanDescriptor text = .ok scan ↔
      ∃ pieces, IsSplit pieces ∧ text = spelling id pieces ∧ scan = ⟨[], pieces.reverse⟩ := by
  rw [scanDescriptor]
  constructor
  · intro scanned
    rcases isSplit_of_scanBytes.1 scanned with ⟨pieces, isSplit, spelled, rfl⟩
    exact ⟨pieces, isSplit, congrArg Text.mk spelled, by rw [List.append_nil]⟩
  · rintro ⟨pieces, isSplit, rfl, rfl⟩
    rw [scanBytes_of_isSplit isSplit, List.append_nil]

end Descriptor

/-! ### New names -/

namespace Renaming

open Descriptor

variable {rename first second : Renaming}

/-- Whether new names can stand for the old ones in a descriptor, and as the name of a class. -/
def IsSafe (rename : Renaming) : Prop :=
  ∀ name new, rename name = some new →
    Ascii.semicolon ∉ new.bytes ∧ new.bytes.head? ≠ some Ascii.openBracket

theorem IsSafe.newName_plain (isSafe : rename.IsSafe) (name : Text)
    (plain : Ascii.semicolon ∉ name.bytes) : Ascii.semicolon ∉ (rename.newName name).bytes := by
  rw [newName]
  cases renamed : rename name with
  | none => exact plain
  | some new => exact (isSafe name new renamed).1

/-- In a descriptor each class gets its new name. -/
theorem descriptor_spelling {pieces : List Piece} (isSplit : IsSplit pieces) :
    rename.descriptor (spelling id pieces) = spelling rename.newName pieces := by
  rw [descriptor, renameDescriptor, scanDescriptor_eq_ok.mpr ⟨pieces, isSplit, rfl, rfl⟩]
  exact getD_renamed?_mk [] pieces rename

/-- What is no descriptor stays. -/
theorem descriptor_of_error {text : Text} {scan : Scan} (malformed : scanDescriptor text = .error scan) :
    rename.descriptor text = text := by
  rw [descriptor, renameDescriptor, malformed]
  rfl

/-- One renaming of a descriptor after the other is a single renaming. -/
theorem descriptor_descriptor (isSafe : first.IsSafe) (text : Text) :
    second.descriptor (first.descriptor text) = (first.andThen second).descriptor text := by
  cases scanned : scanDescriptor text with
  | error scan =>
      rw [descriptor_of_error scanned, descriptor_of_error scanned, descriptor_of_error scanned]
  | ok scan =>
      rcases scanDescriptor_eq_ok.mp scanned with ⟨pieces, isSplit, rfl, -⟩
      have again : IsSplit (pieces.map (Piece.withName first.newName)) :=
        isSplit.map_withName isSafe.newName_plain
      calc second.descriptor (first.descriptor (spelling id pieces))
          = second.descriptor (spelling id (pieces.map (Piece.withName first.newName))) := by
            rw [descriptor_spelling isSplit, spelling_map_withName, Function.id_comp]
        _ = spelling (second.newName ∘ first.newName) pieces := by
            rw [descriptor_spelling again, spelling_map_withName]
        _ = spelling (first.andThen second).newName pieces :=
            spelling_congr fun name _ => (newName_andThen first second name).symm
        _ = (first.andThen second).descriptor (spelling id pieces) :=
            (descriptor_spelling isSplit).symm

/-- A renaming leaves the start of a text alone, which is never part of a class name. -/
theorem head?_descriptor (rename : Renaming) (text : Text) :
    (rename.descriptor text).bytes.head? = text.bytes.head? := by
  cases scanned : scanDescriptor text with
  | error scan => rw [descriptor_of_error scanned]
  | ok scan =>
      rcases scanDescriptor_eq_ok.mp scanned with ⟨pieces, isSplit, rfl, -⟩
      rw [descriptor_spelling isSplit]
      cases isSplit <;> rfl

theorem className_of_head?_ne {name : Text} (noArray : name.bytes.head? ≠ some Ascii.openBracket) :
    rename.className name = rename.newName name :=
  if_neg noArray

theorem className_of_head?_eq {name : Text} (isArray : name.bytes.head? = some Ascii.openBracket) :
    rename.className name = rename.descriptor name :=
  if_pos isArray

/-- One renaming of a class, or of an array where one stands for a class, after the other is a single
renaming. -/
theorem className_className (isSafe : first.IsSafe) (name : Text) :
    second.className (first.className name) = (first.andThen second).className name := by
  by_cases isArray : name.bytes.head? = some Ascii.openBracket
  · have stillArray : (first.descriptor name).bytes.head? = some Ascii.openBracket := by
      rw [head?_descriptor, isArray]
    rw [className_of_head?_eq isArray, className_of_head?_eq stillArray, className_of_head?_eq isArray,
      descriptor_descriptor isSafe]
  · have noArray : (first.newName name).bytes.head? ≠ some Ascii.openBracket := by
      rw [newName]
      cases renamed : first name with
      | none => exact isArray
      | some new => exact (isSafe name new renamed).2
    rw [className_of_head?_ne isArray, className_of_head?_ne noArray, className_of_head?_ne isArray,
      newName_andThen]

/-- A name that is no new name is restored by the inverse renaming. -/
theorem newName_newName (inverse : ∀ old new, second new = some old ↔ first old = some new) {name : Text}
    (fresh : ∀ old, first old ≠ some name) : second.newName (first.newName name) = name := by
  cases renamed : first name with
  | some new =>
      have back : second new = some name := (inverse name new).mpr renamed
      simp [newName, renamed, back]
  | none =>
      have keeps : second name = none := by
        rw [Option.eq_none_iff_forall_ne_some]
        exact fun old isNew => fresh old ((inverse old name).mp isNew)
      simp [newName, renamed, keeps]

/-- One renaming after the other is a single renaming, of descriptors and of classes, well formed or not.
So a renaming whose new names are all different, followed by its inverse, restores a descriptor in which
none of the new names occurred. -/
theorem descriptor_className_compose {first : Renaming} (isSafe : first.IsSafe) (second : Renaming) :
    (∀ text, second.descriptor (first.descriptor text) = (first.andThen second).descriptor text) ∧
      (∀ name, second.className (first.className name) = (first.andThen second).className name) ∧
      ((∀ old new, second new = some old ↔ first old = some new) →
        ∀ text, (∀ name ∈ reachedNames (scanDescriptor text), ∀ old, first old ≠ some name) →
          second.descriptor (first.descriptor text) = text) := by
  refine ⟨descriptor_descriptor isSafe, className_className isSafe, fun inverse text fresh => ?_⟩
  rw [descriptor_descriptor isSafe]
  cases scanned : scanDescriptor text with
  | error scan => exact descriptor_of_error scanned
  | ok scan =>
      rcases scanDescriptor_eq_ok.mp scanned with ⟨pieces, isSplit, rfl, rfl⟩
      rw [scanned, reachedNames, names_mk] at fresh
      calc (first.andThen second).descriptor (spelling id pieces)
          = spelling (first.andThen second).newName pieces := descriptor_spelling isSplit
        _ = spelling id pieces := spelling_congr fun name member =>
            (newName_andThen first second name).trans (newName_newName inverse (fresh name member))

/-- Gives the class `A` the name `L(`. -/
def disguise : Renaming := fun name =>
  if name = ⟨[65]⟩ then some ⟨[Ascii.upperL, Ascii.openParen]⟩ else none

/-- Takes the name `L(` back. -/
def unmask : Renaming := fun name =>
  if name = ⟨[Ascii.upperL, Ascii.openParen]⟩ then some ⟨[65]⟩ else none

theorem descriptor_className_compose_disguise :
    disguise.IsSafe ∧ disguise.descriptor ⟨[91, 76, 65, 59, 73]⟩ = ⟨[91, 76, 76, 40, 59, 73]⟩ ∧
      unmask.descriptor (disguise.descriptor ⟨[91, 76, 65, 59, 73]⟩) = ⟨[91, 76, 65, 59, 73]⟩ := by
  have isSafe : disguise.IsSafe := by
    intro name new renamed
    unfold disguise at renamed
    split at renamed
    · cases renamed
      decide
    · cases renamed
  refine ⟨isSafe, by decide, (descriptor_className_compose isSafe unmask).2.2 ?_ _ ?_⟩
  · intro old new
    unfold disguise unmask
    constructor
    all_goals
      intro renamed
      split at renamed
      · cases renamed
        simp_all
      · cases renamed
  · intro name member old
    unfold disguise
    split
    · rintro ⟨⟩
      revert member
      decide
    · rintro ⟨⟩

end Renaming

end ClassFile
