import ClassFile.Bytes.Hex
import ClassFile.Text

/-!
# Listings

A `Listing` is nested plain data: nothing, truth values, numbers, texts and lists.  It is the form
in which class events and the values inside them are exchanged with programs that know nothing of
classes.  A value of several shapes is a list with the name of the shape in front (`Listing.form`).

`Listed` is the class of the types that have such a form, with a way there and a way back.
-/

namespace ClassFile

/-- Nested plain data. -/
inductive Listing where
  | absent
  | truth (value : Bool)
  | number (value : Int)
  | text (value : Text)
  | list (items : List Listing)
  deriving Inhabited

namespace Listing

/-- A fixed word. -/
def word (name : String) : Listing :=
  .text (Text.ofString name)

/-- A list with a name in front. -/
def form (name : String) (arguments : List Listing) : Listing :=
  .list (word name :: arguments)

/-- The name in front of a list, and what follows it. -/
def form? : Listing → Option (String × List Listing)
  | .list (.text name :: arguments) => name.toString?.map fun found => (found, arguments)
  | _ => none

/-- The ordinary string of a text. -/
def string? : Listing → Option String
  | .text value => value.toString?
  | _ => none

/-- A whole number, written as a number or as decimal text. -/
def int? : Listing → Option Int
  | .number value => some value
  | .text value => value.toString?.bind String.toInt?
  | _ => none

/-- A whole number that is not negative. -/
def nat? (listing : Listing) : Option Nat :=
  listing.int?.bind fun value => if value < 0 then none else some value.toNat

/-- A whole number below a bound. -/
def below? (bound : Nat) (listing : Listing) : Option Nat :=
  listing.nat?.bind fun value => if value < bound then some value else none

/-- A whole number of a signed range with `bound` negative values. -/
def within? (bound : Nat) (listing : Listing) : Option Int :=
  listing.int?.bind fun value => if -bound ≤ value ∧ value < bound then some value else none

/-- A bit pattern, as hexadecimal text of fixed width. -/
def bits (width value : Nat) : Listing :=
  word (String.ofList (Hex.number value width))

/-- The number behind hexadecimal text. -/
def bits? (listing : Listing) : Option Nat :=
  listing.string?.bind fun found => Hex.number? found.toList

/-- Bytes, as hexadecimal text. -/
def bytes (values : List UInt8) : Listing :=
  word (String.ofList (Hex.encode values))

/-- The bytes behind hexadecimal text. -/
def bytes? (listing : Listing) : Option (List UInt8) :=
  listing.string?.bind fun found => Hex.decode? found.toList

end Listing

/-- The types whose values have a listing. -/
class Listed (α : Type) where
  /-- The listing of a value. -/
  listing : α → Listing
  /-- The value with a given listing. -/
  ofListing? : Listing → Option α

export Listed (listing ofListing?)

/-- Applying a function to the values of listings, as many as it takes. -/
class Listing.Apply (function : Type) (result : outParam Type) where
  ofParts? : function → List Listing → Option result

namespace Listing

instance (priority := low) {result : Type} : Apply result result where
  ofParts?
    | value, [] => some value
    | _, _ :: _ => none

instance {α function result : Type} [Listed α] [Apply function result] :
    Apply (α → function) result where
  ofParts?
    | build, first :: rest => (ofListing? first).bind fun value => Apply.ofParts? (build value) rest
    | _, [] => none

/-- The value that `build` makes of the values of listings. -/
def make? {function result : Type} [Apply function result] (build : function)
    (arguments : List Listing) : Option result :=
  Apply.ofParts? build arguments

/-- The value that `build` makes of the values in a list. -/
def makeOf? {function result : Type} [Apply function result] (build : function) :
    Listing → Option result
  | .list arguments => make? build arguments
  | _ => none

end Listing

instance : Listed Listing := ⟨id, some⟩

instance : Listed Bool where
  listing := .truth
  ofListing?
    | .truth value => some value
    | _ => none

instance : Listed Text where
  listing := .text
  ofListing?
    | .text value => some value
    | _ => none

instance : Listed String := ⟨Listing.word, Listing.string?⟩

instance : Listed Nat := ⟨fun value => .number value, Listing.nat?⟩

instance : Listed UInt8 :=
  ⟨fun value => .number value.toNat, fun found => (found.below? UInt8.size).map Nat.toUInt8⟩

instance : Listed UInt16 :=
  ⟨fun value => .number value.toNat, fun found => (found.below? UInt16.size).map Nat.toUInt16⟩

instance : Listed UInt32 :=
  ⟨fun value => .number value.toNat, fun found => (found.below? UInt32.size).map Nat.toUInt32⟩

instance : Listed Int8 :=
  ⟨fun value => .number value.toInt, fun found => (found.within? 128).map Int8.ofInt⟩

instance : Listed Int16 :=
  ⟨fun value => .number value.toInt, fun found => (found.within? 32768).map Int16.ofInt⟩

instance : Listed Int32 :=
  ⟨fun value => .number value.toInt, fun found => (found.within? 2147483648).map Int32.ofInt⟩

/-- Numbers of 64 bits are listed as text, since not every reader of plain data keeps all bits. -/
instance : Listed UInt64 :=
  ⟨fun value => Listing.word (toString value.toNat),
   fun found => (found.below? UInt64.size).map Nat.toUInt64⟩

instance : Listed Int64 :=
  ⟨fun value => Listing.word (toString value.toInt),
   fun found => (found.within? 9223372036854775808).map Int64.ofInt⟩

instance {α : Type} [Listed α] : Listed (Option α) where
  listing
    | none => .absent
    | some value => listing value
  ofListing?
    | .absent => some none
    | found => (ofListing? found).map some

instance {α : Type} [Listed α] : Listed (List α) where
  listing items := .list (items.map listing)
  ofListing?
    | .list items => items.mapM ofListing?
    | _ => none

instance {α β : Type} [Listed α] [Listed β] : Listed (α × β) where
  listing pair := .list [listing pair.1, listing pair.2]
  ofListing? := Listing.makeOf? fun (first : α) (second : β) => (first, second)

end ClassFile
