/-!
# Text

Names, descriptors and string constants of a class file are sequences of Unicode code points in
which a surrogate may stand alone.  A `Text` keeps such a sequence as its UTF-8 bytes, a surrogate
in three bytes like any other code point of its size.  Lengths and comparisons are over these bytes,
and a concatenation joins them as they are: a high and a low surrogate that meet stay two.

How a text is written into a file is the business of `ClassFile.Text.Modified`.
-/

namespace ClassFile

/-- A text of a class file, as the bytes of its code points in UTF-8. -/
structure Text where
  bytes : List UInt8
  deriving DecidableEq, Inhabited, Hashable

namespace Text

/-- The text without code points. -/
def empty : Text := ⟨[]⟩

/-- The text of an ordinary string. -/
def ofString (string : String) : Text :=
  ⟨string.toUTF8.data.toList⟩

/-- The ordinary string with the code points of the text, none if a surrogate stands in it. -/
def toString? (text : Text) : Option String :=
  String.fromUTF8? ⟨text.bytes.toArray⟩

/-- One text after the other. -/
def append (first second : Text) : Text :=
  ⟨first.bytes ++ second.bytes⟩

instance : Append Text := ⟨append⟩

/-- The text between double quotes, as messages show it. -/
def quoted (text : Text) : String :=
  "\"" ++ text.toString?.getD "" ++ "\""

@[simp]
theorem bytes_append (first second : Text) :
    (first ++ second).bytes = first.bytes ++ second.bytes :=
  rfl

end Text

end ClassFile
