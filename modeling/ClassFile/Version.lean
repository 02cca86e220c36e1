/-!
# Versions

A class file carries the version of its format; a consumer of class events reports the newest
version of the event protocol that it understands.  The two are unrelated: `FormatVersion` is data,
`Api` decides which events a producer may send.
-/

namespace ClassFile

/-- The version of the class file format. -/
structure FormatVersion where
  major : UInt16
  minor : UInt16
  deriving DecidableEq, Inhabited

namespace FormatVersion

/-- The newest format that can be read. -/
def latestMajor : UInt16 := 69

/-- The format of a class whose version was never given. -/
def standard : FormatVersion := ⟨52, 0⟩

/-- The version in the usual spelling, major before minor. -/
def toText (version : FormatVersion) : String :=
  toString version.major.toNat ++ "." ++ toString version.minor.toNat

end FormatVersion

/-- A version of the event protocol.  Each version adds constructs to those of the ones before:
`v5` type annotations and method parameters, `v6` modules, `v7` nest mates and dynamic constants,
`v8` record components, `v9` permitted subclasses. -/
inductive Api where
  | v4 | v5 | v6 | v7 | v8 | v9
  deriving DecidableEq, Inhabited

namespace Api

/-- The newest version. -/
def latest : Api := .v9

/-- The position of a version among all versions. -/
def number : Api → Nat
  | .v4 => 4
  | .v5 => 5
  | .v6 => 6
  | .v7 => 7
  | .v8 => 8
  | .v9 => 9

/-- Every version, by rising number. -/
def all : List Api := [.v4, .v5, .v6, .v7, .v8, .v9]

/-- The name of a version. -/
def name (api : Api) : String :=
  "V" ++ toString api.number

/-- Whether a consumer of this version understands constructs that came with `required`. -/
def supports (api required : Api) : Bool :=
  decide (required.number ≤ api.number)

end Api

end ClassFile
