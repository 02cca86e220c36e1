/-!
# Access flags

Access flags say who may use a class or member and of what sort it is.  A class file has sixteen of
them.  Here two marks that stand in attributes of their own, or are told by one, count as flags too:
that something is deprecated, and that a class is a record.

Before version 49 that something is synthetic was such a mark as well; from then on it is a flag.
-/

namespace ClassFile

namespace Access

/-- A member of the class rather than of its instances. -/
def static : UInt32 := 0x8

/-- Made by the compiler. -/
def synthetic : UInt32 := 0x1000

/-- A record class. -/
def record : UInt32 := 0x10000

/-- Not to be used any more. -/
def deprecated : UInt32 := 0x20000

/-- The first version in which synthetic things have a flag. -/
def firstWithSyntheticFlag : UInt16 := 49

/-- Whether the flags have to say by an attribute that something is synthetic. -/
def needsSyntheticAttribute (access : UInt32) (major : UInt16) : Bool :=
  decide (major < firstWithSyntheticFlag) && access &&& synthetic != 0

/-- The flags as the file stores them. -/
def stored (access : UInt32) (major : UInt16) : UInt16 :=
  let marks := record ||| deprecated
  let marks := if major < firstWithSyntheticFlag then marks ||| synthetic else marks
  (access &&& ~~~marks).toUInt16

end Access

end ClassFile
