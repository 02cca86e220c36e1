import ClassFile.Bytes.Output
import ClassFile.Error
import ClassFile.Opcode.Operands
import Std.Data.HashMap

/-!
# Laying out code

A body is recorded as a list of `CodeItem`s whose jumps name labels.  `CodeLayout.ofItems` decides
how wide each jump has to be, so that every distance is known, and writes the code array.

A jump has a short form for distances of 16 bits.  The long form of an unconditional jump has an
opcode of its own; that of a conditional jump is the opposite condition, jumping over an
unconditional jump.  All jumps start long and are shortened as long as some jump allows it.
Shortening can move the padding of a switch, so that a short jump no longer reaches its target; it
is then made long for good.  So each jump changes at most twice.
-/

namespace ClassFile

/-- A part of a body, before the offsets are known. -/
inductive CodeItem where
  /-- An instruction whose bytes depend on no offset. -/
  | fixed (bytes : List UInt8)
  | label (place : Label)
  | jump (opcode : Opcode) (target : Label)
  | tableSwitch (low high : Int32) (default : Label) (targets : List Label)
  | lookupSwitch (default : Label) (cases : List (Int32 × Label))
  deriving DecidableEq, Inhabited

/-- How a jump is written. -/
inductive JumpWidth where
  | narrow
  | wide
  /-- Wide for good: it was narrow once, and did not reach its target. -/
  | pinned
  deriving DecidableEq, Inhabited

namespace JumpWidth

/-- The number of bytes of a jump. -/
def size (width : JumpWidth) (opcode : Opcode) : Nat :=
  match width with
  | .narrow => 3
  | .wide | .pinned => if opcode = .goto ∨ opcode = .jsr then 5 else 8

/-- Whether a distance fits the two bytes of a narrow jump. -/
def fits (distance : Int) : Bool :=
  decide (-32768 ≤ distance) && decide (distance ≤ 32767)

/-- Whether a wide jump reaches over `distance` once it is narrow.  A target ahead comes closer by
the bytes that are saved. -/
def fitsNarrowed (opcode : Opcode) (distance : Int) : Bool :=
  let saved : Int := size .wide opcode - size .narrow opcode
  fits (if 0 < distance then distance - saved else distance)

/-- The width of a jump after a round in which its distance was `distance`. -/
def next (width : JumpWidth) (opcode : Opcode) (distance : Int) : JumpWidth :=
  match width with
  | .wide => if fitsNarrowed opcode distance then .narrow else .wide
  | .narrow => if fits distance then .narrow else .pinned
  | .pinned => .pinned

end JumpWidth

/-- A part of a body with the width that it has if it is a jump. -/
abbrev SizedItem := CodeItem × JumpWidth

namespace CodeItem

/-- The number of bytes of a part that starts at `offset`. -/
def size (item : CodeItem) (width : JumpWidth) (offset : Nat) : Nat :=
  match item with
  | .fixed bytes => bytes.length
  | .label _ => 0
  | .jump opcode _ => width.size opcode
  | .tableSwitch _ _ _ targets => 1 + Layout.switchPadding offset + 12 + 4 * targets.length
  | .lookupSwitch _ cases => 1 + Layout.switchPadding offset + 8 + 8 * cases.length

/-- Whether the part is a jump. -/
def isJump : CodeItem → Bool
  | .jump .. => true
  | _ => false

end CodeItem

/-- Where the parts of a body start, in order, where the body ends, and where the labels are.  Of
several places of a label the first counts. -/
structure CodeOffsets where
  positions : Array Nat := #[]
  stop : Nat := 0
  labels : Std.HashMap Label Nat := ∅
  deriving Inhabited

namespace CodeOffsets

/-- Adds a part behind the others. -/
def add (offsets : CodeOffsets) (entry : SizedItem) : CodeOffsets :=
  { positions := offsets.positions.push offsets.stop,
    stop := offsets.stop + entry.1.size entry.2 offsets.stop,
    labels :=
      match entry.1 with
      | .label place => offsets.labels.insertIfNew place offsets.stop
      | _ => offsets.labels }

/-- The offsets of parts with given widths. -/
def ofSized (entries : List SizedItem) : CodeOffsets :=
  entries.foldl add {}

/-- The position of a label in the method with the given name. -/
def resolve (offsets : CodeOffsets) (method : Text) (label : Label) : Except ClassError Nat :=
  match offsets.labels[label]? with
  | some position => .ok position
  | none => .error (.unresolvedLabel method label)

/-- How far it is from `position` to a label. -/
def distance (offsets : CodeOffsets) (method : Text) (position : Nat) (label : Label) :
    Except ClassError Int :=
  (offsets.resolve method label).map fun target => (target : Int) - position

/-- The part at `position` with the width that its distance asks for. -/
def resize (offsets : CodeOffsets) (method : Text) (entry : SizedItem) (position : Nat) :
    Except ClassError SizedItem :=
  match entry with
  | (.jump opcode target, width) =>
      (offsets.distance method position target).map fun distance =>
        (.jump opcode target, width.next opcode distance)
  | _ => .ok entry

end CodeOffsets

/-- A written code array and the offsets in it. -/
structure CodeLayout where
  code : Output
  offsets : CodeOffsets
  deriving Inhabited

namespace CodeLayout

/-- The greatest length of a code array. -/
def maxCodeLength : Nat := 65535

/-- One round: every jump with the width that its distance asks for. -/
def round (method : Text) (entries : List SizedItem) : Except ClassError (List SizedItem) :=
  let offsets := CodeOffsets.ofSized entries
  (entries.zip offsets.positions.toList).mapM fun (entry, position) =>
    offsets.resize method entry position

/-- Rounds until no width changes, at most `rounds` of which change one. -/
def settle (method : Text) (entries : List SizedItem) :
    (rounds : Nat) → Except ClassError (List SizedItem)
  | 0 => do
      let next ← round method entries
      if next = entries then return entries else throw (.layoutDiverged method)
  | rounds + 1 => do
      let next ← round method entries
      if next = entries then return entries else settle method next rounds

/-- The number of rounds that are enough for all jumps. -/
def maxRounds (items : List CodeItem) : Nat :=
  2 * items.countP CodeItem.isJump + 2

/-- Appends a number of two bytes, of which the low 16 bits are written. -/
def putShort (output : Output) (value : Int) : Output :=
  output.u16 (Int16.ofInt value).toUInt16

/-- Appends a number of four bytes. -/
def putInt (output : Output) (value : Int) : Output :=
  output.u32 (Int32.ofInt value).toUInt32

/-- Appends a jump over `distance`. -/
def putJump (output : Output) (opcode : Opcode) (width : JumpWidth) (distance : Int) : Output :=
  match width with
  | .narrow => putShort (output.u8 opcode.code) distance
  | .wide | .pinned =>
      match opcode with
      | .goto => putInt (output.u8 Layout.gotoWide) distance
      | .jsr => putInt (output.u8 Layout.jsrWide) distance
      | _ =>
          let opposite := opcode.invertedCondition.getD opcode
          putInt ((putShort (output.u8 opposite.code) 8).u8 Layout.gotoWide) (distance - 3)

/-- Appends the zero bytes between the opcode of a switch at `position` and its operands. -/
def putPadding (output : Output) (position : Nat) : Output :=
  output.bytes (List.replicate (Layout.switchPadding position) 0)

/-- Appends the part at `position`. -/
def putItem (offsets : CodeOffsets) (method : Text) (output : Output) (entry : SizedItem)
    (position : Nat) : Except ClassError Output := do
  match entry.1 with
  | .fixed bytes => return output.bytes bytes
  | .label _ => return output
  | .jump opcode target =>
      return putJump output opcode entry.2 (← offsets.distance method position target)
  | .tableSwitch low high default targets =>
      let output := putPadding (output.u8 Opcode.tableswitch.code) position
      let output := putInt output (← offsets.distance method position default)
      let output := (output.u32 low.toUInt32).u32 high.toUInt32
      targets.foldlM
        (fun output target => return putInt output (← offsets.distance method position target))
        output
  | .lookupSwitch default cases =>
      let output := putPadding (output.u8 Opcode.lookupswitch.code) position
      let output := putInt output (← offsets.distance method position default)
      let output := putInt output cases.length
      cases.foldlM
        (fun output (key, target) =>
          return putInt (output.u32 key.toUInt32) (← offsets.distance method position target))
        output

/-- Writes the parts of the body of the method with the given name. -/
def ofItems (method : Text) (items : List CodeItem) : Except ClassError CodeLayout := do
  let entries ← settle method (items.map fun item => (item, .wide)) (maxRounds items)
  let offsets := CodeOffsets.ofSized entries
  if maxCodeLength < offsets.stop then throw (.codeTooLarge method offsets.stop)
  let code ← (entries.zip offsets.positions.toList).foldlM
    (fun output (entry, position) => putItem offsets method output entry position) .empty
  return { code, offsets }

/-- The position of a label, in two bytes. -/
def labelOffset (layout : CodeLayout) (method : Text) (label : Label) :
    Except ClassError UInt16 :=
  (layout.offsets.resolve method label).map Nat.toUInt16

/-- The position of the part with a given number; the number of parts stands for the end. -/
def position (layout : CodeLayout) (item : Nat) : Nat :=
  layout.offsets.positions.getD item layout.offsets.stop

end CodeLayout

end ClassFile
