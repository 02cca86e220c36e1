import ClassFile.Code.Layout
import ClassFile.Draft
import ClassFile.Event

/-!
# Drafts of stack map tables

A stack map frame is stored with the distance from the frame before it, so that two frames can't
have the same offset: of several frames at one offset only the first is written.
-/

namespace ClassFile

namespace FrameValue

/-- The byte that stands for the sort of value. -/
def code : FrameValue → UInt8
  | .top => 0
  | .integer => 1
  | .float => 2
  | .double => 3
  | .long => 4
  | .null => 5
  | .uninitializedThis => 6
  | .object _ => 7
  | .uninitialized _ => 8

end FrameValue

/-- What is needed to write about the code of a method: its name and the layout of its code. -/
structure CodeContext where
  method : Text
  layout : CodeLayout
  deriving Inhabited

namespace CodeContext

/-- The offset of a label. -/
def labelOffset {σ : Type} (context : CodeContext) (label : Label) : Draft σ UInt16 :=
  ExceptT.mk fun state =>
    match context.layout.labelOffset context.method label with
    | .ok offset => (.ok offset, state)
    | .error cause => (.error (.error cause), state)

/-- Appends a frame value. -/
def writeValue {σ : Type} (context : CodeContext) (output : Output) (value : FrameValue) :
    Draft σ Output := do
  let output := output.u8 value.code
  match value with
  | .object name => return output.u16 (← Draft.pooled (PoolBuilder.classRef name))
  | .uninitialized label => return output.u16 (← context.labelOffset label)
  | _ => return output

/-- Appends frame values. -/
def writeValues {σ : Type} (context : CodeContext) (output : Output) :
    List FrameValue → Draft σ Output
  | [] => pure output
  | value :: rest => do writeValues context (← context.writeValue output value) rest

/-- Appends frame values behind their number, of which the low two bytes are written. -/
def writeCounted {σ : Type} (context : CodeContext) (output : Output)
    (values : List FrameValue) : Draft σ Output :=
  context.writeValues (output.u16 values.length.toUInt16) values

/-- The bytes of a frame at a distance from the one before. -/
def frame {σ : Type} (context : CodeContext) (distance : UInt16) : Frame → Draft σ Output
  | .same =>
      return if distance < 64 then Output.empty.u8 distance.toUInt8
        else (Output.empty.u8 251).u16 distance
  | .same1 value =>
      context.writeValue
        (if distance < 64 then Output.empty.u8 (64 + distance.toUInt8)
          else (Output.empty.u8 247).u16 distance)
        value
  | .chop count => do
      if count < 1 ∨ 3 < count then throw (.panic (.chopCount count.toNat))
      return (Output.empty.u8 (251 - count)).u16 distance
  | .append locals => do
      let count := locals.length
      if count < 1 ∨ 3 < count then throw (.panic (.appendCount count))
      context.writeValues ((Output.empty.u8 (251 + count.toUInt8)).u16 distance) locals
  | .full locals stack => do
      let output ← context.writeCounted ((Output.empty.u8 255).u16 distance) locals
      context.writeCounted output stack

/-- Writes frames, each in front of the part of the code with its number; `previous?` is the offset
of the frame before. -/
def writeFrames (context : CodeContext) (previous? : Option Nat) :
    List (Nat × Frame) → Draft Table Unit
  | [] => pure ()
  | (item, frame) :: rest => do
      let offset := context.layout.position item
      let distance? :=
        match previous? with
        | none => some offset
        | some previous => if previous < offset then some (offset - previous - 1) else none
      match distance? with
      | none => writeFrames context previous? rest
      | some distance =>
          Draft.tryChange (Table.raise "stack map frames")
          let bytes ← context.frame distance.toUInt16 frame
          Draft.change (Table.put bytes)
          writeFrames context (some offset) rest

end CodeContext

end ClassFile
