import ClassFile.Access
import ClassFile.Image
import ClassFile.Script

/-!
# Annotations and attributes of a class image

What a class, a field, a method, a record component and a code array can all carry: annotations, and
attributes that the format does not define.  `CommonAttributes` sorts the attributes of one of them.

The values of an annotation may be annotations and arrays again.  They are read to the end even when
nobody listens, since only the end tells where the next annotation starts.
-/

namespace ClassFile

/-- How attributes that the format does not define are understood: from the name, the pool and the
contents to the attribute, none if it is kept as raw bytes. -/
abbrev AttributeDecoder := Text → Pool → Input → Except ClassError (Option Attribute)

/-- What a reader is asked to tell. -/
structure ReadOptions where
  /-- Leave out the bodies of methods. -/
  skipCode : Bool := false
  /-- Leave out the source file, line numbers, local variables and method parameters. -/
  skipDebug : Bool := false
  /-- Leave out stack map frames. -/
  skipFrames : Bool := false
  /-- The version of the events that are told. -/
  api : Api := .latest
  decoder : AttributeDecoder := fun _ _ _ => .ok none

/-- The attributes that any part of a class may carry. -/
structure CommonAttributes where
  signature? : Option Nat := none
  deprecated : Bool := false
  synthetic : Bool := false
  visibleAnnotations? : Option Nat := none
  invisibleAnnotations? : Option Nat := none
  visibleTypeAnnotations? : Option Nat := none
  invisibleTypeAnnotations? : Option Nat := none
  /-- The attributes that are not interpreted, last first. -/
  others : List RawAttribute := []

namespace CommonAttributes

/-- Adds an attribute; of two with one meaning the later counts. -/
def add (common : CommonAttributes) (entry : RawAttribute) : CommonAttributes :=
  match entry.kind? with
  | some .signature => { common with signature? := some entry.offset }
  | some .deprecated => { common with deprecated := true }
  | some .synthetic => { common with synthetic := true }
  | some .runtimeVisibleAnnotations => { common with visibleAnnotations? := some entry.offset }
  | some .runtimeInvisibleAnnotations => { common with invisibleAnnotations? := some entry.offset }
  | some .runtimeVisibleTypeAnnotations =>
      { common with visibleTypeAnnotations? := some entry.offset }
  | some .runtimeInvisibleTypeAnnotations =>
      { common with invisibleTypeAnnotations? := some entry.offset }
  | _ => { common with others := entry :: common.others }

/-- The access flags that stand in attributes rather than in the access flags. -/
def accessFlags (common : CommonAttributes) : UInt32 :=
  (if common.deprecated then Access.deprecated else 0) |||
    (if common.synthetic then Access.synthetic else 0)

end CommonAttributes

namespace ClassImage

/-- How deep annotation values may stand one inside the other. -/
def maxAnnotationLevels : Nat := 257

/-- Tells `count` values that start at `offset` by `value`, with names in front of them or without,
and gives the offset behind them. -/
def tellElements (image : ClassImage) (value : Option Text → Nat → Emit Nat) (named : Bool)
    (offset : Nat) : (count : Nat) → Emit Nat
  | 0 => pure offset
  | count + 1 => do
      let next ←
        if named then do
          let name ← image.textAt offset
          value (some name) (offset + 2)
        else value none offset
      tellElements image value named next count

/-- Tells the values whose number is at `offset`, and gives the offset behind them. -/
def tellCounted (image : ClassImage) (value : Option Text → Nat → Emit Nat) (named : Bool)
    (offset : Nat) : Emit Nat := do
  let count ← image.input.u16 offset
  image.tellElements value named (offset + 2) count.toNat

/-- The value of a primitive type, string or class with tag `tag`, whose index is at `offset`; none
for other tags. -/
def elementConstant? (image : ClassImage) (tag : UInt8) (offset : Nat) :
    Except ClassError (Option AnnotationConstant) := do
  let pool := image.pool
  if tag = 'B'.toUInt8 then
    return some (.byte (← pool.integer (← image.input.u16 offset)).toInt8)
  else if tag = 'C'.toUInt8 then
    return some (.char (← pool.integer (← image.input.u16 offset)).toUInt32.toUInt16)
  else if tag = 'D'.toUInt8 then
    return some (.double (← pool.double (← image.input.u16 offset)))
  else if tag = 'F'.toUInt8 then
    return some (.float (← pool.float (← image.input.u16 offset)))
  else if tag = 'I'.toUInt8 then
    return some (.int (← pool.integer (← image.input.u16 offset)))
  else if tag = 'J'.toUInt8 then
    return some (.long (← pool.long (← image.input.u16 offset)))
  else if tag = 'S'.toUInt8 then
    return some (.short (← pool.integer (← image.input.u16 offset)).toInt16)
  else if tag = 'Z'.toUInt8 then
    return some (.boolean ((← pool.integer (← image.input.u16 offset)) != 0))
  else if tag = 's'.toUInt8 then
    return some (.string (← image.textAt offset))
  else if tag = 'c'.toUInt8 then
    return some (.classRef (← image.textAt offset))
  else return none

/-- Tells the value at `offset`, in which values stand one inside the other at most `levels` deep,
and gives the offset behind it. -/
def tellElement (image : ClassImage) : (levels : Nat) → Option Text → (offset : Nat) → Emit Nat
  | 0, _, _ => throw .tooDeepNesting
  | levels + 1, name?, offset => do
      let tag ← image.input.u8 offset
      match ← image.elementConstant? tag (offset + 1) with
      | some value =>
          Emit.tell (.element (.constant name? value))
          return offset + 3
      | none =>
          if tag = 'e'.toUInt8 then
            let descriptor ← image.textAt (offset + 1)
            let value ← image.textAt (offset + 3)
            Emit.tell (.element (.enumeration name? descriptor value))
            return offset + 5
          else if tag = '@'.toUInt8 then
            let descriptor ← image.textAt (offset + 1)
            Emit.eager (.nested name? descriptor)
              (image.tellCounted (tellElement image levels) true (offset + 3))
          else if tag = '['.toUInt8 then
            Emit.eager (.array name?)
              (image.tellCounted (tellElement image levels) false (offset + 1))
          else throw (.badAnnotationTag tag offset)

/-- Tells the named values of an annotation whose number is at `offset`, and gives the offset behind
them. -/
def tellValues (image : ClassImage) (offset : Nat) : Emit Nat :=
  image.tellCounted (image.tellElement maxAnnotationLevels) true offset

/-- The offset behind the named values of an annotation whose number is at `offset`. -/
def skipValues (image : ClassImage) (offset : Nat) : Except ClassError Nat :=
  (image.tellValues offset).silently

/-- Tells `count` annotations that start at `offset`, each in the scope that `opening` gives for its
descriptor, and gives the offset behind them. -/
def tellAnnotationList (image : ClassImage) (opening : Text → Opening) (offset : Nat) :
    (count : Nat) → Emit Nat
  | 0 => pure offset
  | count + 1 => do
      let descriptor ← image.textAt offset
      let next ← Emit.eager (opening descriptor) (image.tellValues (offset + 2))
      tellAnnotationList image opening next count

/-- Tells the annotations whose number is at `offset`, and gives the offset behind them. -/
def tellAnnotationTable (image : ClassImage) (opening : Text → Opening) (offset : Nat) :
    Emit Nat := do
  let count ← image.input.u16 offset
  image.tellAnnotationList opening (offset + 2) count.toNat

/-- The head of a type annotation with its place in the code, and the offset of its values. -/
structure TypeAnnotationHead where
  use : TypeUse
  location : TargetLocation
  valuesOffset : Nat
  deriving Inhabited

/-- Reads the head of the type annotation at `offset`. -/
def typeAnnotationHead (image : ClassImage) (visible : Bool) (offset : Nat) :
    Except ClassError TypeAnnotationHead := do
  let (target, location, next) ← TypeTarget.read image.input offset
  let (path, next) ← TypePath.read image.input next
  let descriptor ← image.textAt next
  return ⟨⟨target, path, descriptor, visible⟩, location, next + 2⟩

/-- Tells `count` type annotations that start at `offset`. -/
def tellTypeAnnotationList (image : ClassImage) (visible : Bool) (offset : Nat) :
    (count : Nat) → Emit Unit
  | 0 => pure ()
  | count + 1 => do
      let head ← image.typeAnnotationHead visible offset
      let next ←
        Emit.eager (.annotateType head.use) (image.tellValues head.valuesOffset)
      tellTypeAnnotationList image visible next count

/-- Tells the type annotations whose number is at `offset`. -/
def tellTypeAnnotationTable (image : ClassImage) (visible : Bool) (offset : Nat) :
    Emit Unit := do
  let count ← image.input.u16 offset
  image.tellTypeAnnotationList visible (offset + 2) count.toNat

/-- Tells something about an attribute that may be missing. -/
def tellIfPresent (place? : Option Nat) (tell : Nat → Emit Unit) : Emit Unit :=
  match place? with
  | some offset => tell offset
  | none => pure ()

/-- Tells the annotations of a class or member. -/
def tellAnnotations (image : ClassImage) (options : ReadOptions) (common : CommonAttributes) :
    Emit Unit := do
  tellIfPresent common.visibleAnnotations? fun offset =>
    discard (image.tellAnnotationTable (Opening.annotate · true) offset)
  tellIfPresent common.invisibleAnnotations? fun offset =>
    discard (image.tellAnnotationTable (Opening.annotate · false) offset)
  if options.api.supports .v5 then
    tellIfPresent common.visibleTypeAnnotations? (image.tellTypeAnnotationTable true)
    tellIfPresent common.invisibleTypeAnnotations? (image.tellTypeAnnotationTable false)

/-- The attribute that a raw attribute holds. -/
def attributeOf (image : ClassImage) (options : ReadOptions) (inCode : Bool)
    (entry : RawAttribute) : Except ClassError Attribute := do
  let name ← image.pool.text entry.nameIndex
  let data ← image.input.slice entry.offset entry.length
  match ← options.decoder name image.pool data with
  | some decoded => return decoded
  | none => return ⟨name, inCode, .raw data.toList⟩

/-- Tells the attributes that are not interpreted. -/
def tellOthers (image : ClassImage) (options : ReadOptions) (inCode : Bool)
    (common : CommonAttributes) : Emit Unit :=
  common.others.reverse.forM fun entry => do
    Emit.tell (.attribute (← image.attributeOf options inCode entry))

end ClassImage

end ClassFile
