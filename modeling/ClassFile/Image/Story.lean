import ClassFile.Consumer
import ClassFile.Image.Code

/-!
# The story of a class image

`ClassImage.script` tells a class file as a script: the header, what the attributes of the class
say, then record components, fields and methods.  Constructs that are newer than the version that
the listener understands are left out; only a dynamic constant, without which its instruction means
nothing, is a fault.  `Consumer.decode` reads the bytes of a class file and tells them to a consumer.
-/

namespace ClassFile

namespace ClassImage

/-- The names of `count` classes whose indices stand from `offset` on, last first before `found`. -/
def readClasses (image : ClassImage) (offset : Nat) (found : List Text) :
    (count : Nat) → Except ClassError (List Text)
  | 0 => .ok found.reverse
  | count + 1 => do
      let name ← image.classAt offset
      readClasses image (offset + 2) (name :: found) count

/-- The names of the classes in the table at `offset`. -/
def classTable (image : ClassImage) (offset : Nat) : Except ClassError (List Text) := do
  let count ← image.input.u16 offset
  image.readClasses (offset + 2) [] count.toNat

/-- The text that an attribute refers to, if the attribute is there. -/
def textIfPresent (image : ClassImage) : Option Nat → Except ClassError (Option Text)
  | none => .ok none
  | some offset => (image.textAt offset).map some

/-- The places of the attributes that only a class carries. -/
structure ClassAttributes where
  common : CommonAttributes := {}
  sourceFile? : Option Nat := none
  sourceDebug? : Option RawAttribute := none
  module? : Option Nat := none
  modulePackages? : Option Nat := none
  moduleMainClass? : Option Nat := none
  nestHost? : Option Nat := none
  enclosingMethod? : Option Nat := none
  nestMembers? : Option Nat := none
  permittedSubclasses? : Option Nat := none
  innerClasses? : Option Nat := none
  record? : Option Nat := none

/-- Sorts an attribute of a class; of two with one meaning the later counts. -/
def ClassAttributes.add (attributes : ClassAttributes) (entry : RawAttribute) : ClassAttributes :=
  match entry.kind? with
  | some .sourceFile => { attributes with sourceFile? := some entry.offset }
  | some .sourceDebugExtension => { attributes with sourceDebug? := some entry }
  | some .moduleDeclaration => { attributes with module? := some entry.offset }
  | some .modulePackages => { attributes with modulePackages? := some entry.offset }
  | some .moduleMainClass => { attributes with moduleMainClass? := some entry.offset }
  | some .nestHost => { attributes with nestHost? := some entry.offset }
  | some .enclosingMethod => { attributes with enclosingMethod? := some entry.offset }
  | some .nestMembers => { attributes with nestMembers? := some entry.offset }
  | some .permittedSubclasses => { attributes with permittedSubclasses? := some entry.offset }
  | some .innerClasses => { attributes with innerClasses? := some entry.offset }
  | some .record => { attributes with record? := some entry.offset }
  | some .bootstrapMethods => attributes
  | _ => { attributes with common := attributes.common.add entry }

/-! ### The module declaration -/

/-- Tells an event of the module scope. -/
def tellModuleItem (item : ModuleItem) : Emit Unit :=
  Emit.tell (.moduleItem item)

/-- Tells `count` packages of the module, the first of them at `offset`. -/
def tellPackages (image : ClassImage) (offset : Nat) : (count : Nat) → Emit Unit
  | 0 => pure ()
  | count + 1 => do
      let name ← image.pool.packageRef (← image.input.u16 offset)
      tellModuleItem (.package name)
      tellPackages image (offset + 2) count

/-- Tells `count` required modules from `offset` on, and gives the offset behind them. -/
def tellRequirements (image : ClassImage) (offset : Nat) : (count : Nat) → Emit Nat
  | 0 => pure offset
  | count + 1 => do
      let name ← image.pool.moduleRef (← image.input.u16 offset)
      let access ← image.input.u16 (offset + 2)
      let version? ← Pool.optional image.pool.text (← image.input.u16 (offset + 4))
      tellModuleItem (.requires ⟨name, access, version?⟩)
      tellRequirements image (offset + 6) count

/-- The names of `count` modules whose indices stand from `offset` on, last first before `found`. -/
def readModules (image : ClassImage) (offset : Nat) (found : List Text) :
    (count : Nat) → Except ClassError (List Text)
  | 0 => .ok found.reverse
  | count + 1 => do
      let name ← image.pool.moduleRef (← image.input.u16 offset)
      readModules image (offset + 2) (name :: found) count

/-- Tells `count` exported or opened packages from `offset` on, and gives the offset behind them. -/
def tellRelations (image : ClassImage) (item : Relation → ModuleItem) (offset : Nat) :
    (count : Nat) → Emit Nat
  | 0 => pure offset
  | count + 1 => do
      let package ← image.pool.packageRef (← image.input.u16 offset)
      let access ← image.input.u16 (offset + 2)
      let size := (← image.input.u16 (offset + 4)).toNat
      let modules ← image.readModules (offset + 6) [] size
      tellModuleItem (item ⟨package, access, modules⟩)
      tellRelations image item (offset + 6 + size * 2) count

/-- Tells `count` used services from `offset` on, and gives the offset behind them. -/
def tellUses (image : ClassImage) (offset : Nat) : (count : Nat) → Emit Nat
  | 0 => pure offset
  | count + 1 => do
      tellModuleItem (.uses (← image.classAt offset))
      tellUses image (offset + 2) count

/-- Tells `count` provided services from `offset` on. -/
def tellProvisions (image : ClassImage) (offset : Nat) : (count : Nat) → Emit Unit
  | 0 => pure ()
  | count + 1 => do
      let service ← image.classAt offset
      let size := (← image.input.u16 (offset + 2)).toNat
      let providers ← image.readClasses (offset + 4) [] size
      tellModuleItem (.provides ⟨service, providers⟩)
      tellProvisions image (offset + 4 + size * 2) count

/-- Tells what is inside the module declaration at `offset`. -/
def tellModuleBody (image : ClassImage) (attributes : ClassAttributes) (offset : Nat) :
    Emit Unit := do
  tellIfPresent attributes.moduleMainClass? fun place => do
    tellModuleItem (.mainClass (← image.classAt place))
  tellIfPresent attributes.modulePackages? fun place => do
    let count ← image.input.u16 place
    image.tellPackages (place + 2) count.toNat
  let current := offset + 6
  let current ← image.tellRequirements (current + 2) (← image.input.u16 current).toNat
  let current ← image.tellRelations .exports (current + 2) (← image.input.u16 current).toNat
  let current ← image.tellRelations .opens (current + 2) (← image.input.u16 current).toNat
  let current ← image.tellUses (current + 2) (← image.input.u16 current).toNat
  image.tellProvisions (current + 2) (← image.input.u16 current).toNat

/-- Tells the module declaration at `offset`. -/
def tellModule (image : ClassImage) (attributes : ClassAttributes) (offset : Nat) :
    Emit Unit := do
  let name ← image.pool.moduleRef (← image.input.u16 offset)
  let access ← image.input.u16 (offset + 2)
  let version? ← Pool.optional image.pool.text (← image.input.u16 (offset + 4))
  Emit.member (.moduleScope ⟨name, access, version?⟩) (image.tellModuleBody attributes offset)

/-! ### Members -/

/-- Tells the annotations and the attributes of a record component or field. -/
def tellMemberBody (image : ClassImage) (options : ReadOptions) (common : CommonAttributes) :
    Emit Unit := do
  image.tellAnnotations options common
  image.tellOthers options false common

/-- Tells `count` record components, the first of them at `offset`. -/
def tellComponents (image : ClassImage) (options : ReadOptions) (offset : Nat) :
    (count : Nat) → Emit Unit
  | 0 => pure ()
  | count + 1 => do
      let name ← image.textAt offset
      let descriptor ← image.textAt (offset + 2)
      let (attributes, next) ← rawAttributes image.pool (offset + 4)
      let common := attributes.foldl CommonAttributes.add {}
      let signature? ← image.textIfPresent common.signature?
      Emit.member (.component ⟨name, descriptor, signature?⟩)
        (image.tellMemberBody options common)
      tellComponents image options next count

/-- The value that a field starts with, by the index of its constant. -/
def fieldValue (image : ClassImage) (index : UInt16) : Except ClassError FieldValue := do
  let pool := image.pool
  match ← pool.tag index with
  | .integer => return .integer (← pool.integer index)
  | .float => return .float (← pool.float index)
  | .long => return .long (← pool.long index)
  | .double => return .double (← pool.double index)
  | .string => return .string (← pool.string index)
  | actual => throw (.wrongPoolTag .integer actual)

/-- The attributes of a field. -/
structure FieldAttributes where
  common : CommonAttributes := {}
  value? : Option UInt16 := none

/-- Sorts an attribute of a field. -/
def addFieldAttribute (image : ClassImage) (attributes : FieldAttributes)
    (entry : RawAttribute) : Except ClassError FieldAttributes :=
  match entry.kind? with
  | some .constantValue => do
      return { attributes with value? := some (← image.input.u16 entry.offset) }
  | _ => .ok { attributes with common := attributes.common.add entry }

/-- Tells `count` fields from `offset` on, and gives the offset behind them. -/
def tellFields (image : ClassImage) (options : ReadOptions) (offset : Nat) :
    (count : Nat) → Emit Nat
  | 0 => pure offset
  | count + 1 => do
      let access ← image.input.u16 offset
      let name ← image.textAt (offset + 2)
      let descriptor ← image.textAt (offset + 4)
      let (entries, next) ← rawAttributes image.pool (offset + 6)
      let attributes ← (entries.foldlM image.addFieldAttribute {} : Except ClassError _)
      let signature? ← image.textIfPresent attributes.common.signature?
      let value? ← match attributes.value? with
        | some index => do pure (some (← image.fieldValue index))
        | none => pure none
      let access := access.toUInt32 ||| attributes.common.accessFlags
      Emit.member (.field ⟨access, name, descriptor, signature?, value?⟩)
        (image.tellMemberBody options attributes.common)
      tellFields image options next count

/-- The places of the attributes of a method. -/
structure MethodAttributes where
  common : CommonAttributes := {}
  code? : Option RawAttribute := none
  exceptions? : Option Nat := none
  parameters? : Option Nat := none
  annotationDefault? : Option Nat := none
  visibleParameters? : Option Nat := none
  invisibleParameters? : Option Nat := none

/-- Sorts an attribute of a method; of two with one meaning the later counts. -/
def MethodAttributes.add (attributes : MethodAttributes) (entry : RawAttribute) :
    MethodAttributes :=
  match entry.kind? with
  | some .code => { attributes with code? := some entry }
  | some .exceptions => { attributes with exceptions? := some entry.offset }
  | some .methodParameters => { attributes with parameters? := some entry.offset }
  | some .annotationDefault => { attributes with annotationDefault? := some entry.offset }
  | some .runtimeVisibleParameterAnnotations =>
      { attributes with visibleParameters? := some entry.offset }
  | some .runtimeInvisibleParameterAnnotations =>
      { attributes with invisibleParameters? := some entry.offset }
  | _ => { attributes with common := attributes.common.add entry }

/-- Tells `count` parameters, the first of them at `offset`. -/
def tellParameters (image : ClassImage) (offset : Nat) : (count : Nat) → Emit Unit
  | 0 => pure ()
  | count + 1 => do
      let name? ← Pool.optional image.pool.text (← image.input.u16 offset)
      let access ← image.input.u16 (offset + 2)
      tellItem (.parameter ⟨name?, access⟩)
      tellParameters image (offset + 4) count

/-- Tells the annotations of the parameters from `parameter` on, `count` of them, whose tables start
at `offset`. -/
def tellParameterTables (image : ClassImage) (visible : Bool) (parameter : UInt8) (offset : Nat) :
    (count : Nat) → Emit Unit
  | 0 => pure ()
  | count + 1 => do
      let next ←
        image.tellAnnotationTable (Opening.annotateParameter parameter · visible) offset
      tellParameterTables image visible (parameter + 1) next count

/-- Tells the annotations of the parameters of a method. -/
def tellParameterAnnotations (image : ClassImage) (visible : Bool) (offset : Nat) :
    Emit Unit := do
  let count ← image.input.u8 offset
  tellItem (.annotableParameterCount count visible)
  image.tellParameterTables visible 0 (offset + 1) count.toNat

/-- Tells what is inside a method. -/
def tellMethodBody (image : ClassImage) (options : ReadOptions) (attributes : MethodAttributes) :
    Emit Unit := do
  if ! options.skipDebug && options.api.supports .v5 then
    tellIfPresent attributes.parameters? fun offset => do
      let count ← image.input.u8 offset
      image.tellParameters (offset + 1) count.toNat
  tellIfPresent attributes.annotationDefault? fun offset =>
    discard (Emit.eager .annotationDefault
      (image.tellElement maxAnnotationLevels none offset))
  image.tellAnnotations options attributes.common
  tellIfPresent attributes.visibleParameters? (image.tellParameterAnnotations true)
  tellIfPresent attributes.invisibleParameters? (image.tellParameterAnnotations false)
  image.tellOthers options false attributes.common
  if ! options.skipCode then
    match attributes.code? with
    | some entry => image.tellCode options entry
    | none => pure ()

/-- Tells `count` methods, the first of them at `offset`. -/
def tellMethods (image : ClassImage) (options : ReadOptions) (offset : Nat) :
    (count : Nat) → Emit Unit
  | 0 => pure ()
  | count + 1 => do
      let access ← image.input.u16 offset
      let name ← image.textAt (offset + 2)
      let descriptor ← image.textAt (offset + 4)
      let (entries, next) ← rawAttributes image.pool (offset + 6)
      let attributes := entries.foldl MethodAttributes.add {}
      let signature? ← image.textIfPresent attributes.common.signature?
      let exceptions ← match attributes.exceptions? with
        | some place => (image.classTable place : Except ClassError _)
        | none => pure []
      let access := access.toUInt32 ||| attributes.common.accessFlags
      Emit.member (.method ⟨access, name, descriptor, signature?, exceptions⟩)
        (image.tellMethodBody options attributes)
      tellMethods image options next count

/-! ### The class -/

/-- Tells an event of the class scope. -/
def tellClassItem (item : ClassItem) : Emit Unit :=
  Emit.tell (.classItem item)

/-- Tells the source file and the debug extension. -/
def tellSource (image : ClassImage) (attributes : ClassAttributes) : Emit Unit := do
  if attributes.sourceFile?.isSome || attributes.sourceDebug?.isSome then
    let file? ← image.textIfPresent attributes.sourceFile?
    let debug? ← match attributes.sourceDebug? with
      | none => pure none
      | some entry => do
          match Text.decode (← image.input.bytes entry.offset entry.length) with
          | .ok text => pure (some text)
          | .error cause => throw (.badText cause)
    tellClassItem (.source file? debug?)

/-- Tells the class and the method around the class. -/
def tellOuterClass (image : ClassImage) (offset : Nat) : Emit Unit := do
  let owner ← image.classAt offset
  let method? ← Pool.optional image.pool.nameAndType (← image.input.u16 (offset + 2))
  tellClassItem (.outerClass owner (method?.map (·.name)) (method?.map (·.descriptor)))

/-- Tells `count` inner classes, the first of them at `offset`. -/
def tellInnerClasses (image : ClassImage) (offset : Nat) : (count : Nat) → Emit Unit
  | 0 => pure ()
  | count + 1 => do
      let name ← image.classAt offset
      let outer? ← Pool.optional image.pool.classRef (← image.input.u16 (offset + 2))
      let inner? ← Pool.optional image.pool.text (← image.input.u16 (offset + 4))
      let access ← image.input.u16 (offset + 6)
      tellClassItem (.innerClass ⟨name, outer?, inner?, access⟩)
      tellInnerClasses image (offset + 8) count

/-- Tells the members of the class. -/
def tellMembers (image : ClassImage) (options : ReadOptions) : Emit Unit := do
  let interfaces ← image.input.u16 (image.headerOffset + 6)
  let fields := image.headerOffset + 8 + interfaces.toNat * 2
  let methods ←
    image.tellFields options (fields + 2) (← image.input.u16 fields).toNat
  image.tellMethods options (methods + 2) (← image.input.u16 methods).toNat

/-- Tells the class. -/
def tell (image : ClassImage) (options : ReadOptions) : Emit Unit := do
  let api := options.api
  let access ← image.access
  let name ← image.name
  let super? ← image.super?
  let interfaces ← ((← image.interfaces).mapM id : Except ClassError (List Text))
  let (entries, _) ← rawAttributes image.pool image.attributesOffset
  let attributes := entries.foldl ClassAttributes.add {}
  let common := attributes.common
  let access := access ||| common.accessFlags |||
    (if attributes.record?.isSome then Access.record else 0)
  let signature? ← image.textIfPresent common.signature?
  tellClassItem (.header ⟨image.version, access, name, signature?, super?, interfaces⟩)
  if ! options.skipDebug then image.tellSource attributes
  if api.supports .v6 then tellIfPresent attributes.module? (image.tellModule attributes)
  if api.supports .v7 then
    tellIfPresent attributes.nestHost? fun offset => do
      tellClassItem (.nestHost (← image.classAt offset))
  tellIfPresent attributes.enclosingMethod? image.tellOuterClass
  image.tellAnnotations options common
  image.tellOthers options false common
  if api.supports .v7 then
    tellIfPresent attributes.nestMembers? fun offset => do
      (← image.classTable offset).forM fun name => tellClassItem (.nestMember name)
  if api.supports .v9 then
    tellIfPresent attributes.permittedSubclasses? fun offset => do
      (← image.classTable offset).forM fun name => tellClassItem (.permittedSubclass name)
  tellIfPresent attributes.innerClasses? fun offset => do
    let count ← image.input.u16 offset
    image.tellInnerClasses (offset + 2) count.toNat
  if api.supports .v8 then
    tellIfPresent attributes.record? fun offset => do
      let count ← image.input.u16 offset
      image.tellComponents options (offset + 2) count.toNat
  image.tellMembers options
  Emit.tell .finish

/-- The class as a script. -/
def script (image : ClassImage) (options : ReadOptions) : Script :=
  (image.tell options).script

end ClassImage

/-- Reads the bytes of a class file and tells the class to a consumer. -/
def Consumer.decode {σ : Type} (consumer : Consumer σ) (input : Input) (options : ReadOptions) :
    Step σ Unit :=
  match ClassImage.ofInput? input with
  | .ok image => consumer.tell (image.script options)
  | .error cause => failure cause

end ClassFile
