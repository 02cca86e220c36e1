import ClassFile.Event.Labels
import ClassFile.Image.Annotations
import ClassFile.Proofs.Access
import ClassFile.Proofs.Story.Turns
import ClassFile.Proofs.Text.Survival
import ClassFile.Proofs.Tree.Elements

/-!
# What fits into a class file

A reader tells only what can be written again: texts that survive, access flags that a file has room for,
values that do not stand too deep one inside the other.  `Item.Fits` says so of an item outside of the
scopes of members; `kinds` are the attributes that are understood where the item is told.
-/

namespace ClassFile

/-! ### Values -/

/-- Whether the text in the value, if there is one, survives. -/
def AnnotationConstant.Survives : AnnotationConstant → Prop
  | .string value | .classRef value => value.Survives
  | _ => True

/-- Whether a value has a name where names belong, and the name survives. -/
def HasName (named : Bool) (name? : Option Text) : Prop :=
  name?.isSome = named ∧ ∀ name ∈ name?, name.Survives

theorem hasName_none : HasName false none :=
  ⟨rfl, by simp⟩

theorem hasName_some {name : Text} (survives : name.Survives) : HasName true (some name) :=
  ⟨rfl, by simpa using survives⟩

namespace Item

/-- Whether an item tells a value in which values stand one inside the other at most so many levels
deep. -/
inductive IsValue : (levels : Nat) → (named : Bool) → Item → Prop where
  | constant {levels : Nat} {named : Bool} {name? : Option Text} {value : AnnotationConstant}
      (name : HasName named name?) (survives : value.Survives) :
      IsValue (levels + 1) named (.event (.element (.constant name? value)))
  | enumeration {levels : Nat} {named : Bool} {name? : Option Text} {descriptor value : Text}
      (name : HasName named name?) (descriptorSurvives : descriptor.Survives)
      (valueSurvives : value.Survives) :
      IsValue (levels + 1) named (.event (.element (.enumeration name? descriptor value)))
  | nested {levels : Nat} {named : Bool} {name? : Option Text} {descriptor : Text} {body : List Item}
      (name : HasName named name?) (survives : descriptor.Survives)
      (inside : ∀ item ∈ body, IsValue levels true item) :
      IsValue (levels + 1) named (.scope (.nested name? descriptor) body)
  | array {levels : Nat} {named : Bool} {name? : Option Text} {body : List Item}
      (name : HasName named name?) (inside : ∀ item ∈ body, IsValue levels false item) :
      IsValue (levels + 1) named (.scope (.array name?) body)

theorem IsValue.isElement {levels : Nat} {named : Bool} {item : Item}
    (isValue : item.IsValue levels named) : item.IsElement named := by
  induction isValue with
  | constant name => exact name.1 ▸ isElement_constant _ _
  | enumeration name => exact name.1 ▸ isElement_enumeration _ _ _
  | nested name _ _ ih => exact name.1 ▸ isElement_nested _ _ ih
  | array name _ ih => exact name.1 ▸ isElement_array _ ih

end Item

/-! ### Parts of items -/

/-- Whether the head of a type annotation can be written. -/
structure TypeUse.Fits (use : TypeUse) : Prop where
  /-- The index that stands for the super class is not that of an interface. -/
  target : use.target ≠ .classExtends (some TypeTarget.superClassIndex)
  path : use.path.length < 256
  descriptor : use.descriptor.Survives

def FieldValue.Survives : FieldValue → Prop
  | .string value => value.Survives
  | _ => True

def FrameValue.Survives : FrameValue → Prop
  | .object name => name.Survives
  | _ => True

def Frame.Survives (frame : Frame) : Prop :=
  ∀ value ∈ frame.values, value.Survives

structure ClassHeader.Fits (header : ClassHeader) : Prop where
  access : Access.Within (Access.record ||| Access.deprecated) header.access
  name : header.name.Survives
  signature : ∀ signature ∈ header.signature?, signature.Survives
  super : ∀ name ∈ header.super?, name.Survives
  interfaces : ∀ name ∈ header.interfaces, name.Survives

def ClassItem.Fits : ClassItem → Prop
  | .header head => head.Fits
  | .source file? debug? =>
      (file?.isSome ∨ debug?.isSome) ∧ (∀ file ∈ file?, file.Survives) ∧
        ∀ debug ∈ debug?, debug.Survives
  | .nestHost name | .nestMember name | .permittedSubclass name => name.Survives
  | .outerClass owner name? descriptor? =>
      owner.Survives ∧ ∃ method? : Option NameAndType, name? = method?.map NameAndType.name ∧
        descriptor? = method?.map NameAndType.descriptor ∧
          ∀ method ∈ method?, method.name.Survives ∧ method.descriptor.Survives
  | .innerClass entry =>
      entry.name.Survives ∧ (∀ name ∈ entry.outer?, name.Survives) ∧
        ∀ name ∈ entry.inner?, name.Survives

def ModuleItem.Fits : ModuleItem → Prop
  | .mainClass name | .package name | .uses name => name.Survives
  | .requires entry => entry.name.Survives ∧ ∀ version ∈ entry.version?, version.Survives
  | .exports entry | .opens entry =>
      entry.package.Survives ∧ entry.modules.length < 65536 ∧ ∀ name ∈ entry.modules, name.Survives
  | .provides entry =>
      entry.service.Survives ∧ entry.providers.length < 65536 ∧
        ∀ name ∈ entry.providers, name.Survives

def Instruction.Fits : Instruction → Prop
  | .type _ name | .multiArray name _ => name.Survives
  | .field _ member | .method _ member _ => member.Survives
  | .invokeDynamic name descriptor bootstrap arguments =>
      name.Survives ∧ descriptor.Survives ∧ bootstrap.Storable ∧ Constant.AllStorable arguments
  | .loadConstant constant => constant.Storable
  | .frame told => told.Survives
  | _ => True

def MethodItem.Fits : MethodItem → Prop
  | .parameter entry => ∀ name ∈ entry.name?, name.Survives
  | .instruction element => element.Fits
  | .tryCatch block => ∀ name ∈ block.type?, name.Survives
  | .localVariable entry =>
      entry.name.Survives ∧ entry.descriptor.Survives ∧
        ∀ signature ∈ entry.signature?, signature.Survives
  | _ => True

/-- Whether an attribute is kept as it is, and is not one of those that are understood. -/
structure Attribute.Fits (kinds : List AttributeKind) (entry : Attribute) : Prop where
  name : entry.name.Survives
  raw : ∃ bytes, entry.content = .raw bytes
  unknown : entry.inCode = false → ∀ kind ∈ kinds, entry.name ≠ kind.text

structure ComponentHeader.Fits (header : ComponentHeader) : Prop where
  name : header.name.Survives
  descriptor : header.descriptor.Survives
  signature : ∀ signature ∈ header.signature?, signature.Survives

structure FieldHeader.Fits (header : FieldHeader) : Prop where
  access : Access.Within Access.deprecated header.access
  name : header.name.Survives
  descriptor : header.descriptor.Survives
  signature : ∀ signature ∈ header.signature?, signature.Survives
  value : ∀ value ∈ header.value?, value.Survives

structure MethodHeader.Fits (header : MethodHeader) : Prop where
  access : Access.Within Access.deprecated header.access
  name : header.name.Survives
  descriptor : header.descriptor.Survives
  signature : ∀ signature ∈ header.signature?, signature.Survives
  exceptions : ∀ name ∈ header.exceptions, name.Survives

structure ModuleHeader.Fits (header : ModuleHeader) : Prop where
  name : header.name.Survives
  version : ∀ version ∈ header.version?, version.Survives

def Opening.Fits : Opening → Prop
  | .moduleScope head => head.Fits
  | .component head => head.Fits
  | .field head => head.Fits
  | .method head => head.Fits
  | .annotate descriptor _ | .annotateParameter _ descriptor _ => descriptor.Survives
  | .annotateType use | .annotateInstruction use | .annotateLocal use _ => use.Fits
  | .annotateTryCatch use => use.Fits ∧ ∃ block, use.target = .exceptionParameter block
  | .annotationDefault | .nested .. | .array _ => True

/-! ### Items -/

namespace Item

open ClassImage (maxAnnotationLevels)

/-- Whether an item outside of the scopes of members can be written, where attributes of the given kinds
are understood. -/
def Fits (kinds : List AttributeKind) : Item → Prop
  | .event (.classItem item) => item.Fits
  | .event (.moduleItem item) => item.Fits
  | .event (.methodItem item) => item.Fits
  | .event (.attribute entry) => entry.Fits kinds
  | .scope .annotationDefault body => ∃ item, body = [item] ∧ item.IsValue maxAnnotationLevels false
  | .scope opening body => opening.Fits ∧ ∀ item ∈ body, item.IsValue maxAnnotationLevels true
  | _ => True

/-- What can be written is told again by a tree. -/
theorem Fits.keeps {kinds : List AttributeKind} {item : Item} (fits : item.Fits kinds) : item.Keeps := by
  unfold Keeps
  split
  · exact fits.1
  · rcases fits with ⟨value, rfl, isValue⟩
    exact ⟨value, rfl, isValue.isElement⟩
  · exact ⟨fits.1.2, fun item member => (fits.2 item member).isElement⟩
  · rename_i opening body notDefault notTryCatch
    intro item member
    have values : ∀ item ∈ body, item.IsValue maxAnnotationLevels true := by
      cases opening with
      | annotationDefault => exact absurd rfl notDefault
      | _ => exact fits.2
    exact (values item member).isElement
  · trivial

end Item

theorem InTurn.keeps {kinds : List AttributeKind} {turns : List Turn} {items : List Item}
    (inTurn : InTurn (Item.Fits kinds) turns items) : InTurn Item.Keeps turns items :=
  inTurn.weaken fun _ _ fits => fits.keeps

/-! ### What is read fits -/

/-- The index that stands for the super class is never read as that of an interface. -/
theorem TypeTarget.ne_of_read {input : Input} {offset next : Nat} {target : TypeTarget}
    {location : TargetLocation} (found : read input offset = .ok (target, location, next)) :
    target ≠ .classExtends (some superClassIndex) := by
  rintro rfl
  rcases bind_eq_ok.mp found with ⟨byte, -, found⟩
  dsimp only at found
  split at found
  all_goals
    simp [readByteTarget, readPairTarget, readIndexTarget, readVariableTarget, readInstructionTarget,
      readArgumentTarget, bind_eq_ok, pure_eq_ok, -bind_pure_comp] at found

theorem TypePath.length_pairUp (bytes : List UInt8) : (pairUp bytes).length = bytes.length / 2 := by
  induction bytes using pairUp.induct with
  | case1 first second rest ih =>
      rw [pairUp, List.length_cons, ih, List.length_cons, List.length_cons]
      omega
  | case2 bytes short =>
      rcases bytes with _ | ⟨first, _ | ⟨second, rest⟩⟩
      · rfl
      · simp [pairUp]
      · exact absurd rfl (short first second rest)

theorem TypePath.length_lt_of_read {input : Input} {offset next : Nat} {path : TypePath}
    (found : read input offset = .ok (path, next)) : path.length < 256 := by
  simp only [read, bind_eq_ok, pure_eq_ok] at found
  rcases found with ⟨count, -, bytes, held, same⟩
  cases same
  have few := count.toNat_lt
  rw [length, length_pairUp, (Input.bytes_eq_ok.mp held).2.1]
  omega

namespace ClassImage

variable {image : ClassImage} {tag : UInt8} {offset : Nat}

theorem survives_of_textAt {text : Text} (found : image.textAt offset = .ok text) : text.Survives :=
  Pool.survives_of_textRefAt found

theorem survives_of_classAt {name : Text} (found : image.classAt offset = .ok name) : name.Survives := by
  rcases bind_eq_ok.mp found with ⟨index, -, named⟩
  exact Pool.survives_of_classRef named

theorem survives_of_elementConstant? {value : AnnotationConstant}
    (found : image.elementConstant? tag offset = .ok (some value)) : value.Survives := by
  have number : ∀ {α : Type} {look : UInt16 → Except ClassError α} {change : α → AnnotationConstant},
      (do return some (change (← look (← image.input.u16 offset)))) = Except.ok (some value) →
        (∀ number, (change number).Survives) → value.Survives := by
    intro α look change read plain
    simp only [bind_eq_ok, pure_eq_ok, Option.some.injEq] at read
    rcases read with ⟨_, _, number, _, rfl⟩
    exact plain number
  have text : ∀ {change : Text → AnnotationConstant},
      (do return some (change (← image.textAt offset))) = Except.ok (some value) →
        (∀ text : Text, text.Survives → (change text).Survives) → value.Survives := by
    intro change read same
    simp only [bind_eq_ok, pure_eq_ok, Option.some.injEq] at read
    rcases read with ⟨text, named, rfl⟩
    exact same text (survives_of_textAt named)
  unfold elementConstant? at found
  iterate 8
    split at found
    · exact number found fun _ => trivial
  iterate 2
    split at found
    · exact text found fun _ => id
  cases found

theorem fits_of_typeAnnotationHead {visible : Bool} {head : TypeAnnotationHead}
    (found : image.typeAnnotationHead visible offset = .ok head) :
    head.use.Fits ∧ head.use.visible = visible := by
  simp only [typeAnnotationHead, bind_eq_ok, pure_eq_ok] at found
  rcases found with ⟨⟨target, location, next⟩, readTarget, ⟨path, behind⟩, readPath, descriptor, named, rfl⟩
  exact ⟨⟨TypeTarget.ne_of_read readTarget, TypePath.length_lt_of_read readPath, survives_of_textAt named⟩,
    rfl⟩

end ClassImage

end ClassFile
