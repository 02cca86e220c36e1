import ClassFile.Image.Story
import ClassFile.Proofs.Safety.Bodies

/-!
# Telling the story of a class is safe

The attributes of a class and of its members lie inside the file, and what follows from one table to
the next stays near it.  So the script of a class blames only the bytes, at whatever depth.
-/

namespace ClassFile

open Input

namespace Emit

variable {β : Type} {goal : β → Prop}

/-- A step that is left out under some condition. -/
theorem Yields.guarded {condition : Prop} [Decidable condition] {first : Emit Unit}
    {next : Unit → Emit β} (yields : first.Yields fun _ => True) (rest : (next ()).Yields goal) :
    (if condition then first >>= next else next ()).Yields goal := by
  split
  · exact yields.bind fun _ _ => rest
  · exact rest

end Emit

namespace ClassImage

/-! ### Attributes of the class and of its members -/

/-- Whether the contents of the attributes of a class lie inside a file. -/
structure ClassAttributes.AreInside (attributes : ClassAttributes) (input : Input) : Prop where
  common : attributes.common.AreInside input
  sourceFile : ∀ offset ∈ attributes.sourceFile?, offset ≤ input.size
  sourceDebug : ∀ entry ∈ attributes.sourceDebug?, entry.IsInside input
  module : ∀ offset ∈ attributes.module?, offset ≤ input.size
  modulePackages : ∀ offset ∈ attributes.modulePackages?, offset ≤ input.size
  moduleMainClass : ∀ offset ∈ attributes.moduleMainClass?, offset ≤ input.size
  nestHost : ∀ offset ∈ attributes.nestHost?, offset ≤ input.size
  enclosingMethod : ∀ offset ∈ attributes.enclosingMethod?, offset ≤ input.size
  nestMembers : ∀ offset ∈ attributes.nestMembers?, offset ≤ input.size
  permittedSubclasses : ∀ offset ∈ attributes.permittedSubclasses?, offset ≤ input.size
  innerClasses : ∀ offset ∈ attributes.innerClasses?, offset ≤ input.size
  record : ∀ offset ∈ attributes.record?, offset ≤ input.size

/-- Whether the contents of the attributes of a field lie inside a file. -/
def FieldAttributes.AreInside (attributes : FieldAttributes) (input : Input) : Prop :=
  attributes.common.AreInside input

/-- Whether the contents of the attributes of a method lie inside a file. -/
structure MethodAttributes.AreInside (attributes : MethodAttributes) (input : Input) : Prop where
  common : attributes.common.AreInside input
  code : ∀ entry ∈ attributes.code?, entry.IsInside input
  exceptions : ∀ offset ∈ attributes.exceptions?, offset ≤ input.size
  parameters : ∀ offset ∈ attributes.parameters?, offset ≤ input.size
  annotationDefault : ∀ offset ∈ attributes.annotationDefault?, offset ≤ input.size
  visibleParameters : ∀ offset ∈ attributes.visibleParameters?, offset ≤ input.size
  invisibleParameters : ∀ offset ∈ attributes.invisibleParameters?, offset ≤ input.size

section Attributes

variable {input : Input} {entry : RawAttribute} {entries : List RawAttribute}

theorem ClassAttributes.AreInside.add {attributes : ClassAttributes}
    (inside : attributes.AreInside input) (entryInside : entry.IsInside input) :
    (attributes.add entry).AreInside input := by
  have starts := entryInside.starts
  unfold ClassAttributes.add
  split
  · exact { inside with sourceFile := starts }
  · exact { inside with sourceDebug := by rintro _ ⟨⟩; exact entryInside }
  · exact { inside with module := starts }
  · exact { inside with modulePackages := starts }
  · exact { inside with moduleMainClass := starts }
  · exact { inside with nestHost := starts }
  · exact { inside with enclosingMethod := starts }
  · exact { inside with nestMembers := starts }
  · exact { inside with permittedSubclasses := starts }
  · exact { inside with innerClasses := starts }
  · exact { inside with record := starts }
  · exact inside
  · exact { inside with common := inside.common.add entryInside }

theorem MethodAttributes.AreInside.add {attributes : MethodAttributes}
    (inside : attributes.AreInside input) (entryInside : entry.IsInside input) :
    (attributes.add entry).AreInside input := by
  have starts := entryInside.starts
  unfold MethodAttributes.add
  split
  · exact { inside with code := by rintro _ ⟨⟩; exact entryInside }
  · exact { inside with exceptions := starts }
  · exact { inside with parameters := starts }
  · exact { inside with annotationDefault := starts }
  · exact { inside with visibleParameters := starts }
  · exact { inside with invisibleParameters := starts }
  · exact { inside with common := inside.common.add entryInside }

theorem ClassAttributes.areInside_empty : ({} : ClassAttributes).AreInside input := by
  constructor
  case common => exact CommonAttributes.areInside_empty
  all_goals simp

theorem ClassAttributes.areInside_foldl (inside : ∀ entry ∈ entries, entry.IsInside input) :
    (entries.foldl ClassAttributes.add {}).AreInside input :=
  List.foldlRecOn (motive := fun attributes : ClassAttributes => attributes.AreInside input) entries _
    areInside_empty fun _ before entry member => before.add (inside entry member)

theorem MethodAttributes.areInside_empty : ({} : MethodAttributes).AreInside input := by
  constructor
  case common => exact CommonAttributes.areInside_empty
  all_goals simp

theorem MethodAttributes.areInside_foldl (inside : ∀ entry ∈ entries, entry.IsInside input) :
    (entries.foldl MethodAttributes.add {}).AreInside input :=
  List.foldlRecOn (motive := fun attributes : MethodAttributes => attributes.AreInside input) entries _
    areInside_empty fun _ before entry member => before.add (inside entry member)

theorem areInside_foldl (inside : ∀ entry ∈ entries, entry.IsInside input) :
    (entries.foldl CommonAttributes.add {}).AreInside input :=
  List.foldlRecOn (motive := fun common : CommonAttributes => common.AreInside input) entries _
    CommonAttributes.areInside_empty fun _ before entry member => before.add (inside entry member)

end Attributes

variable {image : ClassImage} {offset : Nat} {options : ReadOptions} (safe : image.IsSafe)

include safe

theorem IsSafe.yields_readClasses {found : List Text} {count : Nat} (near : image.input.Near offset) :
    Yields (image.readClasses offset found count) fun _ => True := by
  induction count generalizing offset found with
  | zero => exact trivial
  | succ count ih =>
      rw [readClasses]
      exact (safe.yields_classAt near).bind fun name read => ih (by omega)

theorem IsSafe.yields_classTable (near : image.input.Near offset) :
    Yields (image.classTable offset) fun _ => True := by
  have small := safe.small
  exact (yields_u16 (by omega)).bind fun count read => safe.yields_readClasses (by omega)

theorem IsSafe.yields_textIfPresent {place? : Option Nat}
    (inside : ∀ offset ∈ place?, offset ≤ image.input.size) :
    Yields (image.textIfPresent place?) fun _ => True := by
  cases place? with
  | none => exact trivial
  | some offset =>
      have place := inside offset rfl
      exact Yields.map ((safe.yields_textAt (by omega)).any)

/-! ### The module declaration -/

omit safe in
theorem yields_tellModuleItem (item : ModuleItem) : (tellModuleItem item).Yields fun _ => True :=
  Emit.yields_tell _

theorem IsSafe.yields_tellPackages {count : Nat} (near : image.input.Near offset) :
    (image.tellPackages offset count).Yields fun _ => True := by
  have small := safe.small
  induction count generalizing offset with
  | zero => exact .pure trivial
  | succ count ih =>
      rw [tellPackages]
      refine .bind_lift (yields_u16 (by omega)) fun index read => ?_
      refine .bind_lift safe.pool.yields_named fun name _ => ?_
      exact (yields_tellModuleItem _).bind fun _ _ => ih (by omega)

theorem IsSafe.yields_tellRequirements {count : Nat} (near : image.input.Near offset) :
    (image.tellRequirements offset count).Yields fun next => image.input.Near next := by
  have small := safe.small
  induction count generalizing offset with
  | zero => exact .pure near
  | succ count ih =>
      rw [tellRequirements]
      refine .bind_lift (yields_u16 (by omega)) fun index read => ?_
      refine .bind_lift safe.pool.yields_named fun name _ => ?_
      refine .bind_lift (yields_u16 (by omega)) fun access _ => ?_
      refine .bind_lift (yields_u16 (by omega)) fun version _ => ?_
      refine .bind_lift (Pool.yields_optional safe.pool.yields_text) fun version? _ => ?_
      exact (yields_tellModuleItem _).bind fun _ _ => ih (by omega)

theorem IsSafe.yields_readModules {found : List Text} {count : Nat} (near : image.input.Near offset) :
    Yields (image.readModules offset found count) fun _ => True := by
  have small := safe.small
  induction count generalizing offset found with
  | zero => exact trivial
  | succ count ih =>
      rw [readModules]
      refine (yields_u16 (by omega)).bind fun index read => ?_
      exact safe.pool.yields_named.bind fun name _ => ih (by omega)

theorem IsSafe.yields_tellRelations {item : Relation → ModuleItem} {count : Nat}
    (near : image.input.Near offset) :
    (image.tellRelations item offset count).Yields fun next => image.input.Near next := by
  have small := safe.small
  induction count generalizing offset with
  | zero => exact .pure near
  | succ count ih =>
      rw [tellRelations]
      refine .bind_lift (yields_u16 (by omega)) fun index _ => ?_
      refine .bind_lift safe.pool.yields_named fun package _ => ?_
      refine .bind_lift (yields_u16 (by omega)) fun access _ => ?_
      refine .bind_lift (yields_u16 (by omega)) fun size ⟨read, few⟩ => ?_
      refine .bind_lift (safe.yields_readModules (by omega)) fun modules _ => ?_
      exact (yields_tellModuleItem _).bind fun _ _ => ih (by omega)

theorem IsSafe.yields_tellUses {count : Nat} (near : image.input.Near offset) :
    (image.tellUses offset count).Yields fun next => image.input.Near next := by
  induction count generalizing offset with
  | zero => exact .pure near
  | succ count ih =>
      rw [tellUses]
      refine .bind_lift (safe.yields_classAt near) fun service read => ?_
      exact (yields_tellModuleItem _).bind fun _ _ => ih (by omega)

theorem IsSafe.yields_tellProvisions {count : Nat} (near : image.input.Near offset) :
    (image.tellProvisions offset count).Yields fun _ => True := by
  have small := safe.small
  induction count generalizing offset with
  | zero => exact .pure trivial
  | succ count ih =>
      rw [tellProvisions]
      refine .bind_lift (safe.yields_classAt near) fun service _ => ?_
      refine .bind_lift (yields_u16 (by omega)) fun size ⟨read, few⟩ => ?_
      refine .bind_lift (safe.yields_readClasses (by omega)) fun providers _ => ?_
      exact (yields_tellModuleItem _).bind fun _ _ => ih (by omega)

theorem IsSafe.yields_tellModuleBody {attributes : ClassAttributes}
    (inside : attributes.AreInside image.input) (near : image.input.Near (offset + 6)) :
    (image.tellModuleBody attributes offset).Yields fun _ => True := by
  have small := safe.small
  unfold tellModuleBody
  refine (yields_tellIfPresent fun place present => ?_).bind fun _ _ => ?_
  · have known := inside.moduleMainClass place present
    exact .bind_lift (safe.yields_classAt (by omega)) fun name _ => yields_tellModuleItem _
  refine (yields_tellIfPresent fun place present => ?_).bind fun _ _ => ?_
  · have known := inside.modulePackages place present
    exact .bind_lift (yields_u16 (by omega)) fun count read => safe.yields_tellPackages (by omega)
  refine .bind_lift (yields_u16 (by omega)) fun count read => ?_
  refine (safe.yields_tellRequirements (by omega)).bind fun current nearRequired => ?_
  refine .bind_lift (yields_u16 (by omega)) fun count read => ?_
  refine (safe.yields_tellRelations (by omega)).bind fun current nearExports => ?_
  refine .bind_lift (yields_u16 (by omega)) fun count read => ?_
  refine (safe.yields_tellRelations (by omega)).bind fun current nearOpens => ?_
  refine .bind_lift (yields_u16 (by omega)) fun count read => ?_
  refine (safe.yields_tellUses (by omega)).bind fun current nearUses => ?_
  refine .bind_lift (yields_u16 (by omega)) fun count read => ?_
  exact safe.yields_tellProvisions (by omega)

theorem IsSafe.yields_tellModule {attributes : ClassAttributes}
    (inside : attributes.AreInside image.input) (near : image.input.Near offset) :
    (image.tellModule attributes offset).Yields fun _ => True := by
  have small := safe.small
  unfold tellModule
  refine .bind_lift (yields_u16 (by omega)) fun index _ => ?_
  refine .bind_lift safe.pool.yields_named fun name _ => ?_
  refine .bind_lift (yields_u16 (by omega)) fun access _ => ?_
  refine .bind_lift (yields_u16 (by omega)) fun version read => ?_
  refine .bind_lift (Pool.yields_optional safe.pool.yields_text) fun version? _ => ?_
  exact .member (safe.yields_tellModuleBody inside (by omega))

/-! ### Members -/

theorem IsSafe.yields_tellMemberBody {common : CommonAttributes} (decodes : options.DecodesSafely)
    (inside : common.AreInside image.input) :
    (image.tellMemberBody options common).Yields fun _ => True :=
  (safe.yields_tellAnnotations inside).bind fun _ _ => safe.yields_tellOthers decodes inside

theorem IsSafe.yields_tellComponents {count : Nat} (decodes : options.DecodesSafely)
    (near : image.input.Near offset) :
    (image.tellComponents options offset count).Yields fun _ => True := by
  induction count generalizing offset with
  | zero => exact .pure trivial
  | succ count ih =>
      rw [tellComponents]
      refine .bind_lift (safe.yields_textAt near) fun name _ => ?_
      refine .bind_lift (safe.yields_textAt (by omega)) fun descriptor read => ?_
      refine .bind_lift (safe.yields_attributes (by omega)) fun ⟨entries, next⟩ ⟨inside, nearNext⟩ => ?_
      have common := areInside_foldl inside
      refine .bind_lift (safe.yields_textIfPresent common.signature) fun signature? _ => ?_
      exact (Emit.Yields.member (safe.yields_tellMemberBody decodes common)).bind fun _ _ => ih nearNext

theorem IsSafe.yields_fieldValue {index : UInt16} :
    Yields (image.fieldValue index) fun _ => True := by
  unfold fieldValue
  refine safe.pool.yields_tag.bind fun tag _ => ?_
  split
  · exact safe.pool.yields_integer.last
  · exact safe.pool.yields_float.last
  · exact safe.pool.yields_long.last
  · exact safe.pool.yields_double.last
  · exact safe.pool.yields_named.last
  · exact rfl

theorem IsSafe.yields_addFieldAttribute {attributes : FieldAttributes} {entry : RawAttribute}
    (inside : attributes.AreInside image.input) (entryInside : entry.IsInside image.input) :
    Yields (image.addFieldAttribute attributes entry) fun next => next.AreInside image.input := by
  have small := safe.small
  unfold addFieldAttribute
  split
  · have start := entryInside.starts _ rfl
    exact (yields_u16 (by omega)).bind fun index _ => inside
  · exact inside.add entryInside

theorem IsSafe.yields_tellFields {count : Nat} (decodes : options.DecodesSafely)
    (near : image.input.Near offset) :
    (image.tellFields options offset count).Yields fun next => image.input.Near next := by
  have small := safe.small
  induction count generalizing offset with
  | zero => exact .pure near
  | succ count ih =>
      rw [tellFields]
      refine .bind_lift (yields_u16 (by omega)) fun access _ => ?_
      refine .bind_lift (safe.yields_textAt (by omega)) fun name _ => ?_
      refine .bind_lift (safe.yields_textAt (by omega)) fun descriptor read => ?_
      refine .bind_lift (safe.yields_attributes (by omega)) fun ⟨entries, next⟩ ⟨inside, nearNext⟩ => ?_
      refine .bind_lift (@Yields.foldlM _ _ (fun attributes => attributes.AreInside image.input) _ _ _
        CommonAttributes.areInside_empty fun attributes before entry member =>
          safe.yields_addFieldAttribute before (inside entry member)) fun attributes common => ?_
      refine .bind_lift (safe.yields_textIfPresent common.signature) fun signature? _ => ?_
      have rest (value? : Option FieldValue) : (do
          Emit.member (.field ⟨access.toUInt32 ||| attributes.common.accessFlags, name, descriptor,
            signature?, value?⟩) (image.tellMemberBody options attributes.common)
          image.tellFields options next count : Emit Nat).Yields fun next => image.input.Near next :=
        (Emit.Yields.member (safe.yields_tellMemberBody decodes common)).bind fun _ _ => ih nearNext
      split
      · exact .bind_lift safe.yields_fieldValue fun value _ => rest (some value)
      · exact rest none

theorem IsSafe.yields_tellParameters {count : Nat} (near : image.input.Near offset) :
    (image.tellParameters offset count).Yields fun _ => True := by
  have small := safe.small
  induction count generalizing offset with
  | zero => exact .pure trivial
  | succ count ih =>
      rw [tellParameters]
      refine .bind_lift (yields_u16 (by omega)) fun index _ => ?_
      refine .bind_lift (Pool.yields_optional safe.pool.yields_text) fun name? _ => ?_
      refine .bind_lift (yields_u16 (by omega)) fun access read => ?_
      exact (yields_tellItem _).bind fun _ _ => ih (by omega)

theorem IsSafe.yields_tellParameterTables {visible : Bool} {parameter : UInt8} {count : Nat}
    (near : image.input.Near offset) :
    (image.tellParameterTables visible parameter offset count).Yields fun _ => True := by
  induction count generalizing offset parameter with
  | zero => exact .pure trivial
  | succ count ih =>
      rw [tellParameterTables]
      exact (safe.yields_tellAnnotationTable near).bind fun next nearNext => ih nearNext

theorem IsSafe.yields_tellParameterAnnotations {visible : Bool} (near : image.input.Near offset) :
    (image.tellParameterAnnotations visible offset).Yields fun _ => True := by
  have small := safe.small
  unfold tellParameterAnnotations
  refine .bind_lift (yields_u8 (by omega)) fun count read => ?_
  exact (yields_tellItem _).bind fun _ _ => safe.yields_tellParameterTables (by omega)

theorem IsSafe.yields_tellMethodBody {attributes : MethodAttributes}
    (supports : options.api.supports .v7 = true) (decodes : options.DecodesSafely)
    (inside : attributes.AreInside image.input) :
    (image.tellMethodBody options attributes).Yields fun _ => True := by
  have small := safe.small
  unfold tellMethodBody
  refine .guarded (yields_tellIfPresent fun place present => ?_) ?_
  · have known := inside.parameters place present
    exact .bind_lift (yields_u8 (by omega)) fun count read => safe.yields_tellParameters (by omega)
  refine (yields_tellIfPresent fun place present => ?_).bind fun _ _ => ?_
  · have known := inside.annotationDefault place present
    exact (Emit.Yields.eager (safe.yields_tellElement (by omega))).discard
  refine (safe.yields_tellAnnotations inside.common).bind fun _ _ => ?_
  refine (yields_tellIfPresent fun place present => ?_).bind fun _ _ => ?_
  · have known := inside.visibleParameters place present
    exact safe.yields_tellParameterAnnotations (by omega)
  refine (yields_tellIfPresent fun place present => ?_).bind fun _ _ => ?_
  · have known := inside.invisibleParameters place present
    exact safe.yields_tellParameterAnnotations (by omega)
  refine (safe.yields_tellOthers decodes inside.common).bind fun _ _ => ?_
  split
  · split
    · rename_i entry found
      exact safe.yields_tellCode supports decodes (inside.code entry found)
    · exact .pure trivial
  · exact .pure trivial

theorem IsSafe.yields_tellMethods {count : Nat} (supports : options.api.supports .v7 = true)
    (decodes : options.DecodesSafely) (near : image.input.Near offset) :
    (image.tellMethods options offset count).Yields fun _ => True := by
  have small := safe.small
  induction count generalizing offset with
  | zero => exact .pure trivial
  | succ count ih =>
      rw [tellMethods]
      refine .bind_lift (yields_u16 (by omega)) fun access _ => ?_
      refine .bind_lift (safe.yields_textAt (by omega)) fun name _ => ?_
      refine .bind_lift (safe.yields_textAt (by omega)) fun descriptor read => ?_
      refine .bind_lift (safe.yields_attributes (by omega)) fun ⟨entries, next⟩ ⟨inside, nearNext⟩ => ?_
      have attributes := MethodAttributes.areInside_foldl inside
      refine .bind_lift (safe.yields_textIfPresent attributes.common.signature) fun signature? _ => ?_
      have body := safe.yields_tellMethodBody supports decodes attributes
      split
      · rename_i place found
        have known := attributes.exceptions place found
        refine .bind_lift (safe.yields_classTable (by omega)) fun exceptions _ => ?_
        exact (Emit.Yields.member body).bind fun _ _ => ih nearNext
      · exact (Emit.Yields.member body).bind fun _ _ => ih nearNext

/-! ### The class -/

omit safe in
theorem yields_tellClassItem (item : ClassItem) : (tellClassItem item).Yields fun _ => True :=
  Emit.yields_tell _

theorem IsSafe.yields_tellSource {attributes : ClassAttributes}
    (inside : attributes.AreInside image.input) :
    (image.tellSource attributes).Yields fun _ => True := by
  have small := safe.small
  unfold tellSource
  split
  · refine .bind_lift (safe.yields_textIfPresent inside.sourceFile) fun file? _ => ?_
    split
    · exact yields_tellClassItem _
    · rename_i entry found
      have bound : entry.offset + entry.length ≤ image.input.size := inside.sourceDebug entry found
      refine .bind_lift (yields_bytes (by omega) _) fun bytes _ => ?_
      split
      · exact yields_tellClassItem _
      · exact .throw rfl
  · exact .pure trivial

theorem IsSafe.yields_tellOuterClass (near : image.input.Near offset) :
    (image.tellOuterClass offset).Yields fun _ => True := by
  have small := safe.small
  unfold tellOuterClass
  refine .bind_lift (safe.yields_classAt near) fun owner read => ?_
  refine .bind_lift (yields_u16 (by omega)) fun index _ => ?_
  refine .bind_lift (Pool.yields_optional safe.pool.yields_nameAndType) fun method? _ => ?_
  exact yields_tellClassItem _

theorem IsSafe.yields_tellInnerClasses {count : Nat} (near : image.input.Near offset) :
    (image.tellInnerClasses offset count).Yields fun _ => True := by
  have small := safe.small
  induction count generalizing offset with
  | zero => exact .pure trivial
  | succ count ih =>
      rw [tellInnerClasses]
      refine .bind_lift (safe.yields_classAt near) fun name _ => ?_
      refine .bind_lift (yields_u16 (by omega)) fun outer _ => ?_
      refine .bind_lift (Pool.yields_optional safe.pool.yields_named) fun outer? _ => ?_
      refine .bind_lift (yields_u16 (by omega)) fun inner _ => ?_
      refine .bind_lift (Pool.yields_optional safe.pool.yields_text) fun inner? _ => ?_
      refine .bind_lift (yields_u16 (by omega)) fun access read => ?_
      exact (yields_tellClassItem _).bind fun _ _ => ih (by omega)

theorem IsSafe.yields_tellMembers (supports : options.api.supports .v7 = true)
    (decodes : options.DecodesSafely) : (image.tellMembers options).Yields fun _ => True := by
  have small := safe.small
  have header := safe.header
  unfold tellMembers
  refine .bind_lift (yields_u16 (by omega)) fun interfaces ⟨read, few⟩ => ?_
  refine .bind_lift (yields_u16 (by omega)) fun fields _ => ?_
  refine (safe.yields_tellFields decodes (by omega)).bind fun next nearNext => ?_
  refine .bind_lift (yields_u16 (by omega)) fun methods read => ?_
  exact safe.yields_tellMethods supports decodes (by omega)

theorem IsSafe.yields_interfaces : Yields image.interfaces fun names =>
    ∀ name ∈ names, Yields name fun _ => True := by
  have small := safe.small
  have header := safe.header
  refine (yields_u16 (by omega)).bind fun count ⟨read, few⟩ => ?_
  intro name member
  obtain ⟨position, inRange, rfl⟩ := List.mem_map.mp member
  have bound := List.mem_range.mp inRange
  exact (safe.yields_classAt (by omega)).any

theorem IsSafe.yields_access : Yields image.access fun _ => True := by
  have small := safe.small
  have header := safe.header
  have known : image.headerOffset ≤ 18446744073709551615 := by omega
  exact Yields.map (yields_u16 known).any

theorem IsSafe.yields_name : Yields image.name fun _ => True := by
  have small := safe.small
  have header := safe.header
  exact (yields_u16 (by omega)).bind fun index _ => safe.pool.yields_named

theorem IsSafe.yields_super : Yields image.super? fun _ => True := by
  have small := safe.small
  have header := safe.header
  exact (yields_u16 (by omega)).bind fun index _ => Pool.yields_optional safe.pool.yields_named

/-- The story of a class is told to its end, or the bytes are found malformed. -/
theorem IsSafe.yields_tell (supports : options.api.supports .v7 = true)
    (decodes : options.DecodesSafely) : (image.tell options).Yields fun _ => True := by
  have small := safe.small
  have header := safe.header
  have place := safe.attributes
  unfold tell
  refine .bind_lift safe.yields_access fun access _ => ?_
  refine .bind_lift safe.yields_name fun name _ => ?_
  refine .bind_lift safe.yields_super fun super? _ => ?_
  refine .bind_lift safe.yields_interfaces fun names each => ?_
  refine .bind_lift (Yields.mapM each) fun interfaces _ => ?_
  refine .bind_lift (safe.yields_attributes place) fun ⟨entries, _⟩ ⟨inside, _⟩ => ?_
  have attributes := ClassAttributes.areInside_foldl inside
  have common := attributes.common
  have classes (item : Text → ClassItem) {offset : Nat} (known : offset ≤ image.input.size) : (do
      let names ← image.classTable offset
      names.forM fun name => tellClassItem (item name) : Emit Unit).Yields fun _ => True :=
    .bind_lift (safe.yields_classTable (by omega)) fun names _ =>
      .forM fun name _ => yields_tellClassItem _
  refine .bind_lift (safe.yields_textIfPresent common.signature) fun signature? _ => ?_
  refine (yields_tellClassItem _).bind fun _ _ => ?_
  refine .guarded (safe.yields_tellSource attributes) ?_
  refine .guarded (yields_tellIfPresent fun offset present => ?_) ?_
  · have known := attributes.module offset present
    exact safe.yields_tellModule attributes (by omega)
  refine .guarded (yields_tellIfPresent fun offset present => ?_) ?_
  · have known := attributes.nestHost offset present
    exact .bind_lift (safe.yields_classAt (by omega)) fun host _ => yields_tellClassItem _
  refine (yields_tellIfPresent fun offset present => ?_).bind fun _ _ => ?_
  · have known := attributes.enclosingMethod offset present
    exact safe.yields_tellOuterClass (by omega)
  refine (safe.yields_tellAnnotations common).bind fun _ _ => ?_
  refine (safe.yields_tellOthers decodes common).bind fun _ _ => ?_
  refine .guarded (yields_tellIfPresent fun offset present => ?_) ?_
  · exact classes .nestMember (attributes.nestMembers offset present)
  refine .guarded (yields_tellIfPresent fun offset present => ?_) ?_
  · exact classes .permittedSubclass (attributes.permittedSubclasses offset present)
  refine (yields_tellIfPresent fun offset present => ?_).bind fun _ _ => ?_
  · have known := attributes.innerClasses offset present
    exact .bind_lift (yields_u16 (by omega)) fun count read =>
      safe.yields_tellInnerClasses (by omega)
  refine .guarded (yields_tellIfPresent fun offset present => ?_) ?_
  · have known := attributes.record offset present
    exact .bind_lift (yields_u16 (by omega)) fun count read =>
      safe.yields_tellComponents decodes (by omega)
  exact (safe.yields_tellMembers supports decodes).bind fun _ _ => Emit.yields_tell _

/-- Whatever goes wrong in the story of a class, at whatever depth, the bytes are to blame. -/
theorem IsSafe.blamesBytes_of_mem_script (supports : options.api.supports .v7 = true)
    (decodes : options.DecodesSafely) : ∀ item ∈ image.script options, item.BlamesBytes :=
  (safe.yields_tell supports decodes).collect.1

end ClassImage

end ClassFile
