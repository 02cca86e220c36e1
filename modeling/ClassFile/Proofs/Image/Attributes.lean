import ClassFile.Image.Story
import ClassFile.Proofs.Text
import Mathlib.Data.List.Induction

/-!
# Sorting attributes

A reader goes through a table of attributes and keeps, of every kind that it understands, the last, and
all those that it does not understand.  Which kinds it understands depends on where the table stands
(`AttributeKind.ofClass` and the others), and the order between the kinds does not matter.
-/

namespace ClassFile

namespace AttributeKind

/-- What any part of a class can carry. -/
def ofAny : List AttributeKind :=
  [.signature, .deprecated, .synthetic, .runtimeVisibleAnnotations, .runtimeInvisibleAnnotations,
    .runtimeVisibleTypeAnnotations, .runtimeInvisibleTypeAnnotations]

def ofField : List AttributeKind :=
  .constantValue :: ofAny

def ofMethod : List AttributeKind :=
  [.code, .exceptions, .methodParameters, .annotationDefault, .runtimeVisibleParameterAnnotations,
    .runtimeInvisibleParameterAnnotations] ++ ofAny

def ofClass : List AttributeKind :=
  [.sourceFile, .sourceDebugExtension, .moduleDeclaration, .modulePackages, .moduleMainClass, .nestHost,
    .enclosingMethod, .nestMembers, .permittedSubclasses, .innerClasses, .record, .bootstrapMethods] ++
    ofAny

theorem ofStored?_eq_some {stored : List UInt8} {kind : AttributeKind} :
    ofStored? stored = some kind ↔ stored = kind.text.bytes := by
  constructor
  · intro found
    rw [ofStored?, Option.map_eq_some_iff] at found
    rcases found with ⟨⟨_, name⟩, found, rfl⟩
    have same := List.find?_some found
    have member := List.mem_of_find?_eq_some found
    simp only [storedNames, List.mem_map, Prod.mk.injEq] at member
    rcases member with ⟨_, -, rfl, rfl⟩
    exact (eq_of_beq same).symm
  · rintro rfl
    exact ofStored?_bytes kind

/-- The kind of an attribute is a matter of its name. -/
theorem ofStored?_of_decode {stored : List UInt8} {name : Text} {kind : AttributeKind}
    (decoded : Text.decode stored = .ok name) : ofStored? stored = some kind ↔ name = kind.text := by
  rw [ofStored?_eq_some]
  constructor
  · rintro rfl
    have again := kind.text_survives
    rw [Text.Survives, Text.encode_of_isAscii kind.text_isAscii, decoded] at again
    exact Except.ok.inj again
  · rintro rfl
    exact Text.eq_of_decode kind.text_isAscii decoded

theorem text_injective {first second : AttributeKind} (same : first.text = second.text) :
    first = second := by
  have found := first.ofStored?_bytes
  rw [same, second.ofStored?_bytes] at found
  exact (Option.some.inj found).symm

end AttributeKind

namespace RawAttribute

/-- The last attribute of a kind. -/
def last? (kind : AttributeKind) (entries : List RawAttribute) : Option RawAttribute :=
  (entries.filter fun entry => entry.kind? = some kind).getLast?

/-- The attributes that are of none of the kinds. -/
def others (kinds : List AttributeKind) (entries : List RawAttribute) : List RawAttribute :=
  entries.filter fun entry => ∀ kind ∈ kinds, entry.kind? ≠ some kind

variable {kind : AttributeKind} {kinds : List AttributeKind} {entries : List RawAttribute}
  {entry : RawAttribute}

@[simp]
theorem last?_nil : last? kind [] = none :=
  rfl

@[simp]
theorem others_nil : others kinds [] = [] :=
  rfl

theorem last?_concat : last? kind (entries ++ [entry]) =
    if entry.kind? = some kind then some entry else last? kind entries := by
  unfold last?
  split
  · rename_i isKind
    simp [isKind]
  · rename_i notKind
    simp [notKind]

theorem others_concat : others kinds (entries ++ [entry]) =
    others kinds entries ++ if ∀ kind ∈ kinds, entry.kind? ≠ some kind then [entry] else [] := by
  unfold others
  rw [List.filter_append, List.filter_singleton]
  split
  · rename_i isOther
    rw [decide_eq_true isOther, cond_true]
  · rename_i notOther
    rw [decide_eq_false notOther, cond_false]

end RawAttribute

open RawAttribute

/-- What is kept of attributes that any part of a class can carry; attributes of the given kinds are
understood. -/
structure CommonAttributes.Sorts (kinds : List AttributeKind) (entries : List RawAttribute)
    (common : CommonAttributes) : Prop where
  signature : common.signature? = (last? .signature entries).map RawAttribute.offset
  deprecated : common.deprecated = (last? .deprecated entries).isSome
  synthetic : common.synthetic = (last? .synthetic entries).isSome
  visible : common.visibleAnnotations? =
    (last? .runtimeVisibleAnnotations entries).map RawAttribute.offset
  invisible : common.invisibleAnnotations? =
    (last? .runtimeInvisibleAnnotations entries).map RawAttribute.offset
  visibleTypes : common.visibleTypeAnnotations? =
    (last? .runtimeVisibleTypeAnnotations entries).map RawAttribute.offset
  invisibleTypes : common.invisibleTypeAnnotations? =
    (last? .runtimeInvisibleTypeAnnotations entries).map RawAttribute.offset
  others : common.others = (RawAttribute.others kinds entries).reverse

namespace CommonAttributes

variable {kinds : List AttributeKind} {entries : List RawAttribute} {common : CommonAttributes}
  {entry : RawAttribute}

theorem sorts_nil (kinds : List AttributeKind) : Sorts kinds [] {} :=
  ⟨rfl, rfl, rfl, rfl, rfl, rfl, rfl, rfl⟩

theorem Sorts.add (sorts : Sorts kinds entries common) (all : ∀ kind ∈ AttributeKind.ofAny, kind ∈ kinds)
    (notOwn : ∀ kind ∈ kinds, entry.kind? = some kind → kind ∈ AttributeKind.ofAny) :
    Sorts kinds (entries ++ [entry]) (common.add entry) := by
  rcases sorts with ⟨signature, deprecated, synthetic, visible, invisible, visibleTypes, invisibleTypes,
    others⟩
  unfold CommonAttributes.add
  split
  case h_8 =>
    -- None of the kinds that are understood.
    rename_i none₁ none₂ none₃ none₄ none₅ none₆ none₇
    have isOther : ∀ kind ∈ kinds, entry.kind? ≠ some kind := by
      intro kind member isKind
      have common := notOwn kind member isKind
      simp only [AttributeKind.ofAny, List.mem_cons, List.not_mem_nil, or_false] at common
      rcases common with rfl | rfl | rfl | rfl | rfl | rfl | rfl
      · exact none₁ isKind
      · exact none₂ isKind
      · exact none₃ isKind
      · exact none₄ isKind
      · exact none₅ isKind
      · exact none₆ isKind
      · exact none₇ isKind
    constructor
    case others => simp [others_concat, if_pos isOther, others]
    all_goals
      simp only [imp_false] at *
      simp [last?_concat, *]
  all_goals
    rename_i isKind
    have notOther : ¬∀ kind ∈ kinds, entry.kind? ≠ some kind := by
      intro isOther
      exact isOther _ (all _ (by simp [AttributeKind.ofAny])) isKind
    constructor
    case others => simp [others_concat, if_neg notOther, others]
    all_goals simp [last?_concat, *]

/-- What stands only where the table is leaves the common attributes as they are. -/
theorem Sorts.skip (sorts : Sorts kinds entries common) {kind : AttributeKind}
    (isKind : entry.kind? = some kind) (own : kind ∈ kinds) (notCommon : kind ∉ AttributeKind.ofAny) :
    Sorts kinds (entries ++ [entry]) common := by
  have notOther : ¬∀ kind ∈ kinds, entry.kind? ≠ some kind := fun isOther => isOther kind own isKind
  have apart : ∀ other ∈ AttributeKind.ofAny, kind ≠ other := by
    rintro other member rfl
    exact notCommon member
  simp only [AttributeKind.ofAny, List.forall_mem_cons] at apart
  rcases sorts with ⟨signature, deprecated, synthetic, visible, invisible, visibleTypes, invisibleTypes,
    others⟩
  constructor
  case others => simp [others_concat, if_neg notOther, others]
  all_goals simp [last?_concat, *]

theorem sorts_foldl (entries : List RawAttribute) :
    Sorts AttributeKind.ofAny entries (entries.foldl CommonAttributes.add {}) := by
  induction entries using List.reverseRecOn with
  | nil => exact sorts_nil _
  | append_singleton entries entry ih =>
      rw [List.foldl_append]
      exact ih.add (fun _ => id) fun _ member _ => member

end CommonAttributes

namespace ClassImage

/-- What is kept of the attributes of a field. -/
structure FieldAttributes.Sorts (image : ClassImage) (entries : List RawAttribute)
    (attributes : FieldAttributes) : Prop where
  common : attributes.common.Sorts AttributeKind.ofField entries
  value : match last? .constantValue entries with
    | none => attributes.value? = none
    | some entry => ∃ index, image.input.u16 entry.offset = .ok index ∧ attributes.value? = some index

/-- What is kept of the attributes of a method. -/
structure MethodAttributes.Sorts (entries : List RawAttribute) (attributes : MethodAttributes) :
    Prop where
  common : attributes.common.Sorts AttributeKind.ofMethod entries
  code : attributes.code? = last? .code entries
  exceptions : attributes.exceptions? = (last? .exceptions entries).map RawAttribute.offset
  parameters : attributes.parameters? = (last? .methodParameters entries).map RawAttribute.offset
  annotationDefault : attributes.annotationDefault? =
    (last? .annotationDefault entries).map RawAttribute.offset
  visibleParameters : attributes.visibleParameters? =
    (last? .runtimeVisibleParameterAnnotations entries).map RawAttribute.offset
  invisibleParameters : attributes.invisibleParameters? =
    (last? .runtimeInvisibleParameterAnnotations entries).map RawAttribute.offset

/-- What is kept of the attributes of a class. -/
structure ClassAttributes.Sorts (entries : List RawAttribute) (attributes : ClassAttributes) : Prop where
  common : attributes.common.Sorts AttributeKind.ofClass entries
  sourceFile : attributes.sourceFile? = (last? .sourceFile entries).map RawAttribute.offset
  sourceDebug : attributes.sourceDebug? = last? .sourceDebugExtension entries
  moduleDeclaration : attributes.module? = (last? .moduleDeclaration entries).map RawAttribute.offset
  modulePackages : attributes.modulePackages? = (last? .modulePackages entries).map RawAttribute.offset
  moduleMainClass : attributes.moduleMainClass? =
    (last? .moduleMainClass entries).map RawAttribute.offset
  nestHost : attributes.nestHost? = (last? .nestHost entries).map RawAttribute.offset
  enclosingMethod : attributes.enclosingMethod? =
    (last? .enclosingMethod entries).map RawAttribute.offset
  nestMembers : attributes.nestMembers? = (last? .nestMembers entries).map RawAttribute.offset
  permittedSubclasses : attributes.permittedSubclasses? =
    (last? .permittedSubclasses entries).map RawAttribute.offset
  innerClasses : attributes.innerClasses? = (last? .innerClasses entries).map RawAttribute.offset
  record : attributes.record? = (last? .record entries).map RawAttribute.offset

variable {image : ClassImage} {entries : List RawAttribute} {entry : RawAttribute}

theorem FieldAttributes.Sorts.add {attributes later : FieldAttributes} (sorts : attributes.Sorts image entries)
    (added : image.addFieldAttribute attributes entry = .ok later) :
    later.Sorts image (entries ++ [entry]) := by
  unfold addFieldAttribute at added
  split at added
  · rename_i isKind
    rcases bind_eq_ok.mp added with ⟨index, read, same⟩
    cases same
    refine ⟨sorts.common.skip isKind (by decide) (by decide), ?_⟩
    simp only [last?_concat, isKind, if_true]
    exact ⟨index, read, rfl⟩
  · rename_i notKind
    cases added
    refine ⟨sorts.common.add (by decide) ?_, ?_⟩
    · intro kind member isKind
      rcases List.mem_cons.mp member with rfl | isCommon
      · exact absurd isKind notKind
      · exact isCommon
    · rw [last?_concat, if_neg notKind]
      exact sorts.value

theorem FieldAttributes.sorts_foldlM {attributes : FieldAttributes}
    (sorted : entries.foldlM image.addFieldAttribute {} = .ok attributes) : attributes.Sorts image entries := by
  induction entries using List.reverseRecOn generalizing attributes with
  | nil =>
      cases sorted
      exact ⟨CommonAttributes.sorts_nil _, rfl⟩
  | append_singleton entries entry ih =>
      rw [List.foldlM_append, bind_eq_ok] at sorted
      rcases sorted with ⟨before, sortedBefore, sorted⟩
      rw [List.foldlM_cons, bind_eq_ok] at sorted
      rcases sorted with ⟨_, added, ended⟩
      cases ended
      exact (ih sortedBefore).add added

theorem MethodAttributes.Sorts.add {attributes : MethodAttributes} (sorts : attributes.Sorts entries) :
    (attributes.add entry).Sorts (entries ++ [entry]) := by
  rcases sorts with ⟨common, code, exceptions, parameters, annotationDefault, visible, invisible⟩
  unfold MethodAttributes.add
  split
  case h_7 =>
    rename_i none₁ none₂ none₃ none₄ none₅ none₆
    constructor
    case common =>
      refine common.add (by decide) ?_
      intro kind member isKind
      rcases List.mem_append.mp member with own | isCommon
      · simp only [List.mem_cons, List.not_mem_nil, or_false] at own
        rcases own with rfl | rfl | rfl | rfl | rfl | rfl <;> simp_all
      · exact isCommon
    all_goals
      simp only [imp_false] at *
      simp [last?_concat, *]
  all_goals
    rename_i isKind
    constructor
    case common => exact common.skip isKind (by decide) (by decide)
    all_goals simp [last?_concat, *]

theorem MethodAttributes.sorts_foldl (entries : List RawAttribute) :
    (entries.foldl MethodAttributes.add {}).Sorts entries := by
  induction entries using List.reverseRecOn with
  | nil => exact ⟨CommonAttributes.sorts_nil _, rfl, rfl, rfl, rfl, rfl, rfl⟩
  | append_singleton entries entry ih =>
      rw [List.foldl_append]
      exact ih.add

theorem ClassAttributes.Sorts.add {attributes : ClassAttributes} (sorts : attributes.Sorts entries) :
    (attributes.add entry).Sorts (entries ++ [entry]) := by
  rcases sorts with ⟨common, sourceFile, sourceDebug, declaration, packages, mainClass, nestHost,
    enclosingMethod, nestMembers, permitted, innerClasses, record⟩
  unfold ClassAttributes.add
  split
  case h_13 =>
    rename_i none₁ none₂ none₃ none₄ none₅ none₆ none₇ none₈ none₉ none₁₀ none₁₁ none₁₂
    constructor
    case common =>
      refine common.add (by decide) ?_
      intro kind member isKind
      rcases List.mem_append.mp member with own | isCommon
      · simp only [List.mem_cons, List.not_mem_nil, or_false] at own
        rcases own with rfl | rfl | rfl | rfl | rfl | rfl | rfl | rfl | rfl | rfl | rfl | rfl <;>
          simp_all
      · exact isCommon
    all_goals
      simp only [imp_false] at *
      simp [last?_concat, *]
  all_goals
    rename_i isKind
    constructor
    case common => exact common.skip isKind (by decide) (by decide)
    all_goals simp [last?_concat, *]

theorem ClassAttributes.sorts_foldl (entries : List RawAttribute) :
    (entries.foldl ClassAttributes.add {}).Sorts entries := by
  induction entries using List.reverseRecOn with
  | nil =>
      exact ⟨CommonAttributes.sorts_nil _, rfl, rfl, rfl, rfl, rfl, rfl, rfl, rfl, rfl, rfl, rfl⟩
  | append_singleton entries entry ih =>
      rw [List.foldl_append]
      exact ih.add

/-- Whether the kind of an attribute is that of its name. -/
def IsListed (image : ClassImage) (entry : RawAttribute) : Prop :=
  ∃ stored, image.pool.storedText entry.nameIndex = .ok stored ∧
    entry.kind? = AttributeKind.ofStored? stored

theorem isListed_of_rawAttributes {offset next : Nat}
    (listed : rawAttributes image.pool offset = .ok (entries, next)) :
    ∀ entry ∈ entries, image.IsListed entry := by
  have behind (offset count : Nat) (found : Array RawAttribute) (all : ∀ entry ∈ found, image.IsListed entry)
      (listed : listAttributes image.pool offset found count = .ok (entries, next)) :
      ∀ entry ∈ entries, image.IsListed entry := by
    induction count generalizing offset found with
    | zero =>
        cases listed
        simpa using all
    | succ count ih =>
        simp only [listAttributes, bind_eq_ok] at listed
        rcases listed with ⟨nameIndex, -, length, -, listed⟩
        split at listed
        · cases listed
        simp only [bind_eq_ok] at listed
        rcases listed with ⟨stored, named, listed⟩
        refine ih _ _ ?_ listed
        intro entry member
        rcases Array.mem_push.mp member with old | rfl
        · exact all entry old
        · exact ⟨stored, named, rfl⟩
  rcases bind_eq_ok.mp listed with ⟨count, -, listed⟩
  exact behind _ _ _ (by simp) listed

/-- An attribute that is not understood has a name of its own. -/
theorem IsListed.name_ne {kinds : List AttributeKind} (isListed : image.IsListed entry) {name : Text}
    (named : image.pool.text entry.nameIndex = .ok name) (isOther : entry ∈ others kinds entries) :
    ∀ kind ∈ kinds, name ≠ kind.text := by
  rintro kind member rfl
  rcases isListed with ⟨stored, found, isKind⟩
  rcases Pool.storedText_of_text named with ⟨_, again, kindOf⟩
  rw [found, Except.ok.injEq] at again
  subst again
  have notKind := (List.mem_filter.mp isOther).2
  simp only [decide_eq_true_eq] at notKind
  exact notKind kind member (isKind.trans kindOf)

end ClassImage

theorem CommonAttributes.Sorts.name_ne {image : ClassImage} {kinds : List AttributeKind}
    {entries : List RawAttribute} {common : CommonAttributes} (sorts : common.Sorts kinds entries)
    (listed : ∀ entry ∈ entries, image.IsListed entry) :
    ∀ entry ∈ common.others, ∀ name, image.pool.text entry.nameIndex = .ok name →
      ∀ kind ∈ kinds, name ≠ kind.text := by
  intro entry member name named
  rw [sorts.others, List.mem_reverse] at member
  exact (listed entry (List.mem_of_mem_filter member)).name_ne named member

end ClassFile
