import ClassFile.Proofs.Draft.Methods
import ClassFile.Proofs.Rewriting.Attributes

/-!
# Fields and record components, written and read

A field or a record component is written when it is finished, and is told again as it was told: its head,
its annotations and its attributes.
-/

namespace ClassFile

open Emit Item

namespace ClassImage

variable {image : ClassImage} {parts : AttributeParts} {others : List Attribute} {items : List Item}
  {kinds : List AttributeKind} {entries : List RawAttribute} {common : CommonAttributes}

/-- What is told of a table that is written only if it has entries. -/
theorem emits_tellIfTable {spells : Item → List UInt8 → Prop} {kind : AttributeKind} {table : Table}
    { entry? : Option RawAttribute} {tell : Nat → Emit Unit} (all : table.Spells spells items)
    (same : Option.Rel (Stands image) (AnnotationTables.part kind table).2 entry?)
    (told : ∀ offset, image.input.HasAt offset
      (bigEndian16 table.count ++ Pieces.toList table.entries) → (tell offset).Emits () items) :
    (tellIfPresent ( entry?.map RawAttribute.offset) tell).Emits () items := by
  apply emits_tellIfPresent same
  · intro body isBody entry stands
    simp only [AnnotationTables.part] at isBody
    split at isBody
    · cases isBody
    · cases isBody
      apply told
      simpa [Table.toOutput] using stands.held
  · intro none
    simp only [AnnotationTables.part] at none
    split at none
    · rename_i isEmpty
      exact all.isEmpty_iff.mp isEmpty
    · cases none

/-- Whether the tables of annotations are written among the parts of a table of attributes. -/
def HasTables (parts : AttributeParts) (tables : AnnotationTables) : Prop :=
  ∀ part ∈ tables.plainParts ++ tables.typeParts, parts.found part.1 = part.2

theorem emits_tellAnnotations {options : ReadOptions} (understands : options.api.supports .v5 = true)
    (proper : image.IsProper) {tables : AnnotationTables} (tells : tables.Tells image.pool items)
    (hasTables : HasTables parts tables) (finds : image.Finds kinds parts others entries)
    (sorts : common.Sorts kinds entries) (all : ∀ kind ∈ AttributeKind.ofAny, kind ∈ kinds) :
    (image.tellAnnotations options common).Emits ()
      (Turn.annotations.flatMap fun turn => ofTurn turn items) := by
  have same {kind : AttributeKind} {table : Table} (isCommon : kind ∈ AttributeKind.ofAny)
      (member : AnnotationTables.part kind table ∈ tables.plainParts ++ tables.typeParts) :
      Option.Rel (Stands image) (AnnotationTables.part kind table).2 (RawAttribute.last? kind entries) := by
    rw [← hasTables _ member]
    exact finds.last (all kind isCommon)
  have plain (visible : Bool) {kind : AttributeKind} (isCommon : kind ∈ AttributeKind.ofAny)
      (member : AnnotationTables.part kind (tables.plain visible) ∈ tables.plainParts ++ tables.typeParts) :
      (tellIfPresent ((RawAttribute.last? kind entries).map RawAttribute.offset) fun offset =>
        discard (image.tellAnnotationTable (Opening.annotate · visible) offset)).Emits ()
          (ofTurn (.ofPlain visible) items) := by
    apply emits_tellIfTable (tells.plain visible) (same isCommon member)
    intro offset held
    have told := ToldAs.counted (loops_tellAnnotationList (Opening.annotate · visible))
      (tells.plain visible).count (tells.plain visible).entries
    exact (told image proper rfl offset held).discard
  have types (visible : Bool) {kind : AttributeKind} (isCommon : kind ∈ AttributeKind.ofAny)
      (member : AnnotationTables.part kind (tables.types visible) ∈ tables.plainParts ++ tables.typeParts) :
      (tellIfPresent ((RawAttribute.last? kind entries).map RawAttribute.offset)
        (image.tellTypeAnnotationTable visible)).Emits () (ofTurn (.ofType visible) items) := by
    apply emits_tellIfTable (tells.types visible) (same isCommon member)
    intro offset held
    have told := ToldAs.counted (loops_tellTypeAnnotationList visible)
      (tells.types visible).count (tells.types visible).entries
    exact told image proper rfl offset held
  rw [tellAnnotations, sorts.visible, sorts.invisible, sorts.visibleTypes, sorts.invisibleTypes]
  simp only [understands, if_true]
  refine (plain true (by decide) (by simp [AnnotationTables.plainParts, AnnotationTables.plain])).bind ?_
  refine (plain false (by decide) (by simp [AnnotationTables.plainParts, AnnotationTables.plain])).bind ?_
  refine (types true (by decide) (by simp [AnnotationTables.typeParts, AnnotationTables.types])).bind ?_
  simpa [Turn.ofType] using types false (by decide) (by simp [AnnotationTables.typeParts, AnnotationTables.types])

theorem emits_tellMemberBody {options : ReadOptions} (understands : options.api.supports .v5 = true)
    (undecoded : options.DecodesNothing) (proper : image.IsProper) {tables : AnnotationTables}
    (tells : tables.Tells image.pool items) (hasTables : HasTables parts tables)
    (finds : image.Finds kinds parts tables.attributes.reverse entries) (sorts : common.Sorts kinds entries)
    (all : ∀ kind ∈ AttributeKind.ofAny, kind ∈ kinds) (inTurn : InTurn (Fits kinds) Turn.ofMember items) :
    (image.tellMemberBody options common).Emits () items := by
  have fits := tells.fits inTurn.all_good
  have told : (image.tellMemberBody options common).Emits () _ :=
    (emits_tellAnnotations understands proper tells hasTables finds sorts all).bind
      (emits_tellOthers undecoded finds sorts fits)
  rw [tells.attributes] at told
  rw [inTurn.eq_flatMap (by decide)]
  simpa [Turn.ofMember, List.flatMap_append] using told

/-! ### Heads of members -/

/-- Whether a signature is written among the parts of a table of attributes. -/
theorem textIfPresent_eq_ok (proper : image.IsProper) {signature? : Option Text} {index? : Option UInt16}
    { entry? : Option RawAttribute}
    (means : Option.Rel (fun text index => image.pool.text index = .ok text) signature? index?)
    (same : Option.Rel (Stands image) (index?.map Output.ofU16) entry?) :
    image.textIfPresent ( entry?.map RawAttribute.offset) = .ok signature? := by
  cases means with
  | none =>
      cases same
      rfl
  | some named =>
      rcases same with @⟨_, entry, stands⟩
      have held := stands.held
      rw [Output.ofU16, Output.toList_u16, Output.toList_empty, List.nil_append] at held
      rw [Option.map_some, textIfPresent, proper.textAt_of_index held.u16 named]
      rfl

theorem isSome_of_rel {body? : Option Output} { entry? : Option RawAttribute}
    (same : Option.Rel (Stands image) body? entry?) : entry?.isSome = body?.isSome := by
  cases same <;> rfl

/-- The marks of access flags are found in the attributes. -/
theorem accessFlags_eq {access : UInt32} {major : UInt16} {signature? : Option UInt16}
    (hasCommon : ∀ part ∈ AttributeTable.commonParts access major signature?, parts.found part.1 = part.2)
    (finds : image.Finds kinds parts others entries) (sorts : common.Sorts kinds entries)
    (all : ∀ kind ∈ AttributeKind.ofAny, kind ∈ kinds) :
    common.accessFlags = (if access &&& Access.deprecated != 0 then Access.deprecated else 0) |||
      (if Access.needsSyntheticAttribute access major then Access.synthetic else 0) := by
  have deprecated := isSome_of_rel (finds.last (all .deprecated (by decide)))
  have synthetic := isSome_of_rel (finds.last (all .synthetic (by decide)))
  simp only [AttributeTable.commonParts, List.forall_mem_cons] at hasCommon
  rw [hasCommon.2.2.1] at deprecated
  rw [hasCommon.1] at synthetic
  rw [CommonAttributes.accessFlags, sorts.deprecated, sorts.synthetic, deprecated, synthetic]
  congr 1
  · cases access &&& Access.deprecated != 0 <;> rfl
  · cases Access.needsSyntheticAttribute access major <;> rfl

end ClassImage

open ClassImage Draft

theorem AttributeParts.found_of_mem {parts : AttributeParts} {part : AttributeKind × Option Output}
    (once : (parts.map Prod.fst).Nodup) (member : part ∈ parts) : parts.found part.1 = part.2 := by
  induction parts with
  | nil => cases member
  | cons first rest ih =>
      rw [List.map_cons, List.nodup_cons] at once
      rw [found]
      rcases List.mem_cons.mp member with rfl | isBehind
      · rw [List.lookup_cons_self]
        rfl
      · have other : part.1 ≠ first.1 := by
          intro same
          exact once.1 (same ▸ List.mem_map_of_mem isBehind)
        rw [List.lookup_cons, beq_eq_false_iff_ne.mpr other]
        exact ih once.2 isBehind

/-! ### Record components -/

/-- Tells one record component. -/
def ClassImage.tellComponent (options : ReadOptions) (image : ClassImage) (offset : Nat) : Emit Nat := do
  let name ← image.textAt offset
  let descriptor ← image.textAt (offset + 2)
  let (attributes, next) ← rawAttributes image.pool (offset + 4)
  let common := attributes.foldl CommonAttributes.add {}
  let signature? ← image.textIfPresent common.signature?
  Emit.member (.component ⟨name, descriptor, signature?⟩) (image.tellMemberBody options common)
  return next

theorem ClassImage.loops_tellComponents (options : ReadOptions) (image : ClassImage) :
    Loops (image.tellComponents options) (tellComponent options image) fun _ => () where
  zero _ := rfl
  succ offset count := by
    rw [tellComponents, tellComponent]
    simp

namespace ComponentDraft

variable {σ : Type} {Before : σ → Pool → Prop} {header : ComponentHeader} {draft : ComponentDraft}
  {items : List Item}

/-- Whether a draft has the head of a record component. -/
structure Heads (pool : Pool) (header : ComponentHeader) (draft : ComponentDraft) : Prop where
  name : pool.text draft.name = .ok header.name
  descriptor : pool.text draft.descriptor = .ok header.descriptor
  signature : pool.Names header.signature? draft.signature?

theorem runs_begin (fits : header.Fits) :
    Runs Before (begin header) fun draft whole pool =>
      Before whole pool ∧ draft.Heads pool header ∧ draft.annotations = {} := by
  refine (Runs.pooled (PoolBuilder.adds_text fits.name)).bind fun name => ?_
  refine (Runs.pooled (PoolBuilder.adds_text fits.descriptor)).bind fun descriptor => ?_
  refine (CodeDraft.runs_signatureIndex? fits.signature).bind fun signature? => ?_
  apply (Runs.pure _).weaken (fun _ _ => id)
  rintro _ whole pool ⟨rfl, ⟨⟨before, named⟩, described⟩, signed⟩
  exact ⟨before, ⟨named, described, signed⟩, rfl⟩

/-- The attributes that a record component is written with. -/
def parts (draft : ComponentDraft) : AttributeParts :=
  [(.signature, draft.signature?.map Output.ofU16)] ++ draft.annotations.plainParts ++
    draft.annotations.typeParts

theorem runs_write {kinds : List AttributeKind}
    (fits : ∀ entry ∈ draft.annotations.attributes, entry.Fits kinds) :
    Runs Before draft.write fun output whole pool => Before whole pool ∧
      ∃ attributes : AttributeTable, attributes.Holds draft.parts draft.annotations.attributes.reverse pool ∧
        output = attributes.table.write (.ofU16s [draft.name, draft.descriptor]) := by
  have attributes : Runs (fun attributes _ => attributes = ({} : AttributeTable)) (do
        AttributeTable.addIndex .signature draft.signature?
        draft.annotations.writePlain
        draft.annotations.writeTypes
        draft.annotations.writeCustom)
      fun _ => AttributeTable.Holds draft.parts draft.annotations.attributes.reverse := by
    rw [AttributeTable.addIndex_eq]
    refine Runs.strengthen ((@AttributeTable.runs_addPart [] _ _).bind fun _ =>
      (AnnotationTables.runs_writePlain _).bind fun _ => (AnnotationTables.runs_writeTypes _).bind fun _ =>
        AnnotationTables.runs_writeCustom fits) ?_
    rintro _ pool rfl
    exact AttributeTable.holds_empty pool
  refine (CodeDraft.runs_written attributes).bind fun attributes => ?_
  apply (Runs.pure _).weaken (fun _ _ => id)
  rintro _ whole pool ⟨rfl, before, holds⟩
  exact ⟨before, attributes, holds, rfl⟩

theorem once_parts (draft : ComponentDraft) : (draft.parts.map Prod.fst).Nodup := by
  simp [parts, AnnotationTables.plainParts, AnnotationTables.typeParts, AnnotationTables.part]

/-- A record component is told again. -/
theorem told_component {options : ReadOptions} (understands : options.api.supports .v5 = true)
    (undecoded : options.DecodesNothing) {pool : Pool} {attributes : AttributeTable}
    (heads : draft.Heads pool header) (tells : draft.annotations.Tells pool items)
    (inTurn : InTurn (Fits AttributeKind.ofAny) Turn.ofMember items)
    (holds : attributes.Holds draft.parts draft.annotations.attributes.reverse pool) :
    ToldOne (tellComponent options) pool (.scope (.component header) items)
      (attributes.table.write (.ofU16s [draft.name, draft.descriptor])).toList := by
  rintro image proper rfl offset held
  have head : (Output.ofU16s [draft.name, draft.descriptor]).toList =
      bigEndian16 draft.name ++ bigEndian16 draft.descriptor := by
    simp [Output.ofU16s]
  rw [Table.toList_write, head] at held ⊢
  have descriptor := held.left.right.u16
  have behind := held.right
  rw [length_bigEndian16] at descriptor
  rw [List.length_append, length_bigEndian16, length_bigEndian16] at behind
  have once := draft.once_parts
  have fits := tells.fits inTurn.all_good
  rcases exists_finds proper holds behind once
    (by simp [parts, AnnotationTables.plainParts, AnnotationTables.typeParts, AnnotationTables.part,
      AttributeKind.ofAny])
    (fun entry member => (fits entry member).1.unknown (fits entry member).2) with ⟨entries, raw, finds⟩
  have sorts := CommonAttributes.sorts_foldl entries
  have hasTables : HasTables draft.parts draft.annotations := fun part member =>
    AttributeParts.found_of_mem once (by
      rw [parts, List.append_assoc]
      exact List.mem_append_right _ member)
  have signature := finds.last (by decide : .signature ∈ AttributeKind.ofAny)
  rw [AttributeParts.found_of_mem once (List.mem_cons_self : (.signature, _) ∈ draft.parts)] at signature
  have body := emits_tellMemberBody understands undecoded proper tells hasTables finds sorts
    (fun _ => id) inTurn
  rw [tellComponent]
  apply Emits.bind_lift (proper.textAt_of_index held.left.left.u16 heads.name)
  apply Emits.bind_lift (proper.textAt_of_index descriptor heads.descriptor)
  apply Emits.bind_lift raw
  dsimp only
  rw [sorts.signature]
  apply Emits.bind_lift (textIfPresent_eq_ok proper heads.signature signature)
  have ends : offset + (bigEndian16 draft.name ++ bigEndian16 draft.descriptor ++
      (bigEndian16 attributes.table.count ++ Pieces.toList attributes.table.entries)).length =
      offset + 4 + (bigEndian16 attributes.table.count ++ Pieces.toList attributes.table.entries).length := by
    rw [List.length_append, List.length_append, length_bigEndian16, length_bigEndian16, ← Nat.add_assoc]
  rw [ends]
  exact body.member.bind (emits_pure _)

end ComponentDraft

/-! ### Fields -/

/-- Tells one field. -/
def ClassImage.tellField (options : ReadOptions) (image : ClassImage) (offset : Nat) : Emit Nat := do
  let access ← image.input.u16 offset
  let name ← image.textAt (offset + 2)
  let descriptor ← image.textAt (offset + 4)
  let (entries, next) ← rawAttributes image.pool (offset + 6)
  let attributes ← (entries.foldlM image.addFieldAttribute {} : Except ClassError _)
  let signature? ← image.textIfPresent attributes.common.signature?
  let value? ← match attributes.value? with
    | some index => do pure (some (← image.fieldValue index))
    | none => pure none
  let access := access.toUInt32 ||| attributes.common.accessFlags
  Emit.member (.field ⟨access, name, descriptor, signature?, value?⟩)
    (image.tellMemberBody options attributes.common)
  return next

theorem ClassImage.loops_tellFields (options : ReadOptions) (image : ClassImage) :
    Loops (image.tellFields options) (tellField options image) id where
  zero _ := rfl
  succ offset count := by
    rw [tellFields, tellField]
    simp only [bind_assoc, pure_bind]
    iterate 5
      apply bind_congr
      intro _
    rename_i attributes
    cases attributes.value? <;> simp

/-- Whether an index stands for the value that a field starts with. -/
def FieldValue.Means (pool : Pool) (index : UInt16) : FieldValue → Prop
  | .integer value => pool.integer index = .ok value
  | .float bits => pool.float index = .ok bits
  | .long value => pool.long index = .ok value
  | .double bits => pool.double index = .ok bits
  | .string value => pool.string index = .ok value

theorem ClassImage.fieldValue_eq_ok {image : ClassImage} {index : UInt16} {value : FieldValue}
    (means : value.Means image.pool index) : image.fieldValue index = .ok value := by
  cases value with
  | integer value =>
      have tagged : image.pool.tag index = .ok .integer := Pool.tag_of_bodyOf means
      simp only [FieldValue.Means] at means
      simp [fieldValue, tagged, means]
  | float bits =>
      have tagged : image.pool.tag index = .ok .float := Pool.tag_of_bodyOf means
      simp only [FieldValue.Means] at means
      simp [fieldValue, tagged, means]
  | long value =>
      have tagged : image.pool.tag index = .ok .long := Pool.tag_of_bodyOf means
      simp only [FieldValue.Means] at means
      simp [fieldValue, tagged, means]
  | double bits =>
      have tagged : image.pool.tag index = .ok .double := Pool.tag_of_bodyOf means
      simp only [FieldValue.Means] at means
      simp [fieldValue, tagged, means]
  | string value =>
      have tagged : image.pool.tag index = .ok .string := Pool.tag_of_bodyOf means
      simp only [FieldValue.Means] at means
      simp [fieldValue, tagged, means]

namespace FieldDraft

variable {σ : Type} {Before : σ → Pool → Prop} {header : FieldHeader} {draft : FieldDraft}
  {items : List Item}

/-- Whether a draft has the head of a field. -/
structure Heads (pool : Pool) (header : FieldHeader) (draft : FieldDraft) : Prop where
  access : draft.access = header.access
  name : pool.text draft.name = .ok header.name
  descriptor : pool.text draft.descriptor = .ok header.descriptor
  signature : pool.Names header.signature? draft.signature?
  value : Option.Rel (fun value index => FieldValue.Means pool index value) header.value? draft.value?

theorem adds_pooledValue {value : FieldValue} (survives : value.Survives) {Held : Pool → Prop} :
    PoolBuilder.Adds Held (pooledValue value) fun index pool => value.Means pool index := by
  cases value with
  | integer value =>
      exact (@PoolBuilder.adds_plain Held (.integer value) trivial rfl rfl).weaken (fun _ => id)
        fun _ _ _ has => Pool.integer_eq_ok.mpr has
  | float bits =>
      exact (@PoolBuilder.adds_plain Held (.float bits) trivial rfl rfl).weaken (fun _ => id)
        fun _ _ _ has => Pool.float_eq_ok.mpr has
  | long value =>
      exact (@PoolBuilder.adds_plain Held (.long value) trivial rfl rfl).weaken (fun _ => id)
        fun _ _ _ has => Pool.long_eq_ok.mpr has
  | double bits =>
      exact (@PoolBuilder.adds_plain Held (.double bits) trivial rfl rfl).weaken (fun _ => id)
        fun _ _ _ has => Pool.double_eq_ok.mpr has
  | string value => exact PoolBuilder.adds_string survives

theorem runs_begin (fits : header.Fits) :
    Runs Before (begin header) fun draft whole pool =>
      Before whole pool ∧ draft.Heads pool header ∧ draft.annotations = {} := by
  refine (Runs.pooled (PoolBuilder.adds_text fits.name)).bind fun name => ?_
  refine (Runs.pooled (PoolBuilder.adds_text fits.descriptor)).bind fun descriptor => ?_
  refine (CodeDraft.runs_signatureIndex? fits.signature).bind fun signature? => ?_
  cases isValue : header.value? with
  | none =>
      apply (Runs.pure _).weaken (fun _ _ => id)
      rintro _ whole pool ⟨rfl, ⟨⟨before, named⟩, described⟩, signed⟩
      exact ⟨before, ⟨rfl, named, described, signed, isValue ▸ .none⟩, rfl⟩
  | some value =>
      refine (Runs.pooled (adds_pooledValue (fits.value value isValue))).bind fun index => ?_
      apply (Runs.pure _).weaken (fun _ _ => id)
      rintro _ whole pool ⟨rfl, ⟨⟨⟨before, named⟩, described⟩, signed⟩, means⟩
      exact ⟨before, ⟨rfl, named, described, signed, isValue ▸ .some means⟩, rfl⟩

/-- The attributes that a field is written with. -/
def parts (draft : FieldDraft) (major : UInt16) : AttributeParts :=
  [(.constantValue, draft.value?.map Output.ofU16)] ++
    AttributeTable.commonParts draft.access major draft.signature? ++ draft.annotations.plainParts ++
    draft.annotations.typeParts

/-- The bytes in front of the attributes. -/
def head (draft : FieldDraft) (major : UInt16) : Output :=
  .ofU16s [Access.stored draft.access major, draft.name, draft.descriptor]

theorem runs_write {kinds : List AttributeKind} (major : UInt16)
    (fits : ∀ entry ∈ draft.annotations.attributes, entry.Fits kinds) :
    Runs Before (draft.write major) fun output whole pool => Before whole pool ∧
      ∃ attributes : AttributeTable,
        attributes.Holds (draft.parts major) draft.annotations.attributes.reverse pool ∧
          output = attributes.table.write (draft.head major) := by
  have attributes : Runs (fun attributes _ => attributes = ({} : AttributeTable)) (do
        AttributeTable.addIndex .constantValue draft.value?
        AttributeTable.addCommon draft.access major draft.signature?
        draft.annotations.writePlain
        draft.annotations.writeTypes
        draft.annotations.writeCustom)
      fun _ => AttributeTable.Holds (draft.parts major) draft.annotations.attributes.reverse := by
    rw [AttributeTable.addIndex_eq]
    refine Runs.strengthen ((@AttributeTable.runs_addPart [] _ _).bind fun _ =>
      (AttributeTable.runs_addCommon _ _ _).bind fun _ => (AnnotationTables.runs_writePlain _).bind
        fun _ => (AnnotationTables.runs_writeTypes _).bind fun _ =>
          AnnotationTables.runs_writeCustom fits) ?_
    rintro _ pool rfl
    exact AttributeTable.holds_empty pool
  refine (CodeDraft.runs_written attributes).bind fun attributes => ?_
  apply (Runs.pure _).weaken (fun _ _ => id)
  rintro _ whole pool ⟨rfl, before, holds⟩
  exact ⟨before, attributes, holds, rfl⟩

theorem once_parts (draft : FieldDraft) (major : UInt16) : ((draft.parts major).map Prod.fst).Nodup := by
  simp [parts, AttributeTable.commonParts, AnnotationTables.plainParts, AnnotationTables.typeParts,
    AnnotationTables.part]

theorem exists_folded {image : ClassImage} {entries : List RawAttribute}
    (reads : ∀ entry ∈ entries, entry.kind? = some .constantValue →
      ∃ index, image.input.u16 entry.offset = .ok index) (attributes : FieldAttributes) :
    ∃ sorted, entries.foldlM image.addFieldAttribute attributes = .ok sorted := by
  induction entries generalizing attributes with
  | nil => exact ⟨attributes, rfl⟩
  | cons entry rest ih =>
      rw [List.forall_mem_cons] at reads
      have added : ∃ next, image.addFieldAttribute attributes entry = .ok next := by
        unfold addFieldAttribute
        split
        · rename_i isValue
          rcases reads.1 isValue with ⟨index, read⟩
          exact ⟨_, by rw [read]; rfl⟩
        · exact ⟨_, rfl⟩
      rcases added with ⟨next, added⟩
      rcases ih reads.2 next with ⟨sorted, folded⟩
      exact ⟨sorted, by rw [List.foldlM_cons, added, ok_bind, folded]⟩

/-- The attributes of a field are sorted. -/
theorem exists_sorts {image : ClassImage} {parts : AttributeParts} {others : List Attribute}
    {entries : List RawAttribute} {value? : Option UInt16}
    (finds : image.Finds AttributeKind.ofField parts others entries)
    (value : parts.found .constantValue = value?.map Output.ofU16) :
    ∃ attributes, entries.foldlM image.addFieldAttribute {} = .ok attributes ∧
      attributes.common.Sorts AttributeKind.ofField entries ∧ attributes.value? = value? := by
  have only := finds.only .constantValue (by decide)
  have last := finds.last (by decide : .constantValue ∈ AttributeKind.ofField)
  rw [value] at only last
  have read {index : UInt16} {entry : RawAttribute} (stands : image.Stands (Output.ofU16 index) entry) :
      image.input.u16 entry.offset = .ok index := by
    have held := stands.held
    rw [Output.ofU16, Output.toList_u16, Output.toList_empty, List.nil_append] at held
    exact held.u16
  have reads : ∀ entry ∈ entries, entry.kind? = some .constantValue →
      ∃ index, image.input.u16 entry.offset = .ok index := by
    intro entry member isValue
    have isThere : entry ∈ entries.filter fun entry => entry.kind? = some .constantValue :=
      List.mem_filter.mpr ⟨member, decide_eq_true isValue⟩
    generalize entries.filter (fun entry => decide (entry.kind? = some .constantValue)) = same at only isThere
    cases value? with
    | none =>
        cases only
        cases isThere
    | some index =>
        rcases only with _ | ⟨stands, ⟨⟩⟩
        rw [List.mem_singleton] at isThere
        exact ⟨index, read (isThere ▸ stands)⟩
  rcases exists_folded reads {} with ⟨sorted, folded⟩
  have sorts := FieldAttributes.sorts_foldlM folded
  refine ⟨sorted, folded, sorts.common, ?_⟩
  have found := sorts.value
  cases value? with
  | none =>
      generalize RawAttribute.last? .constantValue entries = last? at last found
      cases last
      exact found
  | some index =>
      generalize RawAttribute.last? .constantValue entries = last? at last found
      rcases last with @⟨_, entry, stands⟩
      rcases found with ⟨other, readAgain, isValue⟩
      rw [read stands, Except.ok.injEq] at readAgain
      rw [isValue, readAgain]

/-- A field is told again. -/
theorem told_field {options : ReadOptions} (understands : options.api.supports .v5 = true)
    (undecoded : options.DecodesNothing) {pool : Pool} {major : UInt16} {attributes : AttributeTable}
    (within : Access.Within Access.deprecated header.access) (heads : draft.Heads pool header)
    (tells : draft.annotations.Tells pool items)
    (inTurn : InTurn (Fits AttributeKind.ofField) Turn.ofMember items)
    (holds : attributes.Holds (draft.parts major) draft.annotations.attributes.reverse pool) :
    ToldOne (tellField options) pool (.scope (.field header) items)
      (attributes.table.write (draft.head major)).toList := by
  rintro image proper rfl offset held
  have head : (draft.head major).toList =
      bigEndian16 (Access.stored draft.access major) ++ (bigEndian16 draft.name ++
        bigEndian16 draft.descriptor) := by
    simp [FieldDraft.head, Output.ofU16s]
  rw [Table.toList_write, head] at held ⊢
  have access := held.left.left.u16
  have name : image.input.u16 (offset + 2) = .ok draft.name := held.left.right.left.u16
  have descriptor : image.input.u16 (offset + 4) = .ok draft.descriptor := held.left.right.right.u16
  have behind : image.input.HasAt (offset + 6) (bigEndian16 attributes.table.count ++
      Pieces.toList attributes.table.entries) := held.right
  have once := draft.once_parts major
  have fits := tells.fits inTurn.all_good
  rcases exists_finds proper holds behind once
    (by simp [parts, AttributeTable.commonParts, AnnotationTables.plainParts, AnnotationTables.typeParts,
      AnnotationTables.part, AttributeKind.ofField, AttributeKind.ofAny])
    (fun entry member => (fits entry member).1.unknown (fits entry member).2) with ⟨entries, raw, finds⟩
  have hasTables : HasTables (draft.parts major) draft.annotations := fun part member =>
    AttributeParts.found_of_mem once (by
      rw [parts, List.append_assoc]
      exact List.mem_append_right _ member)
  have hasCommon : ∀ part ∈ AttributeTable.commonParts draft.access major draft.signature?,
      (draft.parts major).found part.1 = part.2 := fun part member =>
    AttributeParts.found_of_mem once (by simp [parts, member])
  rcases exists_sorts finds (AttributeParts.found_of_mem once (by simp [parts] :
    (.constantValue, draft.value?.map Output.ofU16) ∈ draft.parts major)) with
    ⟨sorted, folded, sorts, value⟩
  have common : ∀ kind ∈ AttributeKind.ofAny, kind ∈ AttributeKind.ofField := by decide
  have signature := finds.last (by decide : .signature ∈ AttributeKind.ofField)
  rw [hasCommon (.signature, draft.signature?.map Output.ofU16) (by simp [AttributeTable.commonParts])]
    at signature
  have restored : (Access.stored draft.access major).toUInt32 ||| sorted.common.accessFlags =
      header.access := by
    rw [accessFlags_eq hasCommon finds sorts common, heads.access, Access.restored_member within]
  have body := emits_tellMemberBody understands undecoded proper tells hasTables finds sorts common inTurn
  have ends : offset + (bigEndian16 (Access.stored draft.access major) ++ (bigEndian16 draft.name ++
      bigEndian16 draft.descriptor) ++
      (bigEndian16 attributes.table.count ++ Pieces.toList attributes.table.entries)).length =
      offset + 6 + (bigEndian16 attributes.table.count ++ Pieces.toList attributes.table.entries).length := by
    simp only [List.length_append, length_bigEndian16]
    omega
  rw [tellField, ends]
  apply Emits.bind_lift access
  apply Emits.bind_lift (proper.textAt_of_index name heads.name)
  apply Emits.bind_lift (proper.textAt_of_index descriptor heads.descriptor)
  apply Emits.bind_lift raw
  dsimp only
  apply Emits.bind_lift folded
  rw [sorts.signature, restored, value]
  apply Emits.bind_lift (textIfPresent_eq_ok proper heads.signature signature)
  have means := heads.value
  rcases header with ⟨_, _, _, _, value?⟩
  generalize draft.value? = index? at means ⊢
  cases means with
  | none => exact (emits_pure _).bind (body.member.bind (emits_pure _))
  | some means =>
      apply Emits.bind_lift (fieldValue_eq_ok means)
      exact (emits_pure _).bind (body.member.bind (emits_pure _))

end FieldDraft

/-! ### Telling members to the writer -/

namespace ClassDraft

variable {Before After Around : ClassDraft → Pool → Prop} {items : List Item} {options : ReadOptions}

/-- Whether no member and no annotation is open. -/
def IsIdle (draft : ClassDraft) : Prop :=
  draft.member = .none ∧ draft.annotation? = none

theorem IsIdle.close {draft : ClassDraft} (idle : draft.IsIdle) : { draft with member := .none } = draft := by
  rw [← idle.1]

/-- Annotations and attributes are told one after the other. -/
theorem runs_tell_holding {kinds : List AttributeKind} (inTurn : InTurn (Fits kinds) Turn.ofMember items) :
    Runs (Holding [] Around) (writer.tell items) fun _ => Holding items Around := by
  refine @runs_tell_items (fun done => Holding done Around) [] items ?_
  intro done item member
  exact runs_tellItem_holding (inTurn.all_good item member) (inTurn.turn_mem item member)

/-- The end of what is open, if it is not an annotation. -/
theorem runs_finish_member {Middle : ClassDraft → Pool → Prop}
    (closed : ∀ draft pool, Before draft pool → draft.annotation? = none)
    (finishes : Runs Before finishMember fun _ => Middle)
    (closes : ∀ draft pool, Middle draft pool → After { draft with member := .none } pool) :
    Runs Before (record .finish) fun _ => After := by
  show Runs _ (exit true) _
  unfold exit
  refine (Runs.look _).bind fun found => ?_
  match found with
  | some open? =>
      apply Runs.absurd
      rintro draft pool ⟨same, before⟩
      rw [closed draft pool before] at same
      cases same
  | none =>
      refine (finishes.strengthen fun _ _ known => known.2).bind fun _ => ?_
      exact Runs.change closes

/-- Whether a record component is open, with what is known of the draft around it. -/
def InComponent (header : ComponentHeader) (Around : ClassDraft → Pool → Prop) (draft : ClassDraft)
    (pool : Pool) : Prop :=
  ∃ part, draft.member = .component part ∧ part.Heads pool header ∧
    Around { draft with member := .none } pool

theorem Holding.component {header : ComponentHeader} {draft : ClassDraft} {pool : Pool}
    (holding : Holding items (InComponent header Around) draft pool) :
    ∃ part, draft.member = .component part ∧ part.Heads pool header ∧ part.annotations.Tells pool items ∧
      Around { draft with member := .none } pool := by
  rcases holding with ⟨-, -, tells, part, isPart, heads, around⟩
  rcases draft with ⟨⟩
  rename_i open? _
  cases open? with
  | component other =>
      cases isPart
      exact ⟨other, rfl, ⟨heads.name, heads.descriptor, heads.signature⟩, tells, around⟩
  | none | moduleScope | field | method => cases isPart

theorem runs_tellItem_component (understands : options.api.supports .v5 = true)
    (undecoded : options.DecodesNothing) {header : ComponentHeader} (fits : header.Fits)
    (inTurn : InTurn (Fits AttributeKind.ofAny) Turn.ofMember items)
    (idle : ∀ draft pool, Before draft pool → draft.IsIdle)
    (adds : ∀ draft pool entry next, Before draft pool →
      ToldOne (tellComponent options) pool (.scope (.component header) items) entry.toList →
        draft.components.add "record components" entry = .ok next →
          After { draft with components := next } pool) :
    Runs Before (writer.tellItem (.scope (.component header) items)) fun _ => After := by
  have enters : Runs Before (record (.enter (.component header)))
      fun _ => Holding [] (InComponent header Before) := by
    refine (ComponentDraft.runs_begin fits).bind fun part => Runs.change ?_
    rintro draft pool ⟨before, heads, fresh⟩
    have empty : part.annotations.Tells pool [] := by
      rw [fresh]
      exact AnnotationTables.tells_empty
    refine ⟨by simp, (idle draft pool before).2, empty, ?_⟩
    refine ⟨{ part with annotations := {} }, rfl, ⟨heads.name, heads.descriptor, heads.signature⟩, ?_⟩
    show Before { draft with member := .none } pool
    rw [(idle draft pool before).close]
    exact before
  apply runs_tellItem_scope enters (runs_tell_holding inTurn)
  have finishes : Runs (Holding items (InComponent header Before)) finishMember
      fun _ draft pool => After { draft with member := .none } pool := by
    unfold finishMember
    refine (Runs.look _).bind fun major => (Runs.look _).bind fun found => ?_
    match found with
    | .none | .moduleScope | .field _ | .method _ =>
        apply Runs.absurd
        rintro draft pool ⟨same, -, holding⟩
        rcases holding.component with ⟨part, isPart, -⟩
        rw [isPart] at same
        cases same
    | .component part =>
        have known : ∀ draft pool, MemberDraft.component part = draft.member ∧
            major = draft.version.major ∧ Holding items (InComponent header Before) draft pool →
              part.Heads pool header ∧ part.annotations.Tells pool items ∧
                Before { draft with member := .none } pool := by
          rintro draft pool ⟨same, -, holding⟩
          rcases holding.component with ⟨other, isOther, known⟩
          rw [isOther] at same
          cases same
          exact known
        apply Runs.assume fun draft pool before entry member =>
          ((known draft pool before).2.1.fits inTurn.all_good entry (List.mem_reverse.mpr member)).1
        intro allFit
        refine (ComponentDraft.runs_write allFit).bind fun bytes => Runs.tryChange ?_
        rintro draft next pool ⟨before, attributes, holds, rfl⟩ added
        simp only [bind_eq_ok, pure_eq_ok] at added
        rcases added with ⟨table, added, rfl⟩
        rcases known draft pool before with ⟨heads, tells, around⟩
        exact adds _ pool _ _ around (ComponentDraft.told_component understands undecoded heads tells inTurn holds)
          added
  exact runs_finish_member (fun _ _ holding => holding.annotation) finishes fun _ _ => id

/-- Whether a field is open, with what is known of the draft around it. -/
def InField (header : FieldHeader) (Around : ClassDraft → Pool → Prop) (draft : ClassDraft)
    (pool : Pool) : Prop :=
  ∃ part, draft.member = .field part ∧ part.Heads pool header ∧
    Around { draft with member := .none } pool

theorem Holding.field {header : FieldHeader} {draft : ClassDraft} {pool : Pool}
    (holding : Holding items (InField header Around) draft pool) :
    ∃ part, draft.member = .field part ∧ part.Heads pool header ∧ part.annotations.Tells pool items ∧
      Around { draft with member := .none } pool := by
  rcases holding with ⟨-, -, tells, part, isPart, heads, around⟩
  rcases draft with ⟨⟩
  rename_i open? _
  cases open? with
  | field other =>
      cases isPart
      exact ⟨other, rfl, ⟨heads.access, heads.name, heads.descriptor, heads.signature, heads.value⟩, tells, around⟩
  | none | moduleScope | component | method => cases isPart

theorem runs_tellItem_field (understands : options.api.supports .v5 = true)
    (undecoded : options.DecodesNothing) {header : FieldHeader} (fits : header.Fits)
    (inTurn : InTurn (Fits AttributeKind.ofField) Turn.ofMember items)
    (idle : ∀ draft pool, Before draft pool → draft.IsIdle)
    (adds : ∀ draft pool entry next, Before draft pool →
      ToldOne (tellField options) pool (.scope (.field header) items) entry.toList →
        draft.fields.add "fields" entry = .ok next →
          After { draft with fields := next } pool) :
    Runs Before (writer.tellItem (.scope (.field header) items)) fun _ => After := by
  have enters : Runs Before (record (.enter (.field header)))
      fun _ => Holding [] (InField header Before) := by
    refine (FieldDraft.runs_begin fits).bind fun part => Runs.change ?_
    rintro draft pool ⟨before, heads, fresh⟩
    have empty : part.annotations.Tells pool [] := by
      rw [fresh]
      exact AnnotationTables.tells_empty
    refine ⟨by simp, (idle draft pool before).2, empty, ?_⟩
    refine ⟨{ part with annotations := {} }, rfl, ⟨heads.access, heads.name, heads.descriptor, heads.signature, heads.value⟩, ?_⟩
    show Before { draft with member := .none } pool
    rw [(idle draft pool before).close]
    exact before
  apply runs_tellItem_scope enters (runs_tell_holding inTurn)
  have finishes : Runs (Holding items (InField header Before)) finishMember
      fun _ draft pool => After { draft with member := .none } pool := by
    unfold finishMember
    refine (Runs.look _).bind fun major => (Runs.look _).bind fun found => ?_
    match found with
    | .none | .moduleScope | .component _ | .method _ =>
        apply Runs.absurd
        rintro draft pool ⟨same, -, holding⟩
        rcases holding.field with ⟨part, isPart, -⟩
        rw [isPart] at same
        cases same
    | .field part =>
        have known : ∀ draft pool, MemberDraft.field part = draft.member ∧
            major = draft.version.major ∧ Holding items (InField header Before) draft pool →
              part.Heads pool header ∧ part.annotations.Tells pool items ∧
                Before { draft with member := .none } pool := by
          rintro draft pool ⟨same, -, holding⟩
          rcases holding.field with ⟨other, isOther, known⟩
          rw [isOther] at same
          cases same
          exact known
        apply Runs.assume fun draft pool before entry member =>
          ((known draft pool before).2.1.fits inTurn.all_good entry (List.mem_reverse.mpr member)).1
        intro allFit
        refine (FieldDraft.runs_write major allFit).bind fun bytes => Runs.tryChange ?_
        rintro draft next pool ⟨before, attributes, holds, rfl⟩ added
        simp only [bind_eq_ok, pure_eq_ok] at added
        rcases added with ⟨table, added, rfl⟩
        rcases known draft pool before with ⟨heads, tells, around⟩
        exact adds _ pool _ _ around (FieldDraft.told_field understands undecoded fits.access heads tells inTurn holds)
          added
  exact runs_finish_member (fun _ _ holding => holding.annotation) finishes fun _ _ => id

end ClassDraft

end ClassFile
