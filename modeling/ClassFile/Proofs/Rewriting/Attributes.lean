import ClassFile.Proofs.Draft.Attributes
import ClassFile.Proofs.Image.Attributes
import ClassFile.Proofs.Rewriting.Annotations
import ClassFile.Proofs.Story.Bodies
import Mathlib.Data.List.Forall2

/-!
# Tables of attributes, written and read

A table of attributes is written in two parts: attributes that the format defines, each at most once and
in a fixed order, and behind them those that it does not define (`AttributeTable.Holds`).  A reader that
sorts the attributes finds of every kind what was written of it.
-/

namespace ClassFile

/-- An attribute by its name and its contents. -/
structure NamedAttribute where
  name : Text
  body : Output

namespace NamedAttribute

/-- Whether bytes are those of an attribute. -/
def Spells (pool : Pool) (written : NamedAttribute) (bytes : List UInt8) : Prop :=
  written.body.size < 4294967296 ∧ ∃ index, pool.text index = .ok written.name ∧
    bytes = bigEndian16 index ++ (bigEndian32 written.body.size.toUInt32 ++ written.body.toList)

end NamedAttribute

/-- Attributes that the format defines, each of them present or not, in the order in which they are
written. -/
abbrev AttributeParts := List (AttributeKind × Option Output)

namespace AttributeParts

/-- The attributes that are present. -/
def written (parts : AttributeParts) : List NamedAttribute :=
  parts.flatMap fun part => part.2.toList.map fun body => ⟨part.1.text, body⟩

/-- What is present of a kind. -/
def found (kind : AttributeKind) (parts : AttributeParts) : Option Output :=
  (parts.lookup kind).join

theorem written_concat (parts : AttributeParts) (kind : AttributeKind) (body? : Option Output) :
    written (parts ++ [(kind, body?)]) = written parts ++ body?.toList.map fun body => ⟨kind.text, body⟩ := by
  simp [written]

theorem filter_written {parts : AttributeParts} {kind : AttributeKind} (once : (parts.map Prod.fst).Nodup) :
    (written parts).filter (fun entry => entry.name = kind.text) =
      (found kind parts).toList.map fun body => ⟨kind.text, body⟩ := by
  have absent (parts : AttributeParts) (none : kind ∉ parts.map Prod.fst) :
      (written parts).filter (fun entry => entry.name = kind.text) = [] := by
    simp only [written, List.filter_eq_nil_iff, List.mem_flatMap, List.mem_map, decide_eq_true_eq]
    rintro _ ⟨part, member, body, -, rfl⟩ same
    exact none (AttributeKind.text_injective same ▸ List.mem_map_of_mem member)
  induction parts with
  | nil => rfl
  | cons part rest ih =>
      rcases part with ⟨other, body?⟩
      rw [List.map_cons, List.nodup_cons] at once
      have split : written ((other, body?) :: rest) =
          (body?.toList.map fun body => ⟨other.text, body⟩) ++ written rest := rfl
      rw [split, List.filter_append]
      by_cases isKind : kind = other
      · subst isKind
        rw [absent rest once.1, found, List.lookup_cons_self, List.append_nil]
        cases body? <;> simp
      · have apart : ¬other.text = kind.text := fun same => isKind (AttributeKind.text_injective same).symm
        have lookup : found kind ((other, body?) :: rest) = found kind rest := by
          rw [found, List.lookup_cons, beq_eq_false_iff_ne.mpr isKind]
          rfl
        rw [lookup, ih once.2]
        cases body? <;> simp [apart]

end AttributeParts

/-! ### Writing -/

namespace AttributeTable

open Draft

/-- The attributes of a table that the format does not define. -/
def customs (attributes : List Attribute) : List NamedAttribute :=
  attributes.map fun entry =>
    ⟨entry.name, match entry.content with
      | .raw bytes => Output.empty.bytes bytes
      | .fields _ => .empty⟩

/-- Whether a table holds attributes: those that the format defines, and then the others. -/
def Holds (parts : AttributeParts) (others : List Attribute) (attributes : AttributeTable) (pool : Pool) :
    Prop :=
  attributes.table.Spells (NamedAttribute.Spells pool) (parts.written ++ customs others)

theorem holds_empty (pool : Pool) : Holds [] [] {} pool :=
  Table.spells_empty

/-- Adds an attribute if there is one. -/
def addPart (kind : AttributeKind) (body? : Option Output) : Draft AttributeTable Unit :=
  match body? with
  | none => pure ()
  | some body => add kind body

variable {parts : AttributeParts}

theorem runs_addNamed {written : List NamedAttribute} {name : UInt16} {body : Output} {text : Text} :
    Runs (fun attributes pool => attributes.table.Spells (NamedAttribute.Spells pool) written ∧
        pool.text name = .ok text)
      (addNamed name body)
      fun _ attributes pool =>
        attributes.table.Spells (NamedAttribute.Spells pool) (written ++ [⟨text, body⟩]) := by
  unfold addNamed
  split
  · exact Runs.throw _
  · rename_i small
    apply Runs.tryChange
    rintro earlier next pool ⟨spells, named⟩ added
    simp only [bind_eq_ok, pure_eq_ok] at added
    rcases added with ⟨table, added, rfl⟩
    apply spells.add added
    exact ⟨Nat.lt_of_not_le small, name, named, by simp [Output.ofU16]⟩

theorem runs_addPart (kind : AttributeKind) (body? : Option Output) :
    Runs (Holds parts []) (addPart kind body?) fun _ => Holds (parts ++ [(kind, body?)]) [] := by
  cases body? with
  | none =>
      apply (Runs.pure ()).weaken (fun _ _ => id)
      rintro _ attributes pool ⟨-, holds⟩
      simpa [Holds, AttributeParts.written_concat] using holds
  | some body =>
      refine (Runs.pooled (PoolBuilder.adds_text kind.text_survives)).bind fun name => ?_
      apply runs_addNamed.weaken (fun _ _ => id)
      intro _ attributes pool spells
      simpa [Holds, AttributeParts.written_concat, customs] using spells

theorem addIndex_eq (kind : AttributeKind) (index? : Option UInt16) :
    addIndex kind index? = addPart kind (index?.map Output.ofU16) := by
  cases index? <;> rfl

theorem addTable_eq (kind : AttributeKind) (table : Table) :
    addTable kind table = addPart kind (if table.isEmpty then none else some table.toOutput) := by
  unfold addTable
  cases table.isEmpty <;> rfl

theorem runs_addCustom {others : List Attribute} {entry : Attribute} {kinds : List AttributeKind}
    (fits : entry.Fits kinds) :
    Runs (Holds parts others) (addCustom entry) fun _ => Holds parts (others ++ [entry]) := by
  rcases fits.raw with ⟨bytes, isRaw⟩
  have content : Draft.pooled (content entry.content) =
      (pure (Output.empty.bytes bytes) : Draft AttributeTable Output) := by
    rw [isRaw]
    rfl
  rw [addCustom, content, pure_bind]
  refine (Runs.pooled (PoolBuilder.adds_text fits.name)).bind fun name => ?_
  apply runs_addNamed.weaken (fun _ _ => id)
  intro _ attributes pool spells
  simpa [Holds, customs, isRaw] using spells

theorem runs_addCustoms {others entries : List Attribute} {kinds : List AttributeKind}
    (fits : ∀ entry ∈ entries, entry.Fits kinds) :
    Runs (Holds parts others) (entries.forM addCustom) fun _ => Holds parts (others ++ entries) := by
  induction entries generalizing others with
  | nil =>
      apply (Runs.pure ()).weaken (fun _ _ => id)
      rintro _ attributes pool ⟨-, holds⟩
      rwa [List.append_nil]
  | cons entry rest ih =>
      rw [List.forall_mem_cons] at fits
      refine (runs_addCustom fits.1).bind fun _ => ?_
      have behind := @ih (others ++ [entry]) fits.2
      rwa [List.append_assoc] at behind

/-- Adds attributes, each of them if there is one. -/
def addParts (more : AttributeParts) : Draft AttributeTable Unit :=
  more.forM fun part => addPart part.1 part.2

theorem runs_addParts (more : AttributeParts) :
    Runs (Holds parts []) (addParts more) fun _ => Holds (parts ++ more) [] := by
  induction more generalizing parts with
  | nil =>
      apply (Runs.pure ()).weaken (fun _ _ => id)
      rintro _ attributes pool ⟨-, holds⟩
      rwa [List.append_nil]
  | cons part rest ih =>
      refine (runs_addPart part.1 part.2).bind fun _ => ?_
      have behind := @ih (parts ++ [part])
      rwa [List.append_assoc] at behind

/-- What the access flags and a generic signature are written as. -/
def commonParts (access : UInt32) (major : UInt16) (signature? : Option UInt16) : AttributeParts :=
  [(.synthetic, if Access.needsSyntheticAttribute access major then some .empty else none),
    (.signature, signature?.map Output.ofU16),
    (.deprecated, if access &&& Access.deprecated != 0 then some .empty else none)]

theorem runs_addCommon (access : UInt32) (major : UInt16) (signature? : Option UInt16) :
    Runs (Holds parts []) (addCommon access major signature?)
      fun _ => Holds (parts ++ commonParts access major signature?) [] := by
  have same : addCommon access major signature? = addParts (commonParts access major signature?) := by
    rw [addCommon, addIndex_eq, commonParts]
    cases Access.needsSyntheticAttribute access major <;> cases access &&& Access.deprecated != 0 <;>
      simp [addParts, addPart]
  rw [same]
  exact runs_addParts _

end AttributeTable

namespace AnnotationTables

open AttributeTable Draft

variable {parts : AttributeParts} {others : List Attribute}

/-- What a table of annotations is written as. -/
def part (kind : AttributeKind) (table : Table) : AttributeKind × Option Output :=
  (kind, if table.isEmpty then none else some table.toOutput)

def plainParts (tables : AnnotationTables) : AttributeParts :=
  [part .runtimeVisibleAnnotations tables.visible, part .runtimeInvisibleAnnotations tables.invisible]

def typeParts (tables : AnnotationTables) : AttributeParts :=
  [part .runtimeVisibleTypeAnnotations tables.visibleTypes,
    part .runtimeInvisibleTypeAnnotations tables.invisibleTypes]

theorem runs_writePlain (tables : AnnotationTables) :
    Runs (Holds parts []) tables.writePlain fun _ => Holds (parts ++ tables.plainParts) [] := by
  have same : tables.writePlain = addParts tables.plainParts := by
    simp [writePlain, addTable_eq, addParts, plainParts, part]
  rw [same]
  exact runs_addParts _

theorem runs_writeTypes (tables : AnnotationTables) :
    Runs (Holds parts []) tables.writeTypes fun _ => Holds (parts ++ tables.typeParts) [] := by
  have same : tables.writeTypes = addParts tables.typeParts := by
    simp [writeTypes, addTable_eq, addParts, typeParts, part]
  rw [same]
  exact runs_addParts _

theorem runs_writeCustom {tables : AnnotationTables} {kinds : List AttributeKind}
    (fits : ∀ entry ∈ tables.attributes, entry.Fits kinds) :
    Runs (Holds parts []) tables.writeCustom fun _ => Holds parts tables.attributes.reverse :=
  runs_addCustoms fun entry member => fits entry (List.mem_reverse.mp member)

end AnnotationTables

/-! ### Reading -/

namespace ClassImage

variable {image : ClassImage} {parts : AttributeParts} {others : List Attribute}

/-- Whether an entry of a table is an attribute with the contents. -/
structure Stands (image : ClassImage) (body : Output) (entry : RawAttribute) : Prop where
  held : image.input.HasAt entry.offset body.toList
  inside : entry.offset ≤ image.input.size
  length : entry.length = body.size

/-- Whether an entry of a table is an attribute. -/
structure StandsAs (image : ClassImage) (written : NamedAttribute) (entry : RawAttribute) : Prop
    extends Stands image written.body entry where
  named : image.pool.text entry.nameIndex = .ok written.name
  kind : ∀ kind, entry.kind? = some kind ↔ written.name = kind.text

end ClassImage

theorem Pool.exists_storedText {pool : Pool} {index : UInt16} {name : Text}
    (named : pool.text index = .ok name) :
    ∃ stored, pool.storedText index = .ok stored ∧ Text.decode stored = .ok name := by
  simp only [Pool.text, Pool.textAt, bind_eq_ok] at named
  rcases named with ⟨place, body, stored, found, named⟩
  refine ⟨stored, ?_, ?_⟩
  · rw [Pool.storedText, body]
    exact found
  · split at named
    · rename_i text decoded
      rw [decoded, ← pure_eq_ok.mp named]
    · cases named

namespace ClassImage

variable {image : ClassImage} {parts : AttributeParts} {others : List Attribute} {pool : Pool}

theorem exists_listAttributes {written : List NamedAttribute} {bytes : List UInt8} {offset : Nat}
    (all : SpellsAll (NamedAttribute.Spells pool) written bytes) (held : pool.input.HasAt offset bytes)
    (inside : offset ≤ pool.input.size) (found : Array RawAttribute) :
    ∃ entries, listAttributes pool offset found written.length =
        .ok (found.toList ++ entries, offset + bytes.length) ∧
      ∀ image : ClassImage, image.input = pool.input → image.pool.text = pool.text →
        List.Forall₂ (StandsAs image) written entries := by
  rcases all with ⟨chunks, each, rfl⟩
  induction each generalizing offset found with
  | nil => exact ⟨[], by simp [listAttributes], fun _ _ _ => .nil⟩
  | @cons entry chunk rest chunks first _ ih =>
      rcases first with ⟨small, index, named, rfl⟩
      rw [List.flatten_cons] at held ⊢
      have name := held.left.left
      have length := held.left.right.left
      have body := held.left.right.right
      have behind := held.right
      rw [length_bigEndian16] at length body
      rw [length_bigEndian32] at body
      have size : entry.body.size.toUInt32.toNat = entry.body.size := by
        simp
        omega
      have stop : offset + 6 + entry.body.size ≤ pool.input.size := by
        have := held.left.stop_le (by simp [bigEndian16])
        simp only [List.length_append, length_bigEndian16, length_bigEndian32] at this
        rw [Output.size_eq_length]
        omega
      have next : offset + (bigEndian16 index ++ (bigEndian32 entry.body.size.toUInt32 ++
          entry.body.toList)).length = offset + 6 + entry.body.size := by
        simp only [List.length_append, length_bigEndian16, length_bigEndian32, Output.size_eq_length]
        omega
      rw [next] at behind
      rcases Pool.exists_storedText named with ⟨stored, readName, decoded⟩
      rcases ih stop (found.push ⟨index, AttributeKind.ofStored? stored, offset + 6,
        entry.body.size⟩) behind with ⟨entries, listed, stand⟩
      refine ⟨⟨index, AttributeKind.ofStored? stored, offset + 6, entry.body.size⟩ :: entries, ?_, ?_⟩
      · rw [List.length_cons, listAttributes]
        simp only [name.u16, length.u32, ok_bind, size, Nat.not_lt.mpr stop, if_false, readName, listed]
        rw [List.length_append, ← Nat.add_assoc, next]
        simp
      · intro image sameInput sameText
        refine .cons ⟨⟨?_, ?_, rfl⟩, ?_, ?_⟩ (stand image sameInput sameText)
        · rw [sameInput]
          exact body
        · rw [sameInput]
          exact Nat.le_trans (Nat.le_add_right _ _) stop
        · rw [sameText]
          exact named
        · exact fun kind => AttributeKind.ofStored?_of_decode decoded

theorem exists_rawAttributes {written : List NamedAttribute} {table : Table} {offset : Nat}
    (spells : table.Spells (NamedAttribute.Spells pool) written)
    (held : pool.input.HasAt offset (bigEndian16 table.count ++ Pieces.toList table.entries)) :
    ∃ entries, rawAttributes pool offset = .ok (entries, offset +
        (bigEndian16 table.count ++ Pieces.toList table.entries).length) ∧
      ∀ image : ClassImage, image.input = pool.input → image.pool.text = pool.text →
        List.Forall₂ (StandsAs image) written entries := by
  have behind := held.right
  rw [length_bigEndian16] at behind
  have inside : offset + 2 ≤ pool.input.size := held.left.stop_le (by simp [bigEndian16])
  rcases exists_listAttributes spells.entries behind inside #[] with ⟨entries, listed, stand⟩
  refine ⟨entries, ?_, stand⟩
  rw [rawAttributes, held.left.u16, ok_bind, spells.count, listed, List.length_append,
    length_bigEndian16, ← Nat.add_assoc]
  rfl

/-- Whether a reader that understands some kinds of attributes finds what was written of each of them, and
all the others. -/
structure Finds (image : ClassImage) (kinds : List AttributeKind) (parts : AttributeParts)
    (others : List Attribute) (entries : List RawAttribute) : Prop where
  only : ∀ kind ∈ kinds, List.Forall₂ (Stands image) (parts.found kind).toList
    (entries.filter fun entry => entry.kind? = some kind)
  others : List.Forall₂ (StandsAs image) (AttributeTable.customs others)
    (RawAttribute.others kinds entries)

theorem Finds.last {kinds : List AttributeKind} {entries : List RawAttribute}
    (finds : image.Finds kinds parts others entries) {kind : AttributeKind} (member : kind ∈ kinds) :
    Option.Rel (Stands image) (parts.found kind) (RawAttribute.last? kind entries) := by
  have only := finds.only kind member
  unfold RawAttribute.last?
  generalize entries.filter (fun entry => decide (entry.kind? = some kind)) = same at only
  cases found : parts.found kind with
  | none =>
      rw [found] at only
      cases only
      exact .none
  | some body =>
      rw [found] at only
      rcases only with _ | ⟨first, ⟨⟩⟩
      exact .some first

theorem finds_of_stand {kinds : List AttributeKind} {entries : List RawAttribute}
    (stand : List.Forall₂ (StandsAs image) (parts.written ++ AttributeTable.customs others) entries)
    (once : (parts.map Prod.fst).Nodup) (inside : ∀ part ∈ parts, part.1 ∈ kinds)
    (apart : ∀ entry ∈ others, ∀ kind ∈ kinds, entry.name ≠ kind.text) :
    image.Finds kinds parts others entries where
  only kind member := by
    have ofKind := List.rel_filter (R := StandsAs image)
      (p := fun written => decide (written.name = kind.text))
      (q := fun entry => decide (entry.kind? = some kind))
      (fun written entry same => by simpa using (same.kind kind).symm) stand
    have noCustom : (AttributeTable.customs others).filter
        (fun written => decide (written.name = kind.text)) = [] := by
      simpa [AttributeTable.customs] using fun entry isOther => apart entry isOther kind member
    rw [List.filter_append, AttributeParts.filter_written once, noCustom, List.append_nil] at ofKind
    exact (List.forall₂_map_left_iff.mp ofKind).imp fun _ _ same => same.toStands
  others := by
    have ofOther := List.rel_filter (R := StandsAs image)
      (p := fun written => decide (∀ kind ∈ kinds, written.name ≠ kind.text))
      (q := fun entry => decide (∀ kind ∈ kinds, entry.kind? ≠ some kind))
      (fun written entry same => by simp [same.kind]) stand
    have noPart : parts.written.filter
        (fun written => decide (∀ kind ∈ kinds, written.name ≠ kind.text)) = [] := by
      simp only [AttributeParts.written, List.filter_eq_nil_iff, List.mem_flatMap, List.mem_map,
        decide_eq_true_eq]
      rintro _ ⟨part, member, body, -, rfl⟩ unknown
      exact unknown part.1 (inside part member) rfl
    have allCustom : (AttributeTable.customs others).filter
        (fun written => decide (∀ kind ∈ kinds, written.name ≠ kind.text)) =
        AttributeTable.customs others := by
      apply List.filter_eq_self.mpr
      simpa [AttributeTable.customs] using apart
    rwa [List.filter_append, noPart, allCustom, List.nil_append] at ofOther

open Emit

theorem exists_finds (proper : image.IsProper) {kinds : List AttributeKind} {attributes : AttributeTable}
    {offset : Nat} (holds : attributes.Holds parts others image.pool)
    (held : image.input.HasAt offset
      (bigEndian16 attributes.table.count ++ Pieces.toList attributes.table.entries))
    (once : (parts.map Prod.fst).Nodup) (inside : ∀ part ∈ parts, part.1 ∈ kinds)
    (apart : ∀ entry ∈ others, ∀ kind ∈ kinds, entry.name ≠ kind.text) :
    ∃ entries, rawAttributes image.pool offset = .ok (entries, offset +
        (bigEndian16 attributes.table.count ++ Pieces.toList attributes.table.entries).length) ∧
      image.Finds kinds parts others entries := by
  rw [← proper.input] at held
  rcases exists_rawAttributes holds held with ⟨entries, raw, stand⟩
  exact ⟨entries, raw, finds_of_stand (stand image proper.input.symm rfl) once inside apart⟩

/-- What is told of an attribute that may be missing. -/
theorem emits_tellIfPresent {body? : Option Output} { entry? : Option RawAttribute} {items : List Item}
    {tell : Nat → Emit Unit} (same : Option.Rel (Stands image) body? entry?)
    (told : ∀ body ∈ body?, ∀ entry, image.Stands body entry → (tell entry.offset).Emits () items)
    (nothing : body? = none → items = []) :
    (tellIfPresent ( entry?.map RawAttribute.offset) tell).Emits () items := by
  cases same with
  | none =>
      rw [nothing rfl]
      exact emits_pure ()
  | some stands => exact told _ rfl _ stands

theorem attributeOf_eq_ok {options : ReadOptions} (undecoded : options.DecodesNothing) {entry : RawAttribute}
    {written : Attribute} {bytes : List UInt8} (raw : written.content = .raw bytes)
    (stands : image.StandsAs ⟨written.name, Output.empty.bytes bytes⟩ entry) :
    image.attributeOf options written.inCode entry = .ok written := by
  have length := stands.length
  have held := stands.held
  simp only [Output.size_eq_length, Output.toList_bytes, Output.toList_empty, List.nil_append] at length held
  have sliced := held.bytes stands.inside
  rw [Input.bytes, map_eq_ok] at sliced
  rcases sliced with ⟨data, sliced, same⟩
  rw [attributeOf, stands.named, ok_bind, length, sliced, ok_bind, undecoded, ok_bind, same, ← raw]
  rfl

theorem emits_tellOthers {options : ReadOptions} (undecoded : options.DecodesNothing) {inCode : Bool}
    {kinds : List AttributeKind} {entries : List RawAttribute} {common : CommonAttributes}
    (finds : image.Finds kinds parts others entries) (sorts : common.Sorts kinds entries)
    (fits : ∀ entry ∈ others, entry.Fits kinds ∧ entry.inCode = inCode) :
    (image.tellOthers options inCode common).Emits ()
      (others.map fun entry => .event (.attribute entry)) := by
  rw [tellOthers, sorts.others, List.reverse_reverse]
  have stand := finds.others
  generalize RawAttribute.others kinds entries = found at stand
  clear finds sorts
  induction others generalizing found with
  | nil =>
      cases stand
      exact emits_pure ()
  | cons written rest ih =>
      rcases stand with _ | @⟨_, found, _, _, first, behind⟩
      rw [List.forall_mem_cons] at fits
      rcases fits.1 with ⟨isFit, rfl⟩
      rcases isFit.raw with ⟨bytes, raw⟩
      dsimp only at first
      rw [raw] at first
      have one : Emits (do Emit.tell (.attribute (← image.attributeOf options written.inCode found))) ()
          [.event (.attribute written)] := by
        apply Emits.bind_lift (attributeOf_eq_ok undecoded raw first)
        exact emits_tell _
      exact one.bind (ih fits.2 _ behind)

end ClassImage

end ClassFile
