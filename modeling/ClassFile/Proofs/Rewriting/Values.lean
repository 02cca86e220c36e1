import ClassFile.Image.Annotations
import ClassFile.Proofs.Draft.Telling
import ClassFile.Proofs.Rewriting.Told
import ClassFile.Proofs.Story.Fitting
import ClassFile.Proofs.Text

/-!
# Values of annotations

Every value that is read from a file is written so that it is told again
(`ClassImage.keeps_of_tells_tellElement`).  Values stand one inside the other: while one is written, the
lists around it wait (`AnnotationDraft.Writes`).
-/

namespace ClassFile

/-- What bytes may be, next to a pool. -/
abbrev Spelling := List UInt8 → Pool → Prop

namespace Spelling

def nothing : Spelling :=
  fun bytes _ => bytes = []

def fixed (given : List UInt8) : Spelling :=
  fun bytes _ => bytes = given

def index (means : UInt16 → Pool → Prop) : Spelling :=
  fun bytes pool => ∃ place, means place pool ∧ bytes = bigEndian16 place

/-- One after the other. -/
def followed (first second : Spelling) : Spelling :=
  fun bytes pool => ∃ one two, first one pool ∧ second two pool ∧ bytes = one ++ two

end Spelling

namespace AnnotationConstant

/-- Whether an index stands for a value. -/
def Means (index : UInt16) (pool : Pool) : AnnotationConstant → Prop
  | .byte value => ∃ number, pool.integer index = .ok number ∧ number.toInt8 = value
  | .char value => ∃ number, pool.integer index = .ok number ∧ number.toUInt32.toUInt16 = value
  | .double bits => pool.double index = .ok bits
  | .float bits => pool.float index = .ok bits
  | .int value => pool.integer index = .ok value
  | .long value => pool.long index = .ok value
  | .short value => ∃ number, pool.integer index = .ok number ∧ number.toInt16 = value
  | .boolean value => ∃ number, pool.integer index = .ok number ∧ (number != 0) = value
  | .string value | .classRef value => pool.text index = .ok value

theorem adds_pooled {Before : Pool → Prop} {value : AnnotationConstant} (survives : value.Survives) :
    PoolBuilder.Adds Before value.pooled fun index pool => value.Means index pool := by
  have integer (number : Int32) : PoolBuilder.Adds Before (PoolBuilder.integer number)
      fun index pool => pool.integer index = .ok number :=
    (@PoolBuilder.adds_plain Before (.integer number) trivial rfl rfl).weaken (fun _ => id)
      fun _ _ _ has => Pool.integer_eq_ok.mpr has
  cases value with
  | byte value =>
      exact (integer _).weaken (fun _ => id) fun _ _ _ found => ⟨_, found, by simp⟩
  | char value =>
      exact (integer _).weaken (fun _ => id) fun _ _ _ found => ⟨_, found, by simp⟩
  | double bits =>
      exact (@PoolBuilder.adds_plain Before (.double bits) trivial rfl rfl).weaken (fun _ => id)
        fun _ _ _ has => Pool.double_eq_ok.mpr has
  | float bits =>
      exact (@PoolBuilder.adds_plain Before (.float bits) trivial rfl rfl).weaken (fun _ => id)
        fun _ _ _ has => Pool.float_eq_ok.mpr has
  | int value => exact integer value
  | long value =>
      exact (@PoolBuilder.adds_plain Before (.long value) trivial rfl rfl).weaken (fun _ => id)
        fun _ _ _ has => Pool.long_eq_ok.mpr has
  | short value =>
      exact (integer _).weaken (fun _ => id) fun _ _ _ found => ⟨_, found, by simp⟩
  | boolean value =>
      refine (integer _).weaken (fun _ => id) fun _ _ _ found => ⟨_, found, ?_⟩
      cases value <;> decide
  | string value | classRef value => exact PoolBuilder.adds_text survives

end AnnotationConstant

/-! ### Names of values -/

/-- Whether the values inside a scope have names. -/
def Opening.namesValues : Opening → Bool
  | .array _ => false
  | _ => true

theorem HasName.keptName_eq {named : Bool} {name? : Option Text} (hasName : HasName named name?) :
    Element.keptName named name? = name? := by
  rw [← hasName.1, Element.keptName_isSome]

namespace ElementItem

theorem survives_standardName : standardName.Survives :=
  Text.survives_of_isAscii (by unfold Text.IsAscii; decide +kernel)

theorem survives_getD {name? : Option Text} (survives : ∀ name ∈ name?, name.Survives) :
    (name?.getD standardName).Survives := by
  cases name? with
  | none => exact survives_standardName
  | some name => exact survives name rfl

/-- The value with the name that it keeps. -/
def kept (named : Bool) : ElementItem → ElementItem
  | .constant name? value => .constant (Element.keptName named name?) value
  | .enumeration name? descriptor value =>
      .enumeration (Element.keptName named name?) descriptor value

/-- Whether the texts of a value survive. -/
def Survives : ElementItem → Prop
  | .constant name? value => (∀ name ∈ name?, name.Survives) ∧ value.Survives
  | .enumeration name? descriptor value =>
      (∀ name ∈ name?, name.Survives) ∧ descriptor.Survives ∧ value.Survives

end ElementItem

/-! ### Reading values -/

namespace ClassImage

open Emit

variable {image : ClassImage} {tag : UInt8} {offset : Nat}

theorem IsProper.textAt_of_index (proper : image.IsProper) {index : UInt16} {text : Text}
    (read : image.input.u16 offset = .ok index) (named : image.pool.text index = .ok text) :
    image.textAt offset = .ok text :=
  proper.textAt ⟨index, read, named⟩

theorem IsProper.elementConstant?_eq_ok (proper : image.IsProper) {value : AnnotationConstant}
    {index : UInt16} (read : image.input.u16 offset = .ok index) (means : value.Means index image.pool) :
    image.elementConstant? value.letter.toUInt8 offset = .ok (some value) := by
  cases value with
  | string value | classRef value =>
      have found := proper.textAt_of_index read means
      simp +decide [elementConstant?, AnnotationConstant.letter, found]
  | byte value | char value | short value | boolean value =>
      rcases means with ⟨number, found, rfl⟩
      simp +decide [elementConstant?, AnnotationConstant.letter, read, found]
  | double bits | float bits | int value | long value =>
      have found := means
      simp only [AnnotationConstant.Means] at found
      simp +decide [elementConstant?, AnnotationConstant.letter, read, found]

theorem elementConstant?_eq_none
    (other : tag ∈ ['e'.toUInt8, '@'.toUInt8, '['.toUInt8]) :
    image.elementConstant? tag offset = .ok none := by
  simp only [List.mem_cons, List.not_mem_nil, or_false] at other
  rcases other with rfl | rfl | rfl <;> rfl

/-- Tells one value of a list, with a name in front of it or without. -/
def tellNamed (levels : Nat) (named : Bool) (image : ClassImage) (offset : Nat) : Emit Nat :=
  if named then do
    let name ← image.textAt offset
    image.tellElement levels (some name) (offset + 2)
  else image.tellElement levels none offset

theorem loops_tellElements (levels : Nat) (named : Bool) (image : ClassImage) :
    Loops (image.tellElements (image.tellElement levels) named) (image.tellNamed levels named) id where
  zero _ := rfl
  succ offset count := by
    rw [tellElements]
    cases named
    · rfl
    · simp [tellNamed]

/-- How the name of a value is spelled, where values have names. -/
def nameSpelling (named : Bool) : Option Text → Spelling
  | some name => fun bytes pool =>
      named = true ∧ Spelling.index (fun place pool => pool.text place = .ok name) bytes pool
  | none => fun bytes _ => named = false ∧ bytes = []

section ToldAs

variable {pool : Pool} {levels : Nat} {named : Bool} {name? : Option Text} {item : Item}
  {bytes nameBytes : List UInt8}

theorem told_named (told : ToldOne (fun image => image.tellElement levels name?) pool item bytes)
    (name : nameSpelling named name? nameBytes pool) :
    ToldOne (tellNamed levels named) pool item (nameBytes ++ bytes) := by
  rintro image proper rfl offset held
  cases name? with
  | none =>
      rcases name with ⟨rfl, rfl⟩
      exact told image proper rfl offset held
  | some name =>
      rcases name with ⟨rfl, index, found, rfl⟩
      have behind := held.right
      rw [length_bigEndian16] at behind
      rw [List.length_append, length_bigEndian16, ← Nat.add_assoc]
      exact .bind_lift (proper.textAt_of_index held.left.u16 found)
        (told image proper rfl _ behind)

theorem told_constant {value : AnnotationConstant} {index : UInt16} (means : value.Means index pool) :
    ToldOne (fun image => image.tellElement (levels + 1) name?) pool
      (.event (.element (.constant name? value))) ([value.letter.toUInt8] ++ bigEndian16 index) := by
  rintro image proper rfl offset held
  dsimp only
  rw [tellElement]
  refine .bind_lift held.left.u8 ?_
  refine .bind_lift (proper.elementConstant?_eq_ok held.right.u16 means) ?_
  exact (emits_tell _).bind (emits_pure _)

theorem told_enumeration {descriptor value : Text} {type constant : UInt16}
    (described : pool.text type = .ok descriptor) (means : pool.text constant = .ok value) :
    ToldOne (fun image => image.tellElement (levels + 1) name?) pool
      (.event (.element (.enumeration name? descriptor value)))
      (['e'.toUInt8] ++ (bigEndian16 type ++ bigEndian16 constant)) := by
  rintro image proper rfl offset held
  dsimp only
  rw [tellElement]
  refine .bind_lift held.left.u8 (.bind_lift (elementConstant?_eq_none (by simp)) ?_)
  refine .bind_lift (proper.textAt_of_index held.right.left.u16 described) ?_
  refine .bind_lift (proper.textAt_of_index held.right.right.u16 means) ?_
  exact (emits_tell _).bind (emits_pure _)

variable {values : List Item} {count : UInt16} (number : count.toNat = values.length)
  (all : SpellsAll (ToldOne (tellNamed levels named) pool) values bytes)

include number all

theorem told_tellCounted :
    ToldAs (fun image => image.tellCounted (image.tellElement levels) named) id pool values
      (bigEndian16 count ++ bytes) :=
  ToldAs.counted (loops_tellElements levels named) number all

theorem told_array (unnamed : named = false) :
    ToldOne (fun image => image.tellElement (levels + 1) name?) pool (.scope (.array name?) values)
      (['['.toUInt8] ++ (bigEndian16 count ++ bytes)) := by
  subst unnamed
  rintro image proper rfl offset held
  dsimp only
  rw [tellElement, List.length_append, ← Nat.add_assoc]
  refine .bind_lift held.left.u8 (.bind_lift (elementConstant?_eq_none (by simp)) ?_)
  exact (told_tellCounted number all image proper rfl _ held.right).eager

theorem told_nested (hasNames : named = true) {descriptor : Text} {type : UInt16}
    (described : pool.text type = .ok descriptor) :
    ToldOne (fun image => image.tellElement (levels + 1) name?) pool
      (.scope (.nested name? descriptor) values)
      (['@'.toUInt8] ++ (bigEndian16 type ++ (bigEndian16 count ++ bytes))) := by
  subst hasNames
  rintro image proper rfl offset held
  dsimp only
  rw [tellElement, List.length_append, List.length_append, ← Nat.add_assoc, ← Nat.add_assoc]
  refine .bind_lift held.left.u8 (.bind_lift (elementConstant?_eq_none (by simp)) ?_)
  refine .bind_lift (proper.textAt_of_index held.right.left.u16 described) ?_
  exact (told_tellCounted number all image proper rfl _ held.right.right).eager

end ToldAs

end ClassImage

/-! ### Writing values -/

open ClassImage Draft

namespace ElementList

/-- Whether a list spells values at most so many levels deep with more bytes behind them, and counts so
many values if it counts any. -/
structure Holds (levels : Nat) (named counted : Bool) (values : List Item) (number : Nat)
    (more : Spelling) (list : ElementList) (pool : Pool) : Prop where
  hasNames : list.named = named
  count : list.count?.map UInt16.toNat = if counted then some number else none
  pieces : ∃ bytes rest, SpellsAll (ToldOne (tellNamed levels named) pool) values bytes ∧
    more rest pool ∧ Pieces.toList list.pieces = bytes ++ rest

variable {levels number : Nat} {named counted : Bool} {values : List Item} {more : Spelling}
  {list next : ElementList} {pool : Pool}

theorem Holds.raise (holds : list.Holds levels named counted values number more pool)
    (raised : list.raise = .ok next) :
    next.Holds levels named counted values (number + 1) more pool := by
  have count := holds.count
  unfold ElementList.raise at raised
  split at raised
  · rename_i none
    cases raised
    rw [none] at count
    refine ⟨holds.hasNames, ?_, holds.pieces⟩
    rw [none]
    cases counted
    · rfl
    · cases count
  · cases raised
  · rename_i before full some
    cases raised
    rw [some] at count
    refine ⟨holds.hasNames, ?_, holds.pieces⟩
    cases counted
    · cases count
    · have bound := before.toNat_lt
      have notLast : before.toNat ≠ 65535 := fun same => full (UInt16.toNat_inj.mp same)
      simp only [Option.map_some, if_true, Option.some.injEq] at count ⊢
      rw [UInt16.toNat_add, ← count]
      exact Nat.mod_eq_of_lt (show before.toNat + 1 < 65536 by omega)

theorem Holds.put (holds : list.Holds levels named counted values number more pool) {behind : Spelling}
    {piece : Output} (spelled : behind piece.toList pool) :
    Holds levels named counted values number (more.followed behind)
      { list with pieces := piece :: list.pieces } pool := by
  rcases holds.pieces with ⟨bytes, rest, all, known, pieces⟩
  refine ⟨holds.hasNames, holds.count, bytes, rest ++ piece.toList, all,
    ⟨rest, piece.toList, known, spelled, rfl⟩, ?_⟩
  rw [Pieces.toList_cons, pieces, List.append_assoc]

theorem Holds.weaken (holds : list.Holds levels named counted values number more pool)
    {more' : Spelling} (weaker : ∀ rest, more rest pool → more' rest pool) :
    list.Holds levels named counted values number more' pool := by
  rcases holds.pieces with ⟨bytes, rest, all, known, pieces⟩
  exact ⟨holds.hasNames, holds.count, bytes, rest, all, weaker rest known, pieces⟩

/-- The bytes of a value complete it. -/
theorem Holds.complete (holds : list.Holds levels named counted values (values.length + 1) more pool)
    {item : Item} (told : ∀ rest, more rest pool → ToldOne (tellNamed levels named) pool item rest) :
    list.Holds levels named counted (values ++ [item]) (values ++ [item]).length .nothing pool := by
  rcases holds.pieces with ⟨bytes, rest, all, known, pieces⟩
  refine ⟨holds.hasNames, ?_, bytes ++ rest, [], all.concat (told rest known), rfl, ?_⟩
  · rw [List.length_append]
    exact holds.count
  · rw [pieces, List.append_nil]

/-- The bytes of a list that is complete. -/
theorem Holds.write (holds : list.Holds levels named true values values.length .nothing pool) :
    ∃ (count : UInt16) (bytes : List UInt8), count.toNat = values.length ∧
      SpellsAll (ToldOne (tellNamed levels named) pool) values bytes ∧
        (list.write .empty).toList = bigEndian16 count ++ bytes := by
  rcases holds.pieces with ⟨bytes, _, all, rfl, pieces⟩
  have counts := holds.count
  rw [if_pos rfl, Option.map_eq_some_iff] at counts
  rcases counts with ⟨count, found, number⟩
  refine ⟨count, bytes, number, all, ?_⟩
  rw [ElementList.write, Pieces.toList_write, pieces, found, List.append_nil]
  simp

end ElementList

namespace AnnotationDraft

/-- What is known of the innermost list that is open, and of those around it. -/
def Writes (levels : Nat) (named counted : Bool) (values : List Item) (number : Nat) (more : Spelling)
    (Outside : List ElementList → Pool → Prop) (draft : AnnotationDraft) (pool : Pool) : Prop :=
  draft.inner.Holds levels named counted values number more pool ∧ Outside draft.outer pool

variable {levels number : Nat} {named counted : Bool} {values : List Item} {more : Spelling}
  {Outside : List ElementList → Pool → Prop}

theorem runs_put (piece : Output) :
    Runs (Writes levels named counted values number more Outside) (put piece)
      fun _ => Writes levels named counted values number (more.followed (.fixed piece.toList)) Outside :=
  Runs.change fun _ _ known => ⟨known.1.put rfl, known.2⟩

theorem runs_putTag (letter : Char) :
    Runs (Writes levels named counted values number more Outside) (putTag letter)
      fun _ => Writes levels named counted values number (more.followed (.fixed [letter.toUInt8]))
        Outside :=
  runs_put (Output.empty.u8 letter.toUInt8)

theorem runs_putIndex {adding : Pooling UInt16} {means : UInt16 → Pool → Prop}
    (adds : PoolBuilder.Adds (fun _ => True) adding means) :
    Runs (Writes levels named counted values number more Outside) (putIndex adding)
      fun _ => Writes levels named counted values number (more.followed (.index means)) Outside :=
  (Runs.pooled adds).bind fun index => Runs.change fun _ _ known =>
    ⟨known.1.1.put ⟨index, known.2, by simp [Output.ofU16]⟩, known.1.2⟩

/-- The start of a value, with the name that it keeps. -/
theorem runs_beginElement {name? : Option Text} (survives : ∀ name ∈ name?, name.Survives) :
    Runs (Writes levels named counted values values.length .nothing Outside) (beginElement name?)
      fun _ => Writes levels named counted values (values.length + 1)
        (nameSpelling named (Element.keptName named name?)) Outside := by
  have raises : Runs (Writes levels named counted values values.length .nothing Outside)
      (tryChange fun draft => return { draft with inner := ← draft.inner.raise })
      fun _ => Writes levels named counted values (values.length + 1) .nothing Outside := by
    refine Runs.tryChange fun draft next pool known raised => ?_
    simp only [bind_eq_ok, pure_eq_ok] at raised
    rcases raised with ⟨list, raised, rfl⟩
    exact ⟨known.1.raise raised, known.2⟩
  refine raises.bind fun _ => (Runs.look _).bind fun isNamed => ?_
  have same {draft : AnnotationDraft} {pool : Pool} (known : isNamed = draft.inner.named ∧
      Writes levels named counted values (values.length + 1) .nothing Outside draft pool) :
      isNamed = named := known.1.trans known.2.1.hasNames
  refine Runs.assume (fun _ _ known => same known) fun hasNames => ?_
  subst hasNames
  cases isNamed with
  | false =>
      refine (Runs.pure ()).weaken (fun _ _ => id) fun _ draft pool known => ?_
      exact ⟨known.2.2.1.weaken fun rest nothing => ⟨rfl, nothing⟩, known.2.2.2⟩
  | true =>
      refine (runs_putIndex (PoolBuilder.adds_text (ElementItem.survives_getD survives))).weaken
        (fun _ _ known => known.2) fun _ draft pool known => ?_
      refine ⟨known.1.weaken ?_, known.2⟩
      rintro rest ⟨_, bytes, rfl, spelled, rfl⟩
      exact ⟨rfl, spelled⟩

/-- A list that waits outside, for a value that it has started. -/
def Waits (levels : Nat) (named counted : Bool) (values : List Item) (more : Spelling)
    (Outside : List ElementList → Pool → Prop) (outer : List ElementList) (pool : Pool) : Prop :=
  ∃ around rest, outer = around :: rest ∧
    around.Holds levels named counted values (values.length + 1) more pool ∧ Outside rest pool

theorem runs_openList (list : ElementList) {inside : Nat} {insideNamed : Bool}
    (empty : ∀ pool, list.Holds inside insideNamed true [] 0 .nothing pool) :
    Runs (Writes levels named counted values (values.length + 1) more Outside) (openList list)
      fun _ => Writes inside insideNamed true [] 0 .nothing
        (Waits levels named counted values more Outside) :=
  Runs.change fun draft pool known => ⟨empty pool, draft.inner, draft.outer, rfl, known.1, known.2⟩

/-- A list of values with room for so many levels, and nothing started. -/
abbrev Between (levels : Nat) (named counted : Bool) (values : List Item)
    (Outside : List ElementList → Pool → Prop) : AnnotationDraft → Pool → Prop :=
  Writes levels named counted values values.length .nothing Outside

/-- The end of a list completes the value that it is. -/
theorem writes_of_closed {inside : Nat} {insideNamed : Bool} {body : List Item} {item : Item}
    (told : ∀ (pool : Pool) rest count bytes, more rest pool → count.toNat = body.length →
      SpellsAll (ToldOne (tellNamed inside insideNamed) pool) body bytes →
        ToldOne (tellNamed levels named) pool item (rest ++ (bigEndian16 count ++ bytes)))
    (draft : AnnotationDraft) (pool : Pool)
    (known : draft.Writes inside insideNamed true body body.length .nothing
      (Waits levels named counted values more Outside) pool) :
    ∃ around, draft.closed? = some around ∧
      around.Writes levels named counted (values ++ [item]) (values ++ [item]).length .nothing Outside
        pool := by
  rcases known with ⟨inner, around, rest, outer, waiting, outside⟩
  refine ⟨_, by rw [closed?, outer], ?_, outside⟩
  rcases inner.write with ⟨count, bytes, number, all, written⟩
  have put := @ElementList.Holds.put _ _ _ _ _ _ _ _ waiting (.fixed (bigEndian16 count ++ bytes)) _ written
  apply put.complete
  rintro _ ⟨before, _, known, rfl, rfl⟩
  exact told pool before count bytes known number all

/-! ### Steps -/

/-- A value is written at once. -/
theorem runs_element {item : ElementItem} (survives : item.Survives) :
    Runs (Between (levels + 1) named counted values Outside) (element item)
      fun _ => Between (levels + 1) named counted (values ++ [.event (.element (item.kept named))])
        Outside := by
  cases item with
  | constant name? value =>
      refine (runs_beginElement survives.1).bind fun _ => (runs_putTag _).bind fun _ => ?_
      refine (runs_putIndex (AnnotationConstant.adds_pooled survives.2)).weaken (fun _ _ => id) ?_
      rintro _ draft pool ⟨inner, outside⟩
      refine ⟨inner.complete ?_, outside⟩
      rintro _ ⟨_, _, ⟨name, _, spelled, rfl, rfl⟩, ⟨index, means, rfl⟩, rfl⟩
      rw [List.append_assoc]
      exact told_named (told_constant means) spelled
  | enumeration name? descriptor value =>
      refine (runs_beginElement survives.1).bind fun _ => (runs_putTag _).bind fun _ => ?_
      refine (runs_putIndex (PoolBuilder.adds_text survives.2.1)).bind fun _ => ?_
      refine (runs_putIndex (PoolBuilder.adds_text survives.2.2)).weaken (fun _ _ => id) ?_
      rintro _ draft pool ⟨inner, outside⟩
      refine ⟨inner.complete ?_, outside⟩
      rintro _ ⟨_, _, ⟨_, _, ⟨name, _, spelled, rfl, rfl⟩, ⟨type, described, rfl⟩, rfl⟩,
        ⟨index, means, rfl⟩, rfl⟩
      rw [List.append_assoc, List.append_assoc]
      exact told_named (told_enumeration described means) spelled

/-- How the start of a value that is a scope is spelled, up to the number of the values inside. -/
def scopeSpelling (named : Bool) : Opening → Spelling
  | .nested name? descriptor =>
      ((nameSpelling named name?).followed (.fixed ['@'.toUInt8])).followed
        (.index fun index pool => pool.text index = .ok descriptor)
  | .array name? => (nameSpelling named name?).followed (.fixed ['['.toUInt8])
  | _ => fun _ _ => False

theorem runs_openNested {name? : Option Text} {descriptor : Text}
    (nameSurvives : ∀ name ∈ name?, name.Survives) (survives : descriptor.Survives) :
    Runs (Between (levels + 1) named counted values Outside) (openNested name? descriptor)
      fun _ => Between levels true true [] (Waits (levels + 1) named counted values
        (scopeSpelling named (.nested (Element.keptName named name?) descriptor)) Outside) := by
  refine (runs_beginElement nameSurvives).bind fun _ => (runs_putTag _).bind fun _ => ?_
  refine (runs_putIndex (PoolBuilder.adds_text survives)).bind fun _ => ?_
  exact runs_openList _ fun _ => ⟨rfl, rfl, [], [], spellsAll_nil, rfl, rfl⟩

theorem runs_openArray {name? : Option Text} (nameSurvives : ∀ name ∈ name?, name.Survives) :
    Runs (Between (levels + 1) named counted values Outside) (openArray name?)
      fun _ => Between levels false true [] (Waits (levels + 1) named counted values
        (scopeSpelling named (.array (Element.keptName named name?))) Outside) := by
  refine (runs_beginElement nameSurvives).bind fun _ => (runs_putTag _).bind fun _ => ?_
  exact runs_openList _ fun _ => ⟨rfl, rfl, [], [], spellsAll_nil, rfl, rfl⟩

/-- The values inside complete the value that was started. -/
theorem writes_of_closed_scope (opening : Opening) {insideNamed : Bool}
    (hasNames : opening.namesValues = insideNamed) {body : List Item} (draft : AnnotationDraft)
    (pool : Pool)
    (known : draft.Between levels insideNamed true body
      (Waits (levels + 1) named counted values (scopeSpelling named opening) Outside) pool) :
    ∃ around, draft.closed? = some around ∧
      around.Between (levels + 1) named counted (values ++ [.scope opening body]) Outside pool := by
  refine writes_of_closed (fun pool rest count bytes spelled number all => ?_) draft pool known
  cases opening with
  | nested name? descriptor =>
      rcases spelled with ⟨_, _, ⟨name, _, spelled, rfl, rfl⟩, ⟨index, described, rfl⟩, rfl⟩
      simp only [List.append_assoc]
      exact told_named (told_nested number all hasNames.symm described) spelled
  | array name? =>
      rcases spelled with ⟨name, _, spelled, rfl, rfl⟩
      simp only [List.append_assoc]
      exact told_named (told_array number all hasNames.symm) spelled
  | _ => cases spelled

/-- A list that stands alone is told from its count on. -/
theorem told_toOutput { annotation : AnnotationDraft} {pool : Pool}
    (known : Between levels named true values (fun outer _ => outer = []) annotation pool) :
    ToldAs (fun image => image.tellCounted (image.tellElement levels) named) id pool values
      annotation.toOutput.toList := by
  rcases annotation with ⟨inner, outer⟩
  rcases known with ⟨holds, rfl⟩
  rcases holds.write with ⟨count, bytes, number, all, written⟩
  show ToldAs _ _ _ _ (inner.write .empty).toList
  rw [written]
  exact told_tellCounted number all

end AnnotationDraft

namespace ClassDraft

open AnnotationDraft

variable {levels : Nat} {named counted : Bool} {values : List Item} {place : AnnotationPlace}
  {Outside : List ElementList → Pool → Prop} {Around : ClassDraft → Pool → Prop}

theorem runs_tell_each {items : List Item}
    (each : ∀ done, ∀ item ∈ items,
      Runs (Opened place (Between levels named counted done Outside) Around) (writer.tellItem item)
        fun _ => Opened place (Between levels named counted (done ++ [item]) Outside) Around) :
    Runs (Opened place (Between levels named counted [] Outside) Around) (writer.tell items)
      fun _ => Opened place (Between levels named counted items Outside) Around :=
  @runs_tell_items (fun done => Opened place (Between levels named counted done Outside) Around) [] items
    each

/-- A value is written so that it is told again. -/
theorem runs_tell_value {item : Item} (isValue : item.IsValue levels named) :
    Runs (Opened place (Between levels named counted values Outside) Around) (writer.tellItem item)
      fun _ => Opened place (Between levels named counted (values ++ [item]) Outside) Around := by
  induction isValue generalizing counted values Outside with
  | @constant levels named name? value name survives =>
      apply runs_tellItem_event
      apply runs_inAnnotation
      have runs := @runs_element levels named counted values Outside (.constant name? value)
        ⟨name.2, survives⟩
      rwa [ElementItem.kept, name.keptName_eq] at runs
  | @enumeration levels named name? descriptor value name descriptorSurvives valueSurvives =>
      apply runs_tellItem_event
      apply runs_inAnnotation
      have runs := @runs_element levels named counted values Outside
        (.enumeration name? descriptor value) ⟨name.2, descriptorSurvives, valueSurvives⟩
      rwa [ElementItem.kept, name.keptName_eq] at runs
  | @nested levels named name? descriptor body name survives _ ih =>
      refine runs_tellItem_scope ( runs_inAnnotation (runs_openNested name.2 survives))
        (runs_tell_each fun done item member => ih item member) ?_
      rw [name.keptName_eq]
      exact runs_exit_inner true (writes_of_closed_scope (.nested name? descriptor) rfl)
  | @array levels named name? body name _ ih =>
      refine runs_tellItem_scope ( runs_inAnnotation (runs_openArray name.2))
        (runs_tell_each fun done item member => ih item member) ?_
      rw [name.keptName_eq]
      exact runs_exit_inner true (writes_of_closed_scope (.array name?) rfl)

end ClassDraft

end ClassFile
