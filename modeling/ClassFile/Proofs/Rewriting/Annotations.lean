import ClassFile.Proofs.Rewriting.Targets
import ClassFile.Proofs.Rewriting.Values

/-!
# Annotations, written and read

The annotations that something has stand in four tables, by what they are on and by whether they are
visible, and every annotation is told from its table as it was told to the writer
(`AnnotationTables.Tells`).  An annotation is written in two steps: its head when it is opened, its values
when it is closed.
-/

namespace ClassFile

open Emit

/-! ### Reading annotations -/

namespace ClassImage

/-- Tells one annotation. -/
def tellAnnotation (opening : Text → Opening) (image : ClassImage) (offset : Nat) : Emit Nat := do
  let descriptor ← image.textAt offset
  Emit.eager (opening descriptor) (image.tellValues (offset + 2))

/-- Tells one type annotation. -/
def tellTypeAnnotation (visible : Bool) (image : ClassImage) (offset : Nat) : Emit Nat := do
  let head ← image.typeAnnotationHead visible offset
  Emit.eager (.annotateType head.use) (image.tellValues head.valuesOffset)

theorem loops_tellAnnotationList (opening : Text → Opening) (image : ClassImage) :
    Loops (image.tellAnnotationList opening) ( tellAnnotation opening image) id where
  zero _ := rfl
  succ offset count := by
    rw [tellAnnotationList, tellAnnotation]
    simp

theorem loops_tellTypeAnnotationList (visible : Bool) (image : ClassImage) :
    Loops (image.tellTypeAnnotationList visible) ( tellTypeAnnotation visible image) fun _ => () where
  zero _ := rfl
  succ offset count := by
    rw [tellTypeAnnotationList, tellTypeAnnotation]
    simp

variable {pool : Pool} {index : UInt16} {values : List Item} {bytes : List UInt8}

theorem told_annotation {descriptor : Text} (opening : Text → Opening)
    (described : pool.text index = .ok descriptor) (told : ToldAs tellValues id pool values bytes) :
    ToldOne ( tellAnnotation opening) pool (.scope (opening descriptor) values)
      (bigEndian16 index ++ bytes) := by
  rintro image proper rfl offset held
  have behind := held.right
  rw [length_bigEndian16] at behind
  rw [List.length_append, length_bigEndian16, ← Nat.add_assoc]
  apply Emits.bind_lift (proper.textAt_of_index held.left.u16 described)
  exact (told image proper rfl _ behind).eager

/-- The bytes of a type annotation in front of the index of its type. -/
def placeBytes (use : TypeUse) : List UInt8 :=
  (use.path.write (use.target.write .none .empty)).toList

theorem exists_typeAnnotationHead {image : ClassImage} {offset : Nat} (proper : image.IsProper)
    {use : TypeUse} (fits : use.Fits) (described : image.pool.text index = .ok use.descriptor)
    (held : image.input.HasAt offset (placeBytes use ++ bigEndian16 index)) :
    ∃ location, image.typeAnnotationHead use.visible offset =
      .ok ⟨use, location, offset + (placeBytes use ++ bigEndian16 index).length⟩ := by
  have place : placeBytes use =
      (use.target.write .none .empty).toList ++ (use.path.write .empty).toList := by
    simp [placeBytes, TypePath.toList_write]
  rw [place, List.append_assoc] at held
  rcases TypeTarget.exists_read fits.target held.left with ⟨location, target⟩
  have path := TypePath.read_of_hasAt fits.path held.right.left
  have descriptor := proper.textAt_of_index held.right.right.u16 described
  refine ⟨location, ?_⟩
  rw [typeAnnotationHead, target, ok_bind]
  dsimp only
  rw [path, ok_bind]
  dsimp only
  rw [descriptor, place, List.length_append, List.length_append, length_bigEndian16, ← Nat.add_assoc,
    ← Nat.add_assoc]
  rfl

theorem told_typeAnnotation {use : TypeUse} (fits : use.Fits)
    (described : pool.text index = .ok use.descriptor) (told : ToldAs tellValues id pool values bytes) :
    ToldOne ( tellTypeAnnotation use.visible) pool (.scope (.annotateType use) values)
      (placeBytes use ++ bigEndian16 index ++ bytes) := by
  rintro image proper rfl offset held
  rcases exists_typeAnnotationHead proper fits described held.left with ⟨location, head⟩
  rw [List.length_append, ← Nat.add_assoc]
  apply Emits.bind_lift head
  exact (told image proper rfl _ held.right).eager

end ClassImage

/-! ### Writing annotations -/

open ClassImage Draft

variable {items values : List Item}

namespace AnnotationSet

variable {spells : Pool → Item → List UInt8 → Prop}

theorem runs_raise :
    Runs (fun (set : AnnotationSet) pool => set.Spells (spells pool) items) raise
      fun _ set pool => set.Starts (spells pool) items [] :=
  Runs.tryChange fun _ _ _ known raised => known.raise raised

theorem runs_put {head : List UInt8} (piece : Output) :
    Runs (fun (set : AnnotationSet) pool => set.Starts (spells pool) items head)
      (Draft.change (Table.put piece))
      fun _ set pool => set.Starts (spells pool) items (head ++ piece.toList) :=
  Runs.change fun _ _ starts => starts.put piece

/-- The annotation that was started is complete with its values. -/
theorem runs_begin {opening : Text → Opening} {descriptor : Text} (survives : descriptor.Survives) :
    Runs (fun set pool => set.Spells (ToldOne ( tellAnnotation opening) pool) items) (begin descriptor)
      fun _ set pool => ∀ written : Output, ToldAs tellValues id pool values written.toList →
        (set.put written).Spells (ToldOne ( tellAnnotation opening) pool)
          (items ++ [.scope (opening descriptor) values]) := by
  refine runs_raise.bind fun _ => (Runs.pooled (PoolBuilder.adds_text survives)).bind fun index => ?_
  apply Runs.change
  rintro set pool ⟨starts, described⟩ written told
  apply ((starts.put (.ofU16 index)).put written).complete
  simpa [Output.ofU16] using told_annotation opening described told

theorem runs_beginType {use : TypeUse} (fits : use.Fits) :
    Runs (fun set pool => set.Spells (ToldOne ( tellTypeAnnotation use.visible) pool) items)
      (beginType use)
      fun _ set pool => ∀ written : Output, ToldAs tellValues id pool values written.toList →
        (set.put written).Spells (ToldOne ( tellTypeAnnotation use.visible) pool)
          (items ++ [.scope (.annotateType use) values]) := by
  refine runs_raise.bind fun _ => (runs_put _).bind fun _ => ?_
  refine (Runs.pooled (PoolBuilder.adds_text fits.descriptor)).bind fun index => ?_
  apply Runs.change
  rintro set pool ⟨starts, described⟩ written told
  apply ((starts.put (.ofU16 index)).put written).complete
  simpa [Output.ofU16, placeBytes] using told_typeAnnotation fits described told

end AnnotationSet

/-- The turn of the annotations that are visible at run time, or of those that are not. -/
def Turn.ofPlain (visible : Bool) : Turn :=
  if visible then .visibleAnnotations else .invisibleAnnotations

/-- The turn of the type annotations that are visible at run time, or of those that are not. -/
def Turn.ofType (visible : Bool) : Turn :=
  if visible then .visibleTypeAnnotations else .invisibleTypeAnnotations

namespace AnnotationTables

open Item

/-- Whether the tables tell the annotations and the attributes among the items. -/
structure Tells (pool : Pool) (items : List Item) (tables : AnnotationTables) : Prop where
  plain : ∀ visible, (tables.plain visible).Spells
    (ToldOne ( tellAnnotation (Opening.annotate · visible)) pool) (ofTurn (.ofPlain visible) items)
  types : ∀ visible, (tables.types visible).Spells
    (ToldOne ( tellTypeAnnotation visible) pool) (ofTurn (.ofType visible) items)
  attributes : tables.attributes.reverse.map (fun entry => .event (.attribute entry)) =
    ofTurn .attribute items

variable {pool : Pool} {tables : AnnotationTables} {set : AnnotationSet} {item : Item} {visible : Bool}

theorem tells_empty : Tells pool [] {} := by
  refine ⟨?_, ?_, rfl⟩ <;> rintro (_ | _) <;> exact Table.spells_empty

theorem ofTurn_concat (turn : Turn) :
    ofTurn turn (items ++ [item]) = if item.turn = turn then ofTurn turn items ++ [item]
      else ofTurn turn items := by
  rw [ofTurn_append]
  by_cases same : item.turn = turn <;> simp [ofTurn, same]

theorem Tells.setPlain (tells : Tells pool items tables) (isTurn : item.turn = .ofPlain visible)
    (spells : set.Spells (ToldOne ( tellAnnotation (Opening.annotate · visible)) pool)
      (ofTurn (.ofPlain visible) items ++ [item])) :
    Tells pool (items ++ [item]) (tables.setPlain visible set) := by
  have plain := tells.plain
  have types := tells.types
  have attributes := tells.attributes
  refine ⟨fun other => ?_, fun other => ?_, ?_⟩
  · cases visible <;> cases other <;>
      simp_all [AnnotationTables.setPlain, AnnotationTables.plain, ofTurn_concat, Turn.ofPlain]
  · cases visible <;> cases other <;>
      simp_all [AnnotationTables.setPlain, AnnotationTables.types, ofTurn_concat, Turn.ofPlain, Turn.ofType]
  · cases visible <;> simp_all [AnnotationTables.setPlain, ofTurn_concat, Turn.ofPlain]

theorem Tells.setTypes (tells : Tells pool items tables) (isTurn : item.turn = .ofType visible)
    (spells : set.Spells (ToldOne ( tellTypeAnnotation visible) pool)
      (ofTurn (.ofType visible) items ++ [item])) :
    Tells pool (items ++ [item]) (tables.setTypes visible set) := by
  have plain := tells.plain
  have types := tells.types
  have attributes := tells.attributes
  refine ⟨fun other => ?_, fun other => ?_, ?_⟩
  · cases visible <;> cases other <;>
      simp_all [AnnotationTables.setTypes, AnnotationTables.plain, ofTurn_concat, Turn.ofPlain, Turn.ofType]
  · cases visible <;> cases other <;>
      simp_all [AnnotationTables.setTypes, AnnotationTables.types, ofTurn_concat, Turn.ofType]
  · cases visible <;> simp_all [AnnotationTables.setTypes, ofTurn_concat, Turn.ofType]

theorem Tells.addAttribute {entry : Attribute} (tells : Tells pool items tables)
    (outside : entry.inCode = false) :
    Tells pool (items ++ [.event (.attribute entry)]) (tables.addAttribute entry) := by
  have isTurn : turn (.event (.attribute entry)) = .attribute := by simp [turn, outside]
  refine ⟨fun visible => ?_, fun visible => ?_, ?_⟩
  · rw [ofTurn_concat, isTurn, if_neg (by cases visible <;> decide)]
    exact tells.plain visible
  · rw [ofTurn_concat, isTurn, if_neg (by cases visible <;> decide)]
    exact tells.types visible
  · rw [ofTurn_concat, isTurn, if_pos rfl, ← tells.attributes]
    simp [AnnotationTables.addAttribute]

theorem Tells.fits {kinds : List AttributeKind} (tells : Tells pool items tables)
    (fits : ∀ item ∈ items, item.Fits kinds) :
    ∀ entry ∈ tables.attributes.reverse, entry.Fits kinds ∧ entry.inCode = false := by
  intro entry member
  have isThere : .event (.attribute entry) ∈ ofTurn .attribute items := by
    rw [← tells.attributes]
    exact List.mem_map_of_mem member
  rcases List.mem_filter.mp isThere with ⟨isItem, isTurn⟩
  refine ⟨fits _ isItem, ?_⟩
  cases place : entry.inCode with
  | false => rfl
  | true => simp [turn, place] at isTurn

/-- Whether tables tell the items and one more when they keep the values of the annotation that was
started. -/
def Awaits (items values : List Item) (item : Item) (place : AnnotationPlace) (tables : AnnotationTables)
    (pool : Pool) : Prop :=
  ∀ written : Output, ToldAs tellValues id pool values written.toList →
    Tells pool (items ++ [item]) (tables.keep place written)

theorem runs_begin {descriptor : Text} (survives : descriptor.Survives) (visible : Bool) :
    Runs (fun tables pool => Tells pool items tables) (begin descriptor visible)
      fun place tables pool => place = .plain visible ∧
        Awaits items values (.scope (.annotate descriptor visible) values) place tables pool := by
  have begins : Runs (fun tables pool => Tells pool items tables)
      (Draft.within (plain · visible) (AnnotationTables.setPlain visible) (AnnotationSet.begin descriptor))
      fun _ => Awaits items values (.scope (.annotate descriptor visible) values) (.plain visible) := by
    apply Runs.within (AnnotationSet.runs_begin survives)
    · intro tables pool tells
      exact tells.plain visible
    · intro tables pool _ set tells awaits written told
      have keeps : (tables.setPlain visible set).keep (.plain visible) written =
          tables.setPlain visible (set.put written) := by cases visible <;> rfl
      rw [keeps]
      exact tells.setPlain (by cases visible <;> rfl) (awaits written told)
  refine begins.bind fun _ => (Runs.pure _).weaken (fun _ _ => id) ?_
  rintro place tables pool ⟨rfl, awaits⟩
  exact ⟨rfl, awaits⟩

theorem runs_beginType {use : TypeUse} (fits : use.Fits) :
    Runs (fun tables pool => Tells pool items tables) (beginType use)
      fun place tables pool => place = .ofType use.visible ∧
        Awaits items values (.scope (.annotateType use) values) place tables pool := by
  have begins : Runs (fun tables pool => Tells pool items tables)
      (Draft.within (types · use.visible) (AnnotationTables.setTypes use.visible)
        (AnnotationSet.beginType use))
      fun _ => Awaits items values (.scope (.annotateType use) values) (.ofType use.visible) := by
    apply Runs.within (AnnotationSet.runs_beginType fits)
    · intro tables pool tells
      exact tells.types use.visible
    · intro tables pool _ set tells awaits written told
      have keeps : (tables.setTypes use.visible set).keep (.ofType use.visible) written =
          tables.setTypes use.visible (set.put written) := by cases use.visible <;> rfl
      rw [keeps]
      exact tells.setTypes rfl (awaits written told)
  refine begins.bind fun _ => (Runs.pure _).weaken (fun _ _ => id) ?_
  rintro place tables pool ⟨rfl, awaits⟩
  exact ⟨rfl, awaits⟩

end AnnotationTables

/-! ### Annotations of a class, a field or a record component -/

namespace ClassDraft

open AnnotationDraft Item

variable {Before After Around : ClassDraft → Pool → Prop} {place : AnnotationPlace} {opening : Opening}

/-- Whether the values of an annotation, once they are kept, lead to what is known. -/
def Awaits (values : List Item) (After : ClassDraft → Pool → Prop) (place : AnnotationPlace)
    (draft : ClassDraft) (pool : Pool) : Prop :=
  ∀ written : Output, ToldAs tellValues id pool values written.toList →
    After (draft.keep place written) pool

/-- The start of an annotation of named values. -/
abbrev Started (values : List Item) (After : ClassDraft → Pool → Prop) (place : AnnotationPlace) :
    ClassDraft → Pool → Prop :=
  Opened place (Between maxAnnotationLevels true true [] fun outer _ => outer = [])
    (Awaits values After place)

theorem keep_closed (draft : ClassDraft) (place : AnnotationPlace) (written : Output) :
    { draft.keep place written with annotation? := none } =
      { draft with annotation? := none }.keep place written := by
  rcases draft with ⟨⟩
  rename_i member _
  cases member <;> rfl

/-- The end of an annotation. -/
theorem runs_finish_outer {Known : AnnotationDraft → Pool → Prop} {Told : Output → Pool → Prop}
    (complete : ∀ annotation pool, Known annotation pool →
      annotation.outer = [] ∧ Told annotation.toOutput pool) :
    Runs (Opened place Known fun draft pool => ∀ written, Told written pool →
        After (draft.keep place written) pool)
      (record .finish) fun _ => After := by
  show Runs _ (exit true) _
  unfold exit
  refine (Runs.look _).bind fun found => ?_
  match found with
  | none =>
      apply Runs.absurd
      rintro draft pool ⟨none, annotation, some, -⟩
      rw [← none] at some
      cases some
  | some (place', annotation) =>
      dsimp only
      split
      · rename_i around closed
        apply Runs.absurd
        rintro draft pool ⟨same, annotation', found, known, -⟩
        rw [← same] at found
        cases found
        rw [closed?, (complete _ _ known).1] at closed
        cases closed
      · apply Runs.change
        rintro draft pool ⟨same, annotation', found, known, after⟩
        rw [← same] at found
        cases found
        rw [keep_closed]
        exact after _ (complete _ _ known).2

/-- An annotation of named values is told from its head to its end. -/
theorem runs_tell_annotation
    (enters : Runs Before (record (.enter opening)) fun _ => Started values After place)
    (isValues : ∀ item ∈ values, item.IsValue maxAnnotationLevels true) :
    Runs Before (writer.tellItem (.scope opening values)) fun _ => After := by
  apply runs_tellItem_scope enters
  · exact runs_tell_each fun done item member => runs_tell_value (isValues item member)
  · exact runs_finish_outer fun _ _ known => ⟨known.2, told_toOutput known⟩

/-- Whether annotations and attributes of a class itself, of a field or of a record component are told,
with what is known of the draft apart from them. -/
structure Holding (items : List Item) (Around : ClassDraft → Pool → Prop) (draft : ClassDraft)
    (pool : Pool) : Prop where
  member : draft.member ≠ .moduleScope ∧ ∀ part, draft.member ≠ .method part
  annotation : draft.annotation? = none
  tells : draft.openAnnotations.Tells pool items
  around : Around (draft.setAnnotations {}) pool

theorem annotation_setAnnotations (draft : ClassDraft) (tables : AnnotationTables) :
    (draft.setAnnotations tables).annotation? = draft.annotation? := by
  unfold ClassDraft.setAnnotations
  split <;> rfl

theorem Holding.setAnnotations {draft : ClassDraft} {pool : Pool} {others : List Item}
    (holding : Holding items Around draft pool) {tables : AnnotationTables}
    (tells : tables.Tells pool others) : Holding others Around (draft.setAnnotations tables) pool := by
  rcases holding with ⟨member, annotation, -, around⟩
  rcases draft with ⟨⟩
  rename_i open? _
  cases open? with
  | moduleScope => exact absurd rfl member.1
  | method part => exact absurd rfl (member.2 part)
  | none | component | field => exact ⟨by simp [ClassDraft.setAnnotations], annotation, tells, around⟩

theorem Holding.open_setAnnotations {draft : ClassDraft} {pool : Pool}
    (holding : Holding items Around draft pool) (tables : AnnotationTables) :
    (draft.setAnnotations tables).openAnnotations = tables := by
  rcases holding with ⟨member, -, -, -⟩
  rcases draft with ⟨⟩
  rename_i open? _
  cases open? <;> rfl

theorem Holding.setAnnotations_twice {draft : ClassDraft} {pool : Pool}
    (holding : Holding items Around draft pool) (tables others : AnnotationTables) :
    (draft.setAnnotations tables).setAnnotations others = draft.setAnnotations others := by
  rcases holding with ⟨member, -, -, -⟩
  rcases draft with ⟨⟩
  rename_i open? _
  cases open? <;> rfl

/-- Values are kept with the annotation that was started. -/
theorem Holding.awaits {draft : ClassDraft} {pool : Pool} {tables : AnnotationTables} {item : Item}
    (holding : Holding items Around draft pool) (awaits : tables.Awaits items values item place pool) :
    Awaits values (Holding (items ++ [item]) Around) place (draft.setAnnotations tables) pool := by
  intro written told
  have kept : (draft.setAnnotations tables).keep place written =
      draft.setAnnotations (tables.keep place written) := by
    have member : ∀ part, (draft.setAnnotations tables).member ≠ .method part := by
      rcases holding with ⟨⟨-, noMethod⟩, -, -, -⟩
      rcases draft with ⟨⟩
      rename_i open? _
      cases open? <;> simp_all [ClassDraft.setAnnotations]
    unfold ClassDraft.keep
    split
    · rename_i part isMethod
      exact absurd isMethod (member part)
    · rw [holding.open_setAnnotations, holding.setAnnotations_twice]
  rw [kept]
  exact holding.setAnnotations (awaits written told)

theorem runs_beginPlain {begin : Draft AnnotationTables AnnotationPlace} {item : Item}
    (same : beginPlain opening = (do
      let place ← Draft.within openAnnotations ClassDraft.setAnnotations begin
      return some (place, .namedValues)))
    ( isAnnotation : enter opening = beginAnnotation opening)
    (begins : Runs (fun tables pool => tables.Tells pool items) begin fun found tables pool =>
      found = place ∧ tables.Awaits items values item found pool) :
    Runs (Holding items Around) (record (.enter opening)) fun _ =>
      Started values (Holding (items ++ [item]) Around) place := by
  show Runs _ (enter opening) _
  rw [ isAnnotation]
  unfold beginAnnotation
  have plain {found : MemberDraft} {rest : Option (AnnotationPlace × ElementList) → Draft ClassDraft Unit}
      (opens : ∀ found, rest (some (found, .namedValues)) =
        Draft.change fun draft => { draft with annotation? := some (found, ⟨.namedValues, []⟩) }) :
      Runs (fun draft pool => found = draft.member ∧ Holding items Around draft pool)
        (beginPlain opening >>= rest)
        fun _ => Started values (Holding (items ++ [item]) Around) place := by
    rw [same, bind_assoc]
    have within : Runs (fun draft pool => found = draft.member ∧ Holding items Around draft pool)
        (Draft.within openAnnotations ClassDraft.setAnnotations begin)
        fun found draft pool => found = place ∧ draft.annotation? = none ∧
          Awaits values (Holding (items ++ [item]) Around) place draft pool := by
      apply Runs.within begins
      · intro draft pool known
        exact known.2.tells
      · rintro draft pool _ tables ⟨-, holding⟩ ⟨rfl, awaits⟩
        refine ⟨rfl, ?_, holding.awaits awaits⟩
        rw [annotation_setAnnotations, holding.annotation]
    refine within.bind fun found => ?_
    rw [pure_bind, opens]
    apply Runs.change
    rintro draft pool ⟨rfl, noAnnotation, awaits⟩
    refine ⟨_, rfl, ⟨⟨rfl, rfl, [], [], spellsAll_nil, rfl, rfl⟩, rfl⟩, ?_⟩
    have closed : { draft with annotation? := none } = draft := by
      rw [← noAnnotation]
    show Awaits _ _ _ { draft with annotation? := none } _
    rw [closed]
    exact awaits
  refine (Runs.look _).bind fun found => ?_
  cases found with
  | method part =>
      apply Runs.absurd
      rintro draft pool ⟨isMethod, holding⟩
      exact holding.member.2 part isMethod.symm
  | none | moduleScope | component _ | field _ => exact plain fun _ => rfl

/-- Annotations and attributes are written as they are told. -/
theorem runs_tellItem_holding {kinds : List AttributeKind} {item : Item} (fits : item.Fits kinds)
    (isTurn : item.turn ∈ Turn.ofMember) :
    Runs (Holding items Around) (writer.tellItem item) fun _ => Holding (items ++ [item]) Around := by
  simp only [Turn.ofMember, Turn.annotations, List.cons_append, List.nil_append, List.mem_cons,
    List.not_mem_nil, or_false] at isTurn
  have annotation {descriptor : Text} {visible : Bool} {body : List Item}
      (fits : Item.Fits kinds (.scope (.annotate descriptor visible) body)) :
      Runs (Holding items Around) (writer.tellItem (.scope (.annotate descriptor visible) body))
        fun _ => Holding (items ++ [.scope (.annotate descriptor visible) body]) Around :=
    runs_tell_annotation (runs_beginPlain rfl rfl (AnnotationTables.runs_begin fits.1 visible)) fits.2
  have typeAnnotation {use : TypeUse} {body : List Item}
      (fits : Item.Fits kinds (.scope (.annotateType use) body)) :
      Runs (Holding items Around) (writer.tellItem (.scope (.annotateType use) body))
        fun _ => Holding (items ++ [.scope (.annotateType use) body]) Around :=
    runs_tell_annotation (runs_beginPlain rfl rfl (AnnotationTables.runs_beginType fits.1)) fits.2
  rcases isTurn with isTurn | isTurn | isTurn | isTurn | isTurn
  · cases at_of_turn isTurn
    exact annotation fits
  · cases at_of_turn isTurn
    exact annotation fits
  · cases at_of_turn isTurn
    exact typeAnnotation fits
  · cases at_of_turn isTurn
    exact typeAnnotation fits
  · cases at_of_turn isTurn with
    | «attribute» entry outside =>
        apply runs_tellItem_event
        apply Runs.change
        intro draft pool holding
        have added : draft.addAttribute entry =
            draft.setAnnotations (draft.openAnnotations.addAttribute entry) := by
          rcases holding with ⟨member, -, -, -⟩
          rcases draft with ⟨⟩
          rename_i open? _
          cases open? with
          | moduleScope => exact absurd rfl member.1
          | method part => exact absurd rfl (member.2 part)
          | none | component | field => rfl
        rw [added]
        exact holding.setAnnotations (holding.tells.addAttribute outside)

end ClassDraft

end ClassFile
