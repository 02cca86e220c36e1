import ClassFile.Proofs.Rewriting.Bodies
import ClassFile.Proofs.Rewriting.Members
import ClassFile.Proofs.Rewriting.Names
import ClassFile.Proofs.Rewriting.Parameters

/-!
# Methods, written and read

All that a method is told in front of its body is told again as it was.  The body goes its own way: what it
adds to a method and to the pool leaves the rest alone.
-/

namespace ClassFile

open Emit Item Draft ClassImage

theorem ofTurn_concat_of_ne {items : List Item} {item : Item} {turn : Turn} (other : item.turn ≠ turn) :
    ofTurn turn (items ++ [item]) = ofTurn turn items := by
  rw [AnnotationTables.ofTurn_concat, if_neg other]

theorem ofTurn_concat_self {items : List Item} {item : Item} {turn : Turn} (same : item.turn = turn) :
    ofTurn turn (items ++ [item]) = ofTurn turn items ++ [item] := by
  rw [AnnotationTables.ofTurn_concat, if_pos same]

theorem AnnotationTables.Tells.concat_of_not_mem {pool : Pool} {items : List Item} {item : Item}
    {tables : AnnotationTables} (tells : tables.Tells pool items) (other : item.turn ∉ Turn.ofMember) :
    tables.Tells pool (items ++ [item]) := by
  have apart : ∀ turn ∈ Turn.ofMember, item.turn ≠ turn := by
    rintro turn member rfl
    exact other member
  refine ⟨fun visible => ?_, fun visible => ?_, ?_⟩
  · rw [ofTurn_concat_of_ne (apart _ (by cases visible <;> decide))]
    exact tells.plain visible
  · rw [ofTurn_concat_of_ne (apart _ (by cases visible <;> decide))]
    exact tells.types visible
  · rw [ofTurn_concat_of_ne (apart _ (by decide))]
    exact tells.attributes

namespace MethodDraft

variable {pool : Pool} {header : MethodHeader} {items values : List Item} {item : Item}
  {draft : MethodDraft}

/-- Whether a draft has the head of a method. -/
def Heads (pool : Pool) (header : MethodHeader) (draft : MethodDraft) : Prop :=
  draft.access = header.access ∧ pool.text draft.nameIndex = .ok header.name ∧
    pool.text draft.descriptor = .ok header.descriptor ∧ pool.Names header.signature? draft.signature? ∧
      Slot.AllMean pool (header.exceptions.map .classRef) draft.exceptions

/-- Whether entries, last first, tell the parameters among the items. -/
def TellsParameters (pool : Pool) (items : List Item) (entries : List (UInt16 × UInt16)) : Prop :=
  entries.length = (ofTurn .parameter items).length ∧
    SpellsAll (ToldOne tellParameter pool) (ofTurn .parameter items) (parameterBytes entries.reverse)

/-- Tells the value that an annotation has by default. -/
def tellDefault (image : ClassImage) (offset : Nat) : Emit Nat :=
  Emit.eager .annotationDefault (image.tellElement maxAnnotationLevels none offset)

/-- Whether a value is there if one is among the items, and tells it. -/
def TellsDefault (pool : Pool) (items : List Item) (default? : Option Pieces) : Prop :=
  Option.Rel (fun item pieces => ToldOne tellDefault pool item (Pieces.toList pieces))
    (ofTurn .annotationDefault items).getLast? default?

/-- Whether a draft tells the method. -/
structure Tells (header : MethodHeader) (items : List Item) (draft : MethodDraft) (pool : Pool) : Prop where
  heads : draft.Heads pool header
  parameters : TellsParameters pool items draft.parameters
  default : TellsDefault pool items draft.default?
  annotations : draft.annotations.Tells pool items
  onParameters : ∀ visible, (draft.parameterAnnotations visible).Tells pool visible items
  body : ∀ code ∈ draft.code?, code.Fits

theorem runs_begin {σ : Type} {Before : σ → Pool → Prop} (fits : header.Fits) :
    Runs Before (begin header) fun draft whole pool => Before whole pool ∧ draft.Tells header [] pool := by
  refine (Runs.pooled (PoolBuilder.adds_text fits.name)).bind fun name => ?_
  refine (Runs.pooled (PoolBuilder.adds_text fits.descriptor)).bind fun descriptor => ?_
  refine (CodeDraft.runs_signatureIndex? fits.signature).bind fun signature? => ?_
  refine (runs_classIndices fits.exceptions []).bind fun exceptions => ?_
  apply (Runs.pure _).weaken (fun _ _ => id)
  rintro _ whole pool ⟨rfl, ⟨⟨⟨before, named⟩, described⟩, signed⟩, new, rfl, thrown⟩
  refine ⟨before, ⟨rfl, named, described, signed, thrown⟩, ⟨rfl, spellsAll_nil⟩, .none,
    AnnotationTables.tells_empty, ?_, by simp⟩
  intro visible
  have fresh : ParameterAnnotations.Tells pool visible [] {} := ParameterAnnotations.tells_empty visible
  cases visible <;> exact fresh

/-! ### In front of the body -/

theorem TellsParameters.concat {entries : List (UInt16 × UInt16)} (tells : TellsParameters pool items entries)
    (other : item.turn ≠ .parameter) : TellsParameters pool (items ++ [item]) entries := by
  unfold TellsParameters
  rwa [ofTurn_concat_of_ne other]

theorem TellsDefault.concat {default? : Option Pieces} (tells : TellsDefault pool items default?)
    (other : item.turn ≠ .annotationDefault) : TellsDefault pool (items ++ [item]) default? := by
  unfold TellsDefault
  rwa [ofTurn_concat_of_ne other]

theorem concat_onParameters {annotations : ParameterAnnotations} {visible : Bool}
    (tells : annotations.Tells pool visible items) (count : item.turn ≠ .ofCount visible)
    (parameter : item.turn ≠ .ofParameter visible) : annotations.Tells pool visible (items ++ [item]) :=
  tells.congr (ofTurn_concat_of_ne count) (ofTurn_concat_of_ne parameter)

theorem runs_parameter {entry : Parameter} (survives : ∀ name ∈ entry.name?, name.Survives) :
    Runs (Tells header items) (MethodDraft.item (.parameter entry))
      fun _ => Tells header (items ++ [.event (.methodItem (.parameter entry))]) := by
  have adds : ∀ name ∈ entry.name?, PoolBuilder.Adds (fun _ => True) (PoolBuilder.text name)
      fun index pool => (Slot.text name).Means pool index := fun name member =>
    PoolBuilder.adds_text (survives name member)
  refine (Runs.pooledIfPresent adds).bind fun name => Runs.change ?_
  rintro draft pool ⟨tells, means⟩
  have behind : ofTurn .parameter (items ++ [.event (.methodItem (.parameter entry))]) =
      ofTurn .parameter items ++ [.event (.methodItem (.parameter entry))] :=
    ofTurn_concat_self rfl
  refine ⟨tells.heads, ⟨?_, ?_⟩, tells.default.concat (by simp [turn, MethodItem.turn]),
    tells.annotations.concat_of_not_mem (by simp [turn, MethodItem.turn, Turn.ofMember, Turn.annotations]),
    ?_, tells.body⟩
  · rw [behind]
    simpa using tells.parameters.1
  · rw [behind]
    have all := tells.parameters.2.concat (told_parameter means)
    simpa [parameterBytes] using all
  · intro visible
    exact concat_onParameters (tells.onParameters visible) (by cases visible <;> simp [turn, MethodItem.turn, Turn.ofCount])
      (by cases visible <;> simp [turn, MethodItem.turn, Turn.ofParameter])

theorem Tells.setAnnotations {tables : AnnotationTables} (tells : Tells header items draft pool)
    (isMember : item.turn ∈ Turn.ofMember) (told : tables.Tells pool (items ++ [item])) :
    Tells header (items ++ [item]) { draft with annotations := tables } pool := by
  have apart : ∀ turn, turn ∉ Turn.ofMember → item.turn ≠ turn := by
    rintro turn other rfl
    exact other isMember
  refine ⟨tells.heads, tells.parameters.concat (apart _ (by decide)), tells.default.concat (apart _ (by decide)),
    told, fun visible => ?_, tells.body⟩
  apply concat_onParameters (tells.onParameters visible)
  · exact apart _ (by cases visible <;> decide)
  · exact apart _ (by cases visible <;> decide)

theorem Tells.setParameterAnnotations {annotations : ParameterAnnotations} {visible : Bool}
    (tells : Tells header items draft pool) (isTurn : item.turn ∈ [.ofCount visible, .ofParameter visible])
    (told : annotations.Tells pool visible (items ++ [item])) :
    Tells header (items ++ [item]) (draft.setParameterAnnotations visible annotations) pool := by
  have apart : ∀ turn, turn ∉ [Turn.ofCount visible, .ofParameter visible] → item.turn ≠ turn := by
    rintro turn other rfl
    exact other isTurn
  have parameters := tells.parameters.concat (apart .parameter (by cases visible <;> decide))
  have default := tells.default.concat (apart .annotationDefault (by cases visible <;> decide))
  have notMember : item.turn ∉ Turn.ofMember := by
    intro member
    exact apart _ (by revert member; cases visible <;> cases item.turn <;> decide) rfl
  have annotations := tells.annotations.concat_of_not_mem notMember
  have others : ∀ other, other ≠ visible →
      (draft.parameterAnnotations other).Tells pool other (items ++ [item]) := by
    intro other different
    apply concat_onParameters (tells.onParameters other)
    · exact apart _ (by cases visible <;> cases other <;> first | decide | exact absurd rfl different)
    · exact apart _ (by cases visible <;> cases other <;> first | decide | exact absurd rfl different)
  cases visible with
  | true =>
      refine ⟨tells.heads, parameters, default, annotations, fun other => ?_, tells.body⟩
      cases other with
      | true => exact told
      | false => exact others false nofun
  | false =>
      refine ⟨tells.heads, parameters, default, annotations, fun other => ?_, tells.body⟩
      cases other with
      | true => exact others true nofun
      | false => exact told

theorem runs_parameterCount (count : UInt8) (visible : Bool) :
    Runs (Tells header items) (MethodDraft.item (.annotableParameterCount count visible))
      fun _ => Tells header (items ++ [.event (.methodItem (.annotableParameterCount count visible))]) := by
  apply Runs.change
  intro draft pool tells
  apply tells.setParameterAnnotations
  · exact List.mem_cons.mpr (.inl (by cases visible <;> rfl))
  · exact (tells.onParameters visible).setCount count

/-- Whether a draft tells the method with one annotation more when it keeps the values. -/
def Awaits (header : MethodHeader) (items values : List Item) (item : Item) (place : AnnotationPlace)
    (draft : MethodDraft) (pool : Pool) : Prop :=
  ∀ written : Output, ToldAs tellValues id pool values written.toList →
    Tells header (items ++ [item]) (draft.keep place written) pool

/-- The start of an annotation of the method itself. -/
theorem runs_beginTables {place : AnnotationPlace} {begin : Draft AnnotationTables AnnotationPlace}
    (isMember : item.turn ∈ Turn.ofMember)
    (keeps : ∀ (draft : MethodDraft) written, draft.keep place written =
      { draft with annotations := draft.annotations.keep place written })
    (begins : Runs (fun tables pool => tables.Tells pool items) begin fun found tables pool =>
      found = place ∧ tables.Awaits items values item found pool) :
    Runs (Tells header items) (do
        let place ← Draft.within annotations (fun part draft => { draft with annotations := part }) begin
        return some (place, ElementList.namedValues))
      fun found draft pool => found = some (place, .namedValues) ∧
        Awaits header items values item place draft pool := by
  have within : Runs (Tells header items)
      (Draft.within annotations (fun part draft => { draft with annotations := part }) begin)
      fun found draft pool => found = place ∧ Awaits header items values item place draft pool := by
    apply Runs.within begins
    · intro draft pool tells
      exact tells.annotations
    · rintro draft pool _ tables tells ⟨rfl, awaits⟩
      refine ⟨rfl, fun written told => ?_⟩
      rw [keeps]
      exact tells.setAnnotations isMember (awaits written told)
  refine within.bind fun found => (Runs.pure _).weaken (fun _ _ => id) ?_
  rintro _ draft pool ⟨rfl, rfl, awaits⟩
  exact ⟨rfl, awaits⟩

/-- The start of an annotation of a parameter. -/
theorem runs_beginParameter {position : UInt8} {descriptor : Text} {visible : Bool}
    (survives : descriptor.Survives) :
    Runs (Tells header items) ( beginAnnotation (.annotateParameter position descriptor visible))
      fun found draft pool => found = some (.parameter position visible, .namedValues) ∧
        Awaits header items values (.scope (.annotateParameter position descriptor visible) values)
          (.parameter position visible) draft pool := by
  have within : Runs (Tells header items)
      (Draft.within (fun draft => (draft.parameterAnnotations visible).parameter position)
        (setParameter position visible) (AnnotationSet.begin descriptor))
      fun _ => Awaits header items values (.scope (.annotateParameter position descriptor visible) values)
        (.parameter position visible) := by
    apply Runs.within (AnnotationSet.runs_begin survives)
    · intro draft pool tells
      exact (tells.onParameters visible).sets position
    · intro draft pool _ set tells awaits written told
      have keeps : (draft.setParameter position visible set).keep (.parameter position visible) written =
          draft.setParameterAnnotations visible
            ((draft.parameterAnnotations visible).setParameter position (set.put written)) := by
        have twice := (draft.parameterAnnotations visible).setParameter_setParameter position set
          (set.put written)
        cases visible <;>
          simpa [keep, setParameter, MethodDraft.setParameterAnnotations, MethodDraft.parameterAnnotations,
            ParameterAnnotations.parameter_setParameter] using twice
      rw [keeps]
      apply tells.setParameterAnnotations
      · exact List.mem_cons_of_mem _ (List.mem_singleton.mpr (by cases visible <;> rfl))
      · exact (tells.onParameters visible).setParameter (by cases visible <;> rfl) rfl (awaits written told)
  refine within.bind fun found => (Runs.pure _).weaken (fun _ _ => id) ?_
  rintro _ draft pool ⟨rfl, awaits⟩
  exact ⟨rfl, awaits⟩

/-- The start of the value that an annotation has by default. -/
theorem runs_beginDefault {value : Item} :
    Runs (Tells header items) ( beginAnnotation .annotationDefault)
      fun found draft pool => found = some (.default, .singleValue) ∧
        ∀ written : Output, ToldOne (tellNamed maxAnnotationLevels false) pool value written.toList →
          Tells header (items ++ [.scope .annotationDefault [value]]) (draft.keep .default written) pool := by
  have starts : Runs (Tells header items) (Draft.change fun draft => { draft with default? := some [] })
      fun _ draft pool => ∀ written : Output,
        ToldOne (tellNamed maxAnnotationLevels false) pool value written.toList →
          Tells header (items ++ [.scope .annotationDefault [value]]) (draft.keep .default written) pool := by
    apply Runs.change
    intro draft pool tells written told
    refine ⟨tells.heads, tells.parameters.concat (by simp [turn, Opening.turn]), ?_,
      tells.annotations.concat_of_not_mem (by simp [turn, Opening.turn, Turn.ofMember, Turn.annotations]),
      fun visible => ?_, tells.body⟩
    · have last : (ofTurn .annotationDefault (items ++ [.scope .annotationDefault [value]])).getLast? =
          some (.scope .annotationDefault [value]) := by
        rw [ofTurn_concat_self (show turn (.scope .annotationDefault [value]) = .annotationDefault from rfl),
          List.getLast?_concat]
      have again : ToldOne tellDefault pool (.scope .annotationDefault [value]) written.toList :=
        fun image proper same offset held => (told image proper same offset held).eager
      rw [TellsDefault, last]
      apply Option.Rel.some
      simpa using again
    · exact concat_onParameters (tells.onParameters visible) (by cases visible <;> simp [turn, Opening.turn, Turn.ofCount])
        (by cases visible <;> simp [turn, Opening.turn, Turn.ofParameter])
  refine starts.bind fun _ => (Runs.pure _).weaken (fun _ _ => id) ?_
  rintro _ draft pool ⟨rfl, keeps⟩
  exact ⟨rfl, keeps⟩

/-! ### The body -/

theorem Tells.setCode {code : CodeDraft} (tells : Tells header items draft pool) (fits : code.Fits) :
    Tells header items (draft.setCode code) pool := by
  refine ⟨tells.heads, tells.parameters, tells.default, tells.annotations, tells.onParameters, ?_⟩
  intro other same
  cases same
  exact fits

theorem Tells.code_fits (tells : Tells header items draft pool) : draft.code.Fits := by
  rw [MethodDraft.code]
  cases isCode : draft.code? with
  | none => exact CodeDraft.fits_empty
  | some code => exact tells.body code isCode

theorem runs_inCode_fits {step : Draft CodeDraft Unit}
    (runs : Runs (fun code _ => code.Fits) step fun _ code _ => code.Fits) :
    Runs (Tells header items) (inCode step) fun _ => Tells header items :=
  Runs.within runs (fun _ _ tells => tells.code_fits) fun _ _ _ _ tells fits => tells.setCode fits

/-- The start of a type annotation of the body. -/
theorem runs_beginCodeAnnotation {use : TypeUse} (fits : use.Fits) (anchor : CodeAnchor) :
    Runs (Tells header items) (do return some (← beginCodeAnnotation use anchor, ElementList.namedValues))
      fun found draft pool => found = some (.code, .namedValues) ∧
        ∀ written : Output, ToldAs tellValues id pool values written.toList →
          Tells header items (draft.keep .code written) pool := by
  unfold beginCodeAnnotation
  simp only [bind_assoc, pure_bind]
  refine (Runs.pooled (PoolBuilder.adds_text fits.descriptor)).bind fun index => ?_
  have begins : Runs (Tells header items) (inCode (Draft.change (CodeDraft.beginAnnotation use anchor index)))
      fun _ => Tells header items :=
    runs_inCode_fits (Runs.change fun _ _ known => ⟨known.frames, known.attributes⟩)
  refine (begins.strengthen fun _ _ => And.left).bind fun _ => (Runs.pure _).weaken (fun _ _ => id) ?_
  rintro _ draft pool ⟨rfl, tells⟩
  refine ⟨rfl, fun written _ => tells.setCode ?_⟩
  have known := tells.code_fits
  unfold CodeDraft.keepAnnotation
  split
  · exact known
  · exact ⟨known.frames, known.attributes⟩

theorem runs_item_fits {told : MethodItem} (fits : told.Fits) (inBody : told.turn ∉ Turn.ofMethod) :
    Runs (Tells header items) (MethodDraft.item told) fun _ => Tells header items := by
  cases told with
  | parameter entry => exact absurd (by simp [MethodItem.turn, Turn.ofMethod]) inBody
  | annotableParameterCount count visible =>
      exact absurd (by cases visible <;> simp [MethodItem.turn, Turn.ofMethod]) inBody
  | code => exact runs_inCode_fits ((Runs.pure ()).weaken (fun _ _ => id) fun _ _ _ => And.right)
  | instruction element => exact runs_inCode_fits (CodeDraft.runs_instruction_fits fits)
  | tryCatch block => exact runs_inCode_fits (CodeDraft.runs_tryCatch_fits fits)
  | localVariable entry =>
      exact runs_inCode_fits (CodeDraft.runs_localVariable_fits fits.1 fits.2.1 fits.2.2)
  | maxs stack locals => exact runs_inCode_fits (Runs.change fun _ _ known => ⟨known.frames, known.attributes⟩)

theorem Tells.addAttribute {entry : Attribute} (tells : Tells header items draft pool)
    (outside : entry.inCode = false) :
    Tells header (items ++ [.event (.attribute entry)]) (draft.addAttribute entry) pool := by
  have isTurn : turn (.event (.attribute entry)) = .attribute := by simp [turn, outside]
  rw [MethodDraft.addAttribute, if_neg (by simp [outside])]
  apply tells.setAnnotations
  · rw [isTurn]
    decide
  · exact tells.annotations.addAttribute outside

theorem Tells.addCodeAttribute {kinds : List AttributeKind} {entry : Attribute}
    (tells : Tells header items draft pool) (fits : entry.Fits kinds) (inside : entry.inCode = true) :
    Tells header items (draft.addAttribute entry) pool := by
  have known := tells.code_fits
  rw [MethodDraft.addAttribute, if_pos inside]
  apply tells.setCode
  refine ⟨known.frames, List.forall_mem_cons.mpr ⟨⟨fits.name, fits.raw, by simp⟩, known.attributes⟩⟩

/-! ### Writing a method -/

/-- Writes the code attribute, if there is one. -/
def writeCode {σ : Type} (draft : MethodDraft) : Draft σ (Option Output) :=
  match draft.code? with
  | none => pure none
  | some code => do return some (← code.write draft.name)

/-- Writes the table of parameters, if there are any. -/
def writeParameters {σ : Type} (draft : MethodDraft) : Draft σ (Option Output) :=
  if draft.parameters.isEmpty then pure none
  else do return some (← parameterTable draft.parameters.reverse)

theorem writeAttributes_eq (draft : MethodDraft) (major : UInt16) :
    writeAttributes draft major = (do
      AttributeTable.addPart .code (← draft.writeCode)
      AttributeTable.addTable .exceptions
        (← CodeDraft.written {} (writeExceptions draft.exceptions))
      AttributeTable.addCommon draft.access major draft.signature?
      draft.annotations.writePlain
      AttributeTable.addParts
        [draft.visibleParameters.part .runtimeVisibleParameterAnnotations,
          draft.invisibleParameters.part .runtimeInvisibleParameterAnnotations]
      draft.annotations.writeTypes
      AttributeTable.addPart .annotationDefault (draft.default?.map fun values => values.write .empty)
      AttributeTable.addPart .methodParameters (← draft.writeParameters)
      draft.annotations.writeCustom) := by
  unfold writeAttributes writeCode writeParameters
  simp only [ParameterAnnotations.writeParameterAnnotations_eq]
  cases draft.code? <;> cases draft.default? <;> cases draft.parameters.isEmpty <;>
    simp [AttributeTable.addPart, AttributeTable.addParts]

/-- The attributes that a method is written with. -/
def parts (draft : MethodDraft) (major : UInt16) (code? : Option Output) (exceptions : Table)
    (parameters? : Option Output) : AttributeParts :=
  [(.code, code?), AnnotationTables.part .exceptions exceptions] ++
    AttributeTable.commonParts draft.access major draft.signature? ++ draft.annotations.plainParts ++
    [draft.visibleParameters.part .runtimeVisibleParameterAnnotations,
      draft.invisibleParameters.part .runtimeInvisibleParameterAnnotations] ++
    draft.annotations.typeParts ++
    [(.annotationDefault, draft.default?.map fun values => values.write .empty),
      (.methodParameters, parameters?)]

/-- Whether a table of parameters is what is written of the entries. -/
structure WritesParameters (entries : List (UInt16 × UInt16)) (parameters? : Option Output) : Prop where
  bytes : ∀ output ∈ parameters?, entries.length < 256 ∧
    output.toList = [entries.length.toUInt8] ++ parameterBytes entries
  nothing : parameters? = none → entries = []

section Writing

variable {σ : Type} {Before : σ → Pool → Prop}

theorem runs_writeCode (fits : ∀ code ∈ draft.code?, code.Fits) :
    Runs Before draft.writeCode fun _ => Before := by
  unfold writeCode
  cases isCode : draft.code? with
  | none => exact (Runs.pure _).weaken (fun _ _ => id) fun _ _ _ => And.right
  | some code =>
      refine (CodeDraft.runs_write_fits (fits code isCode) draft.name).bind fun output => ?_
      exact (Runs.pure _).weaken (fun _ _ => id) fun _ _ _ => And.right

theorem runs_writeParameters :
    Runs Before draft.writeParameters fun parameters? part pool =>
      Before part pool ∧ WritesParameters draft.parameters.reverse parameters? := by
  unfold writeParameters
  split
  · rename_i isEmpty
    apply (Runs.pure _).weaken (fun _ _ => id)
    rintro _ part pool ⟨rfl, before⟩
    refine ⟨before, by simp, fun _ => ?_⟩
    rw [List.isEmpty_iff.mp isEmpty]
    rfl
  · refine (runs_parameterTable _).bind fun output => (Runs.pure _).weaken (fun _ _ => id) ?_
    rintro _ part pool ⟨rfl, written, before⟩
    exact ⟨before, by simpa using written, by simp⟩

theorem spells_writeExceptions {done indices : List UInt16} :
    Runs (fun table _ => table.Spells (fun index bytes => bytes = bigEndian16 index) done)
      (writeExceptions indices)
      fun _ table _ => table.Spells (fun index bytes => bytes = bigEndian16 index) (done ++ indices) := by
  induction indices generalizing done with
  | nil =>
      rw [List.append_nil]
      exact (Runs.pure ()).weaken (fun _ _ => id) fun _ _ _ => And.right
  | cons index rest ih =>
      have adds : Runs (fun table _ => table.Spells (fun index bytes => bytes = bigEndian16 index) done)
          (Draft.tryChange (Table.add "exceptions" (.ofU16 index)))
          fun _ table _ => table.Spells (fun index bytes => bytes = bigEndian16 index) (done ++ [index]) :=
        Runs.tryChange fun _ _ _ spells added => spells.add added (by simp [Output.ofU16])
      have behind := @ih (done ++ [index])
      rw [List.append_assoc] at behind
      exact adds.bind fun _ => behind

theorem runs_writeAttributes_all {kinds : List AttributeKind} (major : UInt16)
    (body : ∀ code ∈ draft.code?, code.Fits)
    (fits : ∀ entry ∈ draft.annotations.attributes, entry.Fits kinds) :
    Runs (fun attributes _ => attributes = ({} : AttributeTable)) (writeAttributes draft major)
      fun _ attributes pool => ∃ code? exceptions parameters?,
        exceptions.Spells (fun index bytes => bytes = bigEndian16 index) draft.exceptions ∧
          WritesParameters draft.parameters.reverse parameters? ∧
            attributes.Holds (draft.parts major code? exceptions parameters?)
              draft.annotations.attributes.reverse pool := by
  rw [writeAttributes_eq]
  refine Runs.strengthen (?_ : Runs (AttributeTable.Holds [] []) _ _) ?_
  · refine (runs_writeCode body).bind fun code? => ?_
    refine (AttributeTable.runs_addPart .code code?).bind fun _ => ?_
    have table : Runs (fun table _ => table = ({} : Table)) (writeExceptions draft.exceptions)
        fun _ table _ => table.Spells (fun index bytes => bytes = bigEndian16 index) draft.exceptions := by
      apply (@spells_writeExceptions [] draft.exceptions).strengthen
      rintro table pool rfl
      exact Table.spells_empty
    refine (CodeDraft.runs_written table).bind fun exceptions => ?_
    refine Runs.assume (fun _ _ known => known.2) fun thrown => ?_
    rw [AttributeTable.addTable_eq]
    refine ((AttributeTable.runs_addPart _ _).strengthen fun _ _ => And.left).bind fun _ => ?_
    refine (AttributeTable.runs_addCommon _ _ _).bind fun _ => ?_
    refine (AnnotationTables.runs_writePlain _).bind fun _ => ?_
    refine (AttributeTable.runs_addParts _).bind fun _ => ?_
    refine (AnnotationTables.runs_writeTypes _).bind fun _ => ?_
    refine (AttributeTable.runs_addPart _ _).bind fun _ => ?_
    refine runs_writeParameters.bind fun parameters? => ?_
    refine Runs.assume (fun _ _ known => known.2) fun parameters => ?_
    refine ((AttributeTable.runs_addPart _ _).strengthen fun _ _ => And.left).bind fun _ => ?_
    apply (AnnotationTables.runs_writeCustom fits).weaken (fun _ _ => id)
    intro _ attributes pool holds
    refine ⟨code?, exceptions, parameters?, thrown, parameters, ?_⟩
    simpa [parts, AnnotationTables.part] using holds
  · rintro attributes pool rfl
    exact AttributeTable.holds_empty pool

/-- The bytes in front of the attributes. -/
def head (draft : MethodDraft) (major : UInt16) : Output :=
  .ofU16s [Access.stored draft.access major, draft.nameIndex, draft.descriptor]

theorem runs_write_all {kinds : List AttributeKind} (major : UInt16)
    (body : ∀ code ∈ draft.code?, code.Fits)
    (fits : ∀ entry ∈ draft.annotations.attributes, entry.Fits kinds) :
    Runs Before (draft.write major) fun output whole pool => Before whole pool ∧
      ∃ (attributes : AttributeTable) (code? : Option Output) (exceptions : Table)
        (parameters? : Option Output),
        exceptions.Spells (fun index bytes => bytes = bigEndian16 index) draft.exceptions ∧
          WritesParameters draft.parameters.reverse parameters? ∧
            attributes.Holds (draft.parts major code? exceptions parameters?)
              draft.annotations.attributes.reverse pool ∧
            output = attributes.table.write (draft.head major) := by
  refine (CodeDraft.runs_written (runs_writeAttributes_all major body fits)).bind fun attributes => ?_
  apply (Runs.pure _).weaken (fun _ _ => id)
  rintro _ whole pool ⟨rfl, before, code?, exceptions, parameters?, thrown, parameters, holds⟩
  exact ⟨before, attributes, code?, exceptions, parameters?, thrown, parameters, holds, rfl⟩

end Writing

end MethodDraft

/-! ### Telling a method to the writer -/

namespace ClassDraft

open AnnotationDraft (Between)
open MethodDraft (Tells)

variable {Before Around : ClassDraft → Pool → Prop} {header : MethodHeader} {items values : List Item}
  {item : Item} {place : AnnotationPlace} {opening : Opening} {Known Known' : MethodDraft → Pool → Prop}

/-- Whether a method is open and no annotation is, with what is known of it and of the draft around it. -/
abbrev Recording (Known : MethodDraft → Pool → Prop) (Around : ClassDraft → Pool → Prop) :
    ClassDraft → Pool → Prop :=
  InMethod Known fun draft pool => draft.annotation? = none ∧ Around draft pool

theorem runs_beginInMethod {list : ElementList} {Told : Output → Pool → Prop}
    {Fresh : AnnotationDraft → Pool → Prop} (fresh : ∀ pool, Fresh ⟨list, []⟩ pool)
    ( isAnnotation : enter opening = beginAnnotation opening)
    (begins : Runs Known (MethodDraft.beginAnnotation opening) fun found part pool =>
      found = some (place, list) ∧ ∀ written, Told written pool → Known' (part.keep place written) pool) :
    Runs (Recording Known Around) (record (.enter opening)) fun _ =>
      Opened place Fresh fun draft pool => ∀ written, Told written pool →
        Recording Known' Around (draft.keep place written) pool := by
  show Runs _ (enter opening) _
  rw [ isAnnotation]
  unfold beginAnnotation
  refine (Runs.look _).bind fun found => ?_
  match found with
  | .none | .moduleScope | .component _ | .field _ =>
      apply Runs.absurd
      rintro draft pool ⟨same, part, isMethod, -⟩
      rw [isMethod] at same
      cases same
  | .method part =>
      have within : Runs (fun draft pool => MemberDraft.method part = draft.member ∧
          Recording Known Around draft pool)
          (Draft.within (fun _ => part) (fun part draft => { draft with member := .method part })
            (MethodDraft.beginAnnotation opening))
          fun found draft pool => found = some (place, list) ∧ draft.annotation? = none ∧
            ∀ written, Told written pool → Recording Known' Around (draft.keep place written) pool := by
        apply Runs.within begins
        · rintro draft pool ⟨same, part', isMethod, known, -⟩
          rw [isMethod] at same
          cases same
          exact known
        · rintro draft pool _ next ⟨same, part', isMethod, -, noAnnotation, around⟩ ⟨rfl, keeps⟩
          exact ⟨rfl, noAnnotation, fun written told =>
            ⟨next.keep place written, rfl, keeps written told, noAnnotation, around⟩⟩
      refine within.bind fun found => Runs.assume (fun _ _ known => known.1) ?_
      rintro rfl
      apply Runs.change
      rintro draft pool ⟨-, noAnnotation, keeps⟩
      refine ⟨_, rfl, fresh pool, ?_⟩
      have closed : { draft with annotation? := none } = draft := by
        rw [← noAnnotation]
      show ∀ written, Told written pool →
        Recording Known' Around ({ draft with annotation? := none }.keep place written) pool
      rw [closed]
      exact keeps

theorem runs_addAttribute {entry : Attribute}
    (adds : ∀ part pool, Known part pool → Known' (part.addAttribute entry) pool) :
    Runs (Recording Known Around) (record (.attribute entry)) fun _ => Recording Known' Around := by
  apply Runs.change
  rintro draft pool ⟨part, isMethod, known, around⟩
  rw [ClassDraft.addAttribute, isMethod]
  exact ⟨_, rfl, adds part pool known, around⟩

/-- An annotation of a method is told from its head to its end. -/
theorem runs_tell_inMethod ( isAnnotation : enter opening = beginAnnotation opening)
    (begins : Runs Known (MethodDraft.beginAnnotation opening) fun found part pool =>
      found = some (place, .namedValues) ∧
        ∀ written : Output, ToldAs tellValues id pool values written.toList →
          Known' (part.keep place written) pool)
    (isValues : ∀ item ∈ values, item.IsValue maxAnnotationLevels true) :
    Runs (Recording Known Around) (writer.tellItem (.scope opening values)) fun _ =>
      Recording Known' Around :=
  runs_tell_annotation (runs_beginInMethod (fun _ => ⟨⟨rfl, rfl, [], [], spellsAll_nil, rfl, rfl⟩, rfl⟩)
    isAnnotation begins) isValues

theorem told_single { annotation : AnnotationDraft} {pool : Pool} {value : Item}
    (known : Between maxAnnotationLevels false false [value] (fun outer _ => outer = []) annotation pool) :
    annotation.outer = [] ∧
      ToldOne (tellNamed maxAnnotationLevels false) pool value annotation.toOutput.toList := by
  rcases annotation with ⟨⟨named, count?, pieces⟩, outer⟩
  rcases known with ⟨⟨-, count, bytes, _, all, rfl, written⟩, rfl⟩
  refine ⟨rfl, ?_⟩
  dsimp only at written count
  have uncounted : count? = none := by simpa using count
  rcases spellsAll_cons.mp all with ⟨first, rest, told, nothing, rfl⟩
  rcases nothing with ⟨_, ⟨⟩, rfl⟩
  show ToldOne _ _ _ (ElementList.write ⟨named, count?, pieces⟩ .empty).toList
  rw [ElementList.write, uncounted]
  simpa [written] using told

/-- The value that an annotation has by default is told. -/
theorem runs_tell_default {value : Item} (isValue : value.IsValue maxAnnotationLevels false) :
    Runs (Recording (Tells header items) Around) (writer.tellItem (.scope .annotationDefault [value]))
      fun _ => Recording (Tells header (items ++ [.scope .annotationDefault [value]])) Around := by
  have fresh : ∀ pool, Between maxAnnotationLevels false false [] (fun outer _ => outer = [])
      ⟨.singleValue, []⟩ pool := fun _ => ⟨⟨rfl, rfl, [], [], spellsAll_nil, rfl, rfl⟩, rfl⟩
  apply runs_tellItem_scope (runs_beginInMethod fresh rfl MethodDraft.runs_beginDefault)
  · apply runs_tell_each
    intro done item member
    rw [List.mem_singleton] at member
    exact runs_tell_value (member ▸ isValue)
  · exact runs_finish_outer fun _ _ => told_single

/-- What a method is told in front of its body is recorded. -/
theorem runs_tellItem_front {kinds : List AttributeKind} (fits : item.Fits kinds)
    (isTurn : item.turn ∈ Turn.ofMethod) :
    Runs (Recording (Tells header items) Around) (writer.tellItem item)
      fun _ => Recording (Tells header (items ++ [item])) Around := by
  have plain {descriptor : Text} {visible : Bool} {body : List Item}
      (fits : Item.Fits kinds (.scope (.annotate descriptor visible) body)) :
      Runs (Recording (Tells header items) Around) (writer.tellItem (.scope (.annotate descriptor visible) body))
        fun _ => Recording (Tells header (items ++ [.scope (.annotate descriptor visible) body])) Around :=
    runs_tell_inMethod rfl (MethodDraft.runs_beginTables (by cases visible <;> simp [turn, Opening.turn, Turn.ofMember, Turn.annotations])
      (fun _ _ => rfl) (AnnotationTables.runs_begin fits.1 visible)) fits.2
  have ofType {use : TypeUse} {body : List Item} (fits : Item.Fits kinds (.scope (.annotateType use) body)) :
      Runs (Recording (Tells header items) Around) (writer.tellItem (.scope (.annotateType use) body))
        fun _ => Recording (Tells header (items ++ [.scope (.annotateType use) body])) Around :=
    runs_tell_inMethod rfl (MethodDraft.runs_beginTables (by cases visible : use.visible <;> simp [turn, Opening.turn, Turn.ofMember, Turn.annotations, visible])
      (fun _ _ => rfl) (AnnotationTables.runs_beginType fits.1)) fits.2
  have onParameter {position : UInt8} {descriptor : Text} {visible : Bool} {body : List Item}
      (fits : Item.Fits kinds (.scope (.annotateParameter position descriptor visible) body)) :
      Runs (Recording (Tells header items) Around)
        (writer.tellItem (.scope (.annotateParameter position descriptor visible) body))
        fun _ => Recording (Tells header
          (items ++ [.scope (.annotateParameter position descriptor visible) body])) Around :=
    runs_tell_inMethod rfl (MethodDraft.runs_beginParameter fits.1) fits.2
  simp only [Turn.ofMethod, Turn.annotations, List.cons_append, List.nil_append, List.mem_cons,
    List.not_mem_nil, or_false] at isTurn
  rcases isTurn with isTurn | isTurn | isTurn | isTurn | isTurn | isTurn | isTurn | isTurn | isTurn |
    isTurn | isTurn
  · cases at_of_turn isTurn
    exact runs_tellItem_event (runs_inMethod (MethodDraft.runs_parameter fits))
  · cases at_of_turn isTurn
    rcases fits with ⟨value, rfl, isValue⟩
    exact runs_tell_default isValue
  · cases at_of_turn isTurn
    exact plain fits
  · cases at_of_turn isTurn
    exact plain fits
  · cases at_of_turn isTurn
    exact ofType fits
  · cases at_of_turn isTurn
    exact ofType fits
  · cases at_of_turn isTurn
    exact runs_tellItem_event (runs_inMethod (MethodDraft.runs_parameterCount _ _))
  · cases at_of_turn isTurn
    exact onParameter fits
  · cases at_of_turn isTurn
    exact runs_tellItem_event (runs_inMethod (MethodDraft.runs_parameterCount _ _))
  · cases at_of_turn isTurn
    exact onParameter fits
  · cases at_of_turn isTurn with
    | «attribute» entry outside =>
        exact runs_tellItem_event (runs_addAttribute fun _ _ tells => tells.addAttribute outside)

/-- What a method is told of its body leaves what was told in front of it. -/
theorem runs_tellItem_inBody {kinds : List AttributeKind} (fits : item.Fits kinds)
    (isTurn : item.turn ∈ Turn.code :: (Turn.ofBody ++ [.maxs])) :
    Runs (Recording (Tells header items) Around) (writer.tellItem item)
      fun _ => Recording (Tells header items) Around := by
  have event {told : MethodItem} {turn : Turn} (fits : told.Fits) (isTurn : told.turn = turn)
      (inBody : turn ∉ Turn.ofMethod) :
      Runs (Recording (Tells header items) Around) (writer.tellItem (.event (.methodItem told)))
        fun _ => Recording (Tells header items) Around :=
    runs_tellItem_event (runs_inMethod (MethodDraft.runs_item_fits fits (isTurn ▸ inBody)))
  simp only [Turn.ofBody, List.cons_append, List.nil_append, List.mem_cons, List.not_mem_nil,
    or_false] at isTurn
  rcases isTurn with isTurn | isTurn | isTurn | isTurn | isTurn | isTurn | isTurn | isTurn
  · cases at_of_turn isTurn
    exact event fits isTurn (by decide)
  · cases at_of_turn isTurn
    exact event fits isTurn (by decide)
  · cases at_of_turn isTurn
    exact runs_tell_inMethod rfl (MethodDraft.runs_beginCodeAnnotation fits.1.1 _) fits.2
  · cases at_of_turn isTurn with
    | step instruction => exact event fits isTurn (by decide)
    | stepAnnotations use body =>
        refine @runs_tell_inMethod Around body .code _ _ _ rfl ((Runs.look _).bind fun position => ?_) fits.2
        exact (MethodDraft.runs_beginCodeAnnotation fits.1 _).strengthen fun _ _ => And.right
  · cases at_of_turn isTurn
    exact event fits isTurn (by decide)
  · cases at_of_turn isTurn
    exact runs_tell_inMethod rfl (MethodDraft.runs_beginCodeAnnotation fits.1 _) fits.2
  · cases at_of_turn isTurn with
    | codeAttribute entry inside =>
        exact runs_tellItem_event (runs_addAttribute fun _ _ tells => tells.addCodeAttribute fits inside)
  · cases at_of_turn isTurn
    exact event fits isTurn (by decide)

theorem inTurn_of_isBody {body : List Item} (isBody : IsBody body) :
    InTurn (Fits AttributeKind.ofMethod) (.code :: (Turn.ofBody ++ [.maxs])) body := by
  rcases isBody with ⟨inside, stack, locals, rfl, inTurn, -, -⟩
  have first : AtTurn (Fits AttributeKind.ofMethod) .code [.event (.methodItem .code)] := .one rfl trivial
  have last : AtTurn (Fits AttributeKind.ofMethod) .maxs [.event (.methodItem (.maxs stack locals))] :=
    .one rfl trivial
  simpa using InTurn.cons first (inTurn.append (.cons last .nil))

/-- A method is recorded with what it is told in front of its body. -/
theorem runs_tell_method {front body : List Item} (inFront : InTurn (Fits AttributeKind.ofMethod) Turn.ofMethod front)
    (ends : body = [] ∨ IsBody body) :
    Runs (Recording (Tells header []) Around) (writer.tell (front ++ body))
      fun _ => Recording (Tells header front) Around := by
  have first : Runs (Recording (Tells header []) Around) (writer.tell front)
      fun _ => Recording (Tells header front) Around := by
    refine @runs_tell_items (fun done => Recording (Tells header done) Around) [] front ?_
    intro done item member
    exact runs_tellItem_front (inFront.all_good item member) (inFront.turn_mem item member)
  apply runs_tell_append first
  rcases ends with rfl | isBody
  · exact runs_tell_nil
  · have inTurn := inTurn_of_isBody isBody
    refine @runs_tell_items (fun _ => Recording (Tells header front) Around) [] body ?_
    intro done item member
    exact runs_tellItem_inBody (inTurn.all_good item member) (inTurn.turn_mem item member)

end ClassDraft

end ClassFile
