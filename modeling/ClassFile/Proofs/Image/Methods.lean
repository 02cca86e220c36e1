import ClassFile.Proofs.Image.Boundaries

/-!
# Labels in the story of a class

In every method that is told whole, a label that an event mentions is visited once if its place is a
boundary, and is never visited otherwise (`ClassImage.visitsBoundaries_of_mem_script`).
-/

namespace ClassFile

namespace ClassImage

open Emit Item

variable {image : ClassImage} {options : ReadOptions}

/-- Whether the story of a method visits the labels that it mentions once at every boundary of the
code and never elsewhere, and all of them between the start and the end of the body. -/
structure VisitsBoundaries (image : ClassImage) (code : CodeArray) (script : Script) : Prop where
  between : ∃ front inner maxStack maxLocals,
    script = front ++ .event (.methodItem .code) ::
      (inner ++ [.event (.methodItem (.maxs maxStack maxLocals))]) ∧ visits script = visits inner
  once : ∀ item ∈ script, ∀ label, item.Mentions label →
    image.IsBoundary code (code.start + label) → (visits script).count label = 1
  never : ∀ item ∈ script, ∀ label, item.Mentions label →
    ¬image.IsBoundary code (code.start + label) → (visits script).count label = 0

theorem not_mentions_event {event : Event} (none : event.labels = []) (label : Label) :
    ¬(Item.event event).Mentions label := by
  rintro ⟨mentioned⟩
  simp [none] at mentioned

theorem visitsBoundaries_of_tellCode {entry : RawAttribute} {front after : Array Item}
    (quiet : Told (fun _ => False) [] #[] front)
    (told : Tells (image.tellCode options entry) front () after) :
    ∃ body, image.codeBody options entry = .ok body ∧
      image.VisitsBoundaries body.code after.toList := by
  rcases told_of_tellCode told with ⟨body, entries, last, found, reads, ⟨inner, rfl, visited,
    mentions⟩, rfl⟩
  rcases quiet with ⟨silent, rfl, noVisits, noLabels⟩
  rw [Array.empty_append]
  have whole : (((silent.push (.event (.methodItem .code))) ++ inner).push
      (.event (.methodItem (.maxs body.maxStack body.maxLocals)))).toList =
      silent.toList ++ .event (.methodItem .code) ::
        (inner.toList ++ [.event (.methodItem (.maxs body.maxStack body.maxLocals))]) := by
    simp
  have visitsWhole : visits (silent.toList ++ .event (.methodItem .code) ::
      (inner.toList ++ [.event (.methodItem (.maxs body.maxStack body.maxLocals))])) =
      visits inner.toList := by
    rw [visits, List.filterMap_append, ← visits, noVisits, List.filterMap_cons_none rfl,
      List.filterMap_append, List.filterMap_cons_none rfl, List.filterMap_nil, List.append_nil,
      List.nil_append, visits]
  have known : ∀ item ∈ silent.toList ++ .event (.methodItem .code) ::
      (inner.toList ++ [.event (.methodItem (.maxs body.maxStack body.maxLocals))]),
      ∀ label, item.Mentions label → label ∈ body.labels := by
    intro item member label mentioned
    simp only [List.mem_append, List.mem_cons, List.not_mem_nil, or_false, Array.mem_toList_iff]
      at member
    rcases member with inFront | rfl | inside | rfl
    · exact (noLabels item inFront label mentioned).elim
    · exact absurd mentioned (not_mentions_event rfl label)
    · exact mentions item inside label mentioned
    · exact absurd mentioned (not_mentions_event rfl label)
  have nodup := reads.nodup (Nat.le_refl _)
  refine ⟨body, found, ?_⟩
  rw [whole]
  refine ⟨⟨_, _, _, _, rfl, visitsWhole⟩, ?_, ?_⟩
  · intro item member label mentioned boundary
    rw [visitsWhole, visited]
    refine List.count_eq_one_of_mem (nodup.filter _) (List.mem_filter.mpr ⟨?_, ?_⟩)
    · exact reads.isBoundary_iff.mp boundary
    · exact Std.HashSet.contains_iff_mem.mpr (known item member label mentioned)
  · intro item member label mentioned notBoundary
    rw [visitsWhole, visited]
    refine List.count_eq_zero.mpr fun visited => notBoundary ?_
    exact reads.isBoundary_iff.mpr (List.mem_filter.mp visited).1

/-! ### Methods -/

section Methods

variable {known : Label → Prop} {P : Item → Prop}

theorem only_tellParameters (each : ∀ parameter, P (.event (.methodItem (.parameter parameter))))
    (offset count : Nat) : Only P (image.tellParameters offset count) := by
  induction count generalizing offset with
  | zero => exact Only.pure _
  | succ count ih =>
      refine (Only.lift _).bind fun name => (Only.lift _).bind fun name? => ?_
      exact (Only.lift _).bind fun access => (Only.tell (each _)).bind fun _ => ih _

theorem allows_parameter (allows : Allows options known P) (asked : options.skipDebug = false)
    (supports : options.api.supports .v5 = true) (parameter : Parameter) :
    P (.event (.methodItem (.parameter parameter))) :=
  allows.plain rfl (options.tells_of_supports supports rfl asked)

theorem only_tellParameterAnnotations (allows : Allows options known P) (visible : Bool)
    (offset : Nat) : Only P (image.tellParameterAnnotations visible offset) := by
  have tables (parameter : UInt8) (offset count : Nat) :
      Only P (image.tellParameterTables visible parameter offset count) := by
    induction count generalizing parameter offset with
    | zero => exact Only.pure _
    | succ count ih =>
        exact (only_tellAnnotationTable allows (fun _ => rfl) (fun _ => rfl) (fun _ => rfl) _).bind
          fun next => ih _ next
  refine (Only.lift _).bind fun count => Only.bind ?_ fun _ => tables _ _ _
  exact Only.tell (allows.plain rfl (options.tells_first rfl rfl))

theorem only_tellDefault (allows : Allows options known P) (place? : Option Nat) :
    Only P (tellIfPresent place? fun offset =>
      discard (Emit.eager .annotationDefault
        (image.tellElement maxAnnotationLevels none offset))) :=
  only_tellIfPresent fun _ => (only_eager allows rfl (by simp [Opening.labels])
    (options.tells_first rfl rfl) (only_tellElement allows _ _ _)).bind fun _ => Only.pure _

end Methods

/-- A method that is told whole has no labels, or visits them at the boundaries of its code. -/
theorem visitsBoundaries_of_tellMethodBody {attributes : MethodAttributes} {script : Script}
    (told : (image.tellMethodBody options attributes).collect = (script, .ok ())) :
    (∀ item ∈ script, ∀ label, ¬item.Mentions label) ∨ ∃ entry body,
      attributes.code? = some entry ∧ image.codeBody options entry = .ok body ∧
        image.VisitsBoundaries body.code script := by
  rw [Emit.collect_eq_ok, tellMethodBody] at told
  have plain : Allows options (fun _ => False) (IsQuiet fun _ => False) := allows_isQuiet _
  have nothing : Told (fun _ => False) [] #[] #[] := ⟨#[], rfl, rfl, by simp⟩
  have rest {tellBody : Emit Unit} {first : Array Item} (front : Told (fun _ => False) [] #[] first)
      (told : Tells (do
        tellIfPresent attributes.annotationDefault? fun offset =>
          discard (Emit.eager .annotationDefault
            (image.tellElement maxAnnotationLevels none offset))
        image.tellAnnotations options attributes.common
        tellIfPresent attributes.visibleParameters? (image.tellParameterAnnotations true)
        tellIfPresent attributes.invisibleParameters? (image.tellParameterAnnotations false)
        image.tellOthers options false attributes.common
        tellBody) first () script.toArray) :
      ∃ last, Told (fun _ => False) [] #[] last ∧ Tells tellBody last () script.toArray := by
    rcases tells_bind.mp told with ⟨_, second, toldDefault, told⟩
    rcases tells_bind.mp told with ⟨_, third, toldAnnotations, told⟩
    rcases tells_bind.mp told with ⟨_, fourth, toldVisible, told⟩
    rcases tells_bind.mp told with ⟨_, fifth, toldInvisible, told⟩
    rcases tells_bind.mp told with ⟨_, last, toldOthers, told⟩
    have quiet : Told (fun _ => False) [] #[] last :=
      front.trans <| (told_of_only (only_tellDefault plain _) toldDefault).trans <|
        (told_of_only (only_tellAnnotations plain _) toldAnnotations).trans <|
        (told_of_only (only_tellIfPresent fun _ => only_tellParameterAnnotations plain _ _)
          toldVisible).trans <|
        (told_of_only (only_tellIfPresent fun _ => only_tellParameterAnnotations plain _ _)
          toldInvisible).trans <|
        told_of_only (only_tellOthers plain _ _) toldOthers
    exact ⟨last, quiet, told⟩
  have silent {last : Array Item} (quiet : Told (fun _ => False) [] #[] last) (told : last = script.toArray) :
      ∀ item ∈ script, ∀ label, ¬item.Mentions label := by
    subst told
    rcases quiet with ⟨items, same, -, noLabels⟩
    rw [Array.empty_append] at same
    subst same
    exact fun item member label mentions =>
      noLabels item (List.mem_toArray.mpr member) label mentions
  dsimp only at told
  split at told
  case' isTrue =>
    rcases tells_bind.mp told with ⟨_, first, toldParameters, told⟩
    have front : Told (fun _ => False) [] #[] first :=
      told_of_only (only_tellIfPresent fun offset => (Only.lift _).bind fun _ =>
        only_tellParameters (fun _ => isQuiet_of_noLabels rfl) _ _) toldParameters
    rcases rest (nothing.trans front) told with ⟨last, quiet, told⟩
  case' isFalse => rcases rest nothing told with ⟨last, quiet, told⟩
  all_goals
    split at told
    · split at told
      · rename_i entry isCode
        rcases visitsBoundaries_of_tellCode quiet told with ⟨body, found, visits⟩
        exact .inr ⟨entry, body, isCode, found, visits⟩
      · exact .inl (silent quiet (tells_pure.mp told).2)
    · exact .inl (silent quiet (tells_pure.mp told).2)

/-! ### The class -/

section Class

variable {known : Label → Prop} {P : Item → Prop}

theorem only_tellMemberBody (allows : Allows options known P) (common : CommonAttributes) :
    Only P (image.tellMemberBody options common) :=
  (only_tellAnnotations allows common).bind fun _ => only_tellOthers allows false common

theorem only_tellFields
    (each : ∀ header common, P (.scope (.field header) (image.tellMemberBody options common).script))
    (offset count : Nat) : Only P (image.tellFields options offset count) := by
  induction count generalizing offset with
  | zero => exact Only.pure _
  | succ count ih =>
      refine (Only.lift _).bind fun access => (Only.lift _).bind fun name => ?_
      refine (Only.lift _).bind fun descriptor => (Only.lift _).bind fun found => ?_
      refine (Only.lift _).bind fun attributes => (Only.lift _).bind fun signature? => ?_
      have rest (value? : Option FieldValue) : Only P (do
          let access := access.toUInt32 ||| attributes.common.accessFlags
          Emit.member (.field ⟨access, name, descriptor, signature?, value?⟩)
            (image.tellMemberBody options attributes.common)
          image.tellFields options found.2 count) :=
        (Only.member (each _ _)).bind fun _ => ih _
      cases attributes.value? with
      | none => exact rest none
      | some index => exact (Only.lift _).bind fun value => rest (some value)

theorem only_tellComponents
    (each : ∀ header common,
      P (.scope (.component header) (image.tellMemberBody options common).script))
    (offset count : Nat) : Only P (image.tellComponents options offset count) := by
  induction count generalizing offset with
  | zero => exact Only.pure _
  | succ count ih =>
      refine (Only.lift _).bind fun name => (Only.lift _).bind fun descriptor => ?_
      refine (Only.lift _).bind fun found => (Only.lift _).bind fun signature? => ?_
      exact (Only.member (each _ _)).bind fun _ => ih _

theorem only_tellMethods
    (each : ∀ header attributes,
      P (.scope (.method header) (image.tellMethodBody options attributes).script))
    (offset count : Nat) : Only P (image.tellMethods options offset count) := by
  induction count generalizing offset with
  | zero => exact Only.pure _
  | succ count ih =>
      refine (Only.lift _).bind fun access => (Only.lift _).bind fun name => ?_
      refine (Only.lift _).bind fun descriptor => (Only.lift _).bind fun found => ?_
      refine (Only.lift _).bind fun signature? => ?_
      have rest (exceptions : List Text) : Only P (do
          let attributes := found.1.foldl MethodAttributes.add {}
          let access := access.toUInt32 ||| attributes.common.accessFlags
          Emit.member (.method ⟨access, name, descriptor, signature?, exceptions⟩)
            (image.tellMethodBody options attributes)
          image.tellMethods options found.2 count) :=
        (Only.member (each _ _)).bind fun _ => ih _
      dsimp only
      split
      · exact (Only.lift _).bind rest
      · exact rest []

theorem only_tellInnerClasses (allows : Allows options known P) (offset count : Nat) :
    Only P (image.tellInnerClasses offset count) := by
  induction count generalizing offset with
  | zero => exact Only.pure _
  | succ count ih =>
      refine (Only.lift _).bind fun name => (Only.lift _).bind fun outer => ?_
      refine (Only.lift _).bind fun outer? => (Only.lift _).bind fun inner => ?_
      refine (Only.lift _).bind fun inner? => (Only.lift _).bind fun access => ?_
      exact (Only.tell (allows.plain rfl (options.tells_first rfl rfl))).bind fun _ => ih _

theorem only_tellSource (each : ∀ file? debug?, P (.event (.classItem (.source file? debug?))))
    (attributes : ClassAttributes) : Only P (image.tellSource attributes) := by
  unfold tellSource
  split
  · refine (Only.lift _).bind fun file? => ?_
    have rest (debug? : Option Text) : Only P (tellClassItem (.source file? debug?)) :=
      Only.tell (each _ _)
    cases attributes.sourceDebug? with
    | none => exact rest none
    | some entry =>
        refine (Only.lift _).bind fun bytes => ?_
        dsimp only
        split
        · exact rest _
        · exact Only.throw _
  · exact Only.pure _

theorem only_tellOuterClass (allows : Allows options known P) (offset : Nat) :
    Only P (image.tellOuterClass offset) := by
  refine (Only.lift _).bind fun owner => (Only.lift _).bind fun index => ?_
  exact (Only.lift _).bind fun method? =>
    Only.tell (allows.plain rfl (options.tells_first rfl rfl))

theorem only_tellNames {item : Text → ClassItem} (each : ∀ name, P (.event (.classItem (item name))))
    (offset : Nat) : Only P (do
      (← image.classTable offset).forM fun name => tellClassItem (item name)) :=
  (Only.lift _).bind fun _ => Only.forM fun _ _ => Only.tell (each _)

theorem only_tellModuleBody (each : ∀ item, P (.event (.moduleItem item)))
    (attributes : ClassAttributes) (offset : Nat) :
    Only P (image.tellModuleBody attributes offset) := by
  have event (item : ModuleItem) : Only P (tellModuleItem item) := Only.tell (each item)
  have packages (offset count : Nat) : Only P (image.tellPackages offset count) := by
    induction count generalizing offset with
    | zero => exact Only.pure _
    | succ count ih =>
        exact (Only.lift _).bind fun _ => (Only.lift _).bind fun _ => (event _).bind fun _ => ih _
  have requirements (offset count : Nat) : Only P (image.tellRequirements offset count) := by
    induction count generalizing offset with
    | zero => exact Only.pure _
    | succ count ih =>
        refine (Only.lift _).bind fun _ => (Only.lift _).bind fun _ => (Only.lift _).bind fun _ => ?_
        exact (Only.lift _).bind fun _ => (Only.lift _).bind fun _ => (event _).bind fun _ => ih _
  have relations (item : Relation → ModuleItem) (offset count : Nat) :
      Only P (image.tellRelations item offset count) := by
    induction count generalizing offset with
    | zero => exact Only.pure _
    | succ count ih =>
        refine (Only.lift _).bind fun _ => (Only.lift _).bind fun _ => (Only.lift _).bind fun _ => ?_
        exact (Only.lift _).bind fun _ => (Only.lift _).bind fun _ => (event _).bind fun _ => ih _
  have uses (offset count : Nat) : Only P (image.tellUses offset count) := by
    induction count generalizing offset with
    | zero => exact Only.pure _
    | succ count ih => exact (Only.lift _).bind fun _ => (event _).bind fun _ => ih _
  have provisions (offset count : Nat) : Only P (image.tellProvisions offset count) := by
    induction count generalizing offset with
    | zero => exact Only.pure _
    | succ count ih =>
        refine (Only.lift _).bind fun _ => (Only.lift _).bind fun _ => ?_
        exact (Only.lift _).bind fun _ => (event _).bind fun _ => ih _
  refine (only_tellIfPresent fun _ => (Only.lift _).bind fun _ => event _).bind fun _ => ?_
  refine (only_tellIfPresent fun _ => (Only.lift _).bind fun _ => packages _ _).bind fun _ => ?_
  refine (Only.lift _).bind fun _ => (requirements _ _).bind fun _ => ?_
  refine (Only.lift _).bind fun _ => (relations _ _ _).bind fun _ => ?_
  refine (Only.lift _).bind fun _ => (relations _ _ _).bind fun _ => ?_
  refine (Only.lift _).bind fun _ => (uses _ _).bind fun _ => ?_
  exact (Only.lift _).bind fun _ => provisions _ _

theorem only_tellModule
    (each : ∀ header attributes offset,
      P (.scope (.moduleScope header) (image.tellModuleBody attributes offset).script))
    (attributes : ClassAttributes) (offset : Nat) : Only P (image.tellModule attributes offset) := by
  refine (Only.lift _).bind fun index => (Only.lift _).bind fun name => ?_
  refine (Only.lift _).bind fun access => (Only.lift _).bind fun version => ?_
  exact (Only.lift _).bind fun version? => Only.member (each _ _ _)

section Allows

variable (allows : Allows options known P)
include allows

theorem allows_source (asked : options.skipDebug = false) (file? debug? : Option Text) :
    P (.event (.classItem (.source file? debug?))) :=
  allows.plain rfl (options.tells_first rfl asked)

theorem allows_field (header : FieldHeader) (common : CommonAttributes) :
    P (.scope (.field header) (image.tellMemberBody options common).script) :=
  allows.scope _ _ rfl (by simp [Opening.labels]) (options.tells_first rfl rfl)
    (allowed_collect allows (only_tellMemberBody allows common))

theorem allows_component (supports : options.api.supports .v8 = true) (header : ComponentHeader)
    (common : CommonAttributes) :
    P (.scope (.component header) (image.tellMemberBody options common).script) :=
  allows.scope _ _ rfl (by simp [Opening.labels]) (options.tells_of_supports supports rfl rfl)
    (allowed_collect allows (only_tellMemberBody allows common))

theorem allows_module (supports : options.api.supports .v6 = true) (header : ModuleHeader)
    (attributes : ClassAttributes) (offset : Nat) :
    P (.scope (.moduleScope header) (image.tellModuleBody attributes offset).script) := by
  have each (item : ModuleItem) : P (.event (.moduleItem item)) :=
    allows.plain rfl (options.tells_of_supports supports rfl rfl)
  exact allows.scope _ _ rfl (by simp [Opening.labels])
    (options.tells_of_supports supports rfl rfl)
    (allowed_collect allows (only_tellModuleBody each attributes offset))

variable (methods : ∀ header attributes,
  P (.scope (.method header) (image.tellMethodBody options attributes).script))
include methods

theorem only_tellMembers : Only P (image.tellMembers options) := by
  refine (Only.lift _).bind fun interfaces => (Only.lift _).bind fun fields => ?_
  refine (only_tellFields (allows_field allows) _ _).bind fun offset => (Only.lift _).bind fun count => ?_
  exact only_tellMethods methods _ _

/-- What holds of the methods and of whatever else a reader is asked to tell holds of all parts of its
story. -/
theorem only_tell : Only P (image.tell options) := by
  have event {item : ClassItem} (told : options.tells (.classItem item) = true) :
      Only P (tellClassItem item) :=
    Only.tell (allows.plain rfl told)
  have named {item : Text → ClassItem} {required : Api}
      (supports : options.api.supports required = true)
      (came : ∀ name, (Event.classItem (item name)).since = required)
      (asked : ∀ name, options.skips (.classItem (item name)) = false) (name : Text) :
      P (.event (.classItem (item name))) :=
    allows.plain rfl (options.tells_of_supports supports (came _) (asked _))
  refine (Only.lift _).bind fun access => (Only.lift _).bind fun name => ?_
  refine (Only.lift _).bind fun super? => (Only.lift _).bind fun found => ?_
  refine (Only.lift _).bind fun interfaces => (Only.lift _).bind fun entries => ?_
  refine (Only.lift _).bind fun signature? =>
    (event (options.tells_first rfl rfl)).bind fun _ => ?_
  refine Only.guarded (fun asked => only_tellSource (allows_source allows (by simpa using asked)) _) ?_
  refine Only.guarded (fun supports => only_tellIfPresent fun offset =>
    only_tellModule (allows_module allows supports) _ _) ?_
  refine Only.guarded (fun supports => only_tellIfPresent fun offset => (Only.lift _).bind fun _ =>
    event (options.tells_of_supports supports rfl rfl)) ?_
  refine (only_tellIfPresent fun offset => only_tellOuterClass allows _).bind fun _ => ?_
  refine (only_tellAnnotations allows _).bind fun _ => ?_
  refine (only_tellOthers allows _ _).bind fun _ => ?_
  refine Only.guarded (fun supports => only_tellIfPresent
    (only_tellNames (named supports (fun _ => by rfl) fun _ => by rfl))) ?_
  refine Only.guarded (fun supports => only_tellIfPresent
    (only_tellNames (named supports (fun _ => by rfl) fun _ => by rfl))) ?_
  refine (only_tellIfPresent fun offset =>
    (Only.lift _).bind fun _ => only_tellInnerClasses allows _ _).bind fun _ => ?_
  refine Only.guarded (fun supports => only_tellIfPresent fun offset =>
    (Only.lift _).bind fun _ => only_tellComponents (allows_component allows supports) _ _) ?_
  refine (only_tellMembers allows methods).bind fun _ => ?_
  exact Only.tell (allows.plain rfl (options.tells_first rfl rfl))

end Allows

end Class

/-- Whether an item, if it is a method, is told by `tellMethodBody`. -/
def IsMethodStory (image : ClassImage) (options : ReadOptions) (item : Item) : Prop :=
  ∀ header body, item = .scope (.method header) body →
    ∃ attributes, body = (image.tellMethodBody options attributes).script

theorem allows_isMethodStory :
    Allows options (fun _ => True) (image.IsMethodStory options) where
  event := by rintro event - - - header body ⟨⟩
  scope := by
    rintro opening body notMethod - - - header inner ⟨⟩
    cases notMethod
  fault := by rintro cause header body ⟨⟩

theorem isMethodStory_method (header : MethodHeader) (attributes : MethodAttributes) :
    image.IsMethodStory options
      (.scope (.method header) (image.tellMethodBody options attributes).script) := by
  rintro header body ⟨⟩
  exact ⟨_, rfl⟩

/-- Every method that is told whole has no labels, or visits them at the boundaries of its code. -/
theorem visitsBoundaries_of_mem_script {header : MethodHeader} {body : Script}
    (member : .scope (.method header) body ∈ image.script options)
    (whole : ∀ cause, .fault cause ∉ body) :
    (∀ item ∈ body, ∀ label, ¬item.Mentions label) ∨ ∃ attributes entry found,
      body = (image.tellMethodBody options attributes).script ∧ attributes.code? = some entry ∧
        image.codeBody options entry = .ok found ∧ image.VisitsBoundaries found.code body := by
  have only : Only (image.IsMethodStory options) (image.tell options) :=
    only_tell allows_isMethodStory isMethodStory_method
  rcases only.collect _ member with isStory | ⟨cause, isFault⟩
  · rcases isStory header body rfl with ⟨attributes, same⟩
    subst same
    have told := Emit.collect_of_no_fault whole
    rcases visitsBoundaries_of_tellMethodBody told with none | ⟨entry, found, isCode, read, visits⟩
    · exact .inl none
    · exact .inr ⟨attributes, entry, found, rfl, isCode, read, visits⟩
  · cases isFault

/-! ### A jump into an instruction

The code of this file is a jump to itself and a jump to its second byte, where no instruction
starts. -/

/-- A class file with one method of two jumps. -/
def twoJumps : Input :=
  ⟨⟨#[0xCA, 0xFE, 0xBA, 0xBE, 0, 0, 0, 52,
    -- the pool: the name and the class A, the name of the attribute, the descriptor
    0, 5, 1, 0, 1, 65, 7, 0, 1, 1, 0, 4, 67, 111, 100, 101, 1, 0, 3, 40, 41, 86,
    0, 33, 0, 2, 0, 0, 0, 0, 0, 0,
    0, 1, 0, 9, 0, 1, 0, 4, 0, 1, 0, 3, 0, 0, 0, 18,
    0, 0, 0, 0, 0, 0, 0, 6, 167, 0, 0, 167, 255, 254, 0, 0, 0, 0,
    0, 0]⟩⟩

def twoJumpsImage : ClassImage where
  input := twoJumps
  pool := ⟨twoJumps, #[0, 10, 14, 17, 24], 30, #[]⟩
  version := .standard
  headerOffset := 30
  attributesOffset := 74

def twoJumpsHeader : MethodHeader :=
  ⟨9, .ofString "A", .ofString "()V", none, []⟩

def twoJumpsEntry : RawAttribute :=
  ⟨3, some .code, 56, 18⟩

def twoJumpsBody : Script :=
  plainScript 0 0 [.label 0, .jump .goto 0, .jump .goto 1]

theorem ofInput?_twoJumps : ofInput? twoJumps = .ok twoJumpsImage := by
  have step {tag : PoolTag} {index offset size : Nat} {offsets : Array Nat} (inside : index < 5)
      (tagged : Pool.tagAt twoJumps offset = .ok tag) (narrow : tag.isWide = false)
      (sized : Pool.bodySize twoJumps tag (offset + 1) = .ok size) :
      Pool.findEntries twoJumps 5 index offset offsets =
        Pool.findEntries twoJumps 5 (index + 1) (offset + 1 + size) (offsets.push offset) := by
    rw [Pool.findEntries, if_pos inside, tagged, ok_bind, sized]
    simp only [narrow, Bool.false_and]
    rfl
  have found : Pool.findEntries twoJumps 5 1 10 #[0] = .ok (#[0, 10, 14, 17, 24], 30) := by
    rw [step (by decide) rfl rfl rfl, step (by decide) rfl rfl rfl, step (by decide) rfl rfl rfl,
      step (by decide) rfl rfl rfl, Pool.findEntries]
    rfl
  have pool : Pool.ofInput? twoJumps = .ok twoJumpsImage.pool := by
    rw [Pool.ofInput?, show twoJumps.u16 8 = .ok 5 from rfl, ok_bind]
    show (Pool.findEntries twoJumps 5 1 10 #[0] >>= _) = _
    rw [found]
    rfl
  rw [ofInput?, pool]
  rfl

theorem reads_twoJumps :
    Reads twoJumpsImage .latest ⟨64, 6⟩ 70 64 [(0, .jump .goto 0), (3, .jump .goto 1)] := by
  have second : Reads twoJumpsImage .latest ⟨64, 6⟩ 70 67 [(3, .jump .goto 1)] :=
    .step (by decide) trivial (show _ = Except.ok (_, 70) from rfl) .done
  exact .step (by decide) trivial (show _ = Except.ok (_, 67) from rfl) second

theorem hasAt_twoJumps : twoJumpsImage.input.HasAt twoJumpsEntry.offset
    (plainBody 0 0 [167, 0, 0, 167, 255, 254]) := by
  unfold Input.HasAt
  decide

theorem script_tellMethodBody_twoJumps :
    (twoJumpsImage.tellMethodBody {} { code? := some twoJumpsEntry }).script = twoJumpsBody := by
  have told := @tellCode_plain twoJumpsImage {} twoJumpsEntry 0 0 _ _ rfl hasAt_twoJumps rfl (by decide)
    (by decide) reads_twoJumps
  simp only [announce, List.flatMap_cons, List.flatMap_nil, Std.HashSet.contains_insertMany_list,
    Std.HashSet.contains_empty, Bool.false_or] at told
  have same (image : ClassImage) (entry : RawAttribute) :
      (image.tellMethodBody {} { code? := some entry }).collect = (image.tellCode {} entry).collect := rfl
  rw [Emit.script, same, told]
  rfl

theorem script_twoJumps : twoJumpsImage.script {} =
    [.event (.classItem (.header ⟨.standard, 33, .ofString "A", none, none, []⟩)),
      .scope (.method twoJumpsHeader) twoJumpsBody, .event .finish] := by
  have told : (twoJumpsImage.tell {}).collect =
      ([.event (.classItem (.header ⟨.standard, 33, .ofString "A", none, none, []⟩)),
        .scope (.method twoJumpsHeader)
          (twoJumpsImage.tellMethodBody {} { code? := some twoJumpsEntry }).script,
        .event .finish], .ok ()) := rfl
  rw [script, Emit.script, told, script_tellMethodBody_twoJumps]

theorem twoJumpsBody_mem_script :
    .scope (.method twoJumpsHeader) twoJumpsBody ∈ twoJumpsImage.script {} := by
  simp [script_twoJumps]

theorem fault_not_mem_twoJumpsBody (cause : ClassError) : .fault cause ∉ twoJumpsBody := by
  simp [twoJumpsBody, plainScript, instructionItem]

theorem mentions_twoJumpsBody {label : Label} (target : label = 0 ∨ label = 1) :
    ∃ item ∈ twoJumpsBody, item.Mentions label := by
  refine ⟨instructionItem (.jump .goto label), ?_, .event (List.mem_singleton.mpr rfl)⟩
  rcases target with rfl | rfl <;> simp [twoJumpsBody, plainScript]

theorem visitsBoundaries_twoJumps : ∃ image header body, ofInput? twoJumps = .ok image ∧
    .scope (.method header) body ∈ image.script {} ∧ (∀ cause, .fault cause ∉ body) ∧
      ∃ attributes entry found, body = (image.tellMethodBody {} attributes).script ∧
        attributes.code? = some entry ∧ image.codeBody {} entry = .ok found ∧
          image.VisitsBoundaries found.code body := by
  refine ⟨_, _, _, ofInput?_twoJumps, twoJumpsBody_mem_script, fault_not_mem_twoJumpsBody, ?_⟩
  rcases visitsBoundaries_of_mem_script twoJumpsBody_mem_script fault_not_mem_twoJumpsBody
    with none | visits
  · rcases mentions_twoJumpsBody (.inl rfl) with ⟨item, member, mentions⟩
    exact (none item member 0 mentions).elim
  · exact visits

theorem exists_unvisited_label : ∃ image header body item label, ofInput? twoJumps = .ok image ∧
    .scope (.method header) body ∈ image.script {} ∧ (∀ cause, .fault cause ∉ body) ∧
      item ∈ body ∧ item.Mentions label ∧ (visits body).count label ≠ 1 := by
  rcases mentions_twoJumpsBody (.inr rfl) with ⟨item, member, mentions⟩
  refine ⟨_, _, _, item, 1, ofInput?_twoJumps, twoJumpsBody_mem_script, fault_not_mem_twoJumpsBody,
    member, mentions, ?_⟩
  decide

end ClassImage

end ClassFile
