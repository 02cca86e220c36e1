import ClassFile.Image.Story
import ClassFile.Proofs.Story.Bodies

/-!
# Classes in turn

`ClassImage.isClassStory_script` says that a reader tells a whole class turn by turn: the head of the
class first, its end last, and in the same way inside every member.
-/

namespace ClassFile

open Emit Item

/-- The turn of the number of parameters that can have annotations. -/
def Turn.ofCount (visible : Bool) : Turn :=
  if visible then .visibleCount else .invisibleCount

/-- The turn of the annotations of parameters. -/
def Turn.ofParameter (visible : Bool) : Turn :=
  if visible then .visibleParameter else .invisibleParameter

/-- Whether the annotations of parameters stand on parameters that are counted. -/
def CountsParameters (items : List Item) : Prop :=
  ∀ visible, ∀ item ∈ items, item.turn = .ofParameter visible →
    ∃ count, .event (.methodItem (.annotableParameterCount count visible)) ∈ items ∧
      item.parameter < count.toNat

theorem CountsParameters.append {items others : List Item} (here : CountsParameters items)
    (behind : CountsParameters others) : CountsParameters (items ++ others) := by
  intro visible item member isParameter
  rcases List.mem_append.mp member with isHere | isBehind
  · rcases here visible item isHere isParameter with ⟨count, counted, below⟩
    exact ⟨count, List.mem_append_left _ counted, below⟩
  · rcases behind visible item isBehind isParameter with ⟨count, counted, below⟩
    exact ⟨count, List.mem_append_right _ counted, below⟩

theorem countsParameters_of_turns {items : List Item}
    (others : ∀ item ∈ items, item.turn.hasParameters = false) : CountsParameters items := by
  intro visible item member isParameter
  have other := others item member
  rw [isParameter] at other
  cases visible <;> cases other

theorem countsParameters_of_inTurn {good : Item → Prop} {turns : List Turn} {items : List Item}
    (plain : ∀ turn ∈ turns, turn.hasParameters = false) (inTurn : InTurn good turns items) :
    CountsParameters items :=
  countsParameters_of_turns fun item member => plain _ (inTurn.turn_mem item member)

/-- Whether items are told about a method: its own turns, then its body, if it has one. -/
structure IsMethodStory (items : List Item) : Prop where
  inTurn : InTurnThen (Fits AttributeKind.ofMethod) Turn.ofMethod (fun body => body = [] ∨ IsBody body) items
  counts : CountsParameters items

/-- Whether a part of the scope of a class fits, and is told in turn if it is told whole. -/
def Item.IsTold : Item → Prop
  | .scope (.moduleScope head) body => head.Fits ∧ (AreWhole body → InTurn (Fits []) Turn.ofModule body)
  | .scope (.component head) body =>
      head.Fits ∧ (AreWhole body → InTurn (Fits AttributeKind.ofAny) Turn.ofMember body)
  | .scope (.field head) body =>
      head.Fits ∧ (AreWhole body → InTurn (Fits AttributeKind.ofField) Turn.ofMember body)
  | .scope (.method head) body => head.Fits ∧ (AreWhole body → IsMethodStory body)
  | item => item.Fits AttributeKind.ofClass

/-- Whether items are told about a class.  Only a record has components. -/
def IsClassStory (items : List Item) : Prop :=
  ∃ header rest, items = .event (.classItem (.header header)) :: rest ∧ header.Fits ∧
    InTurnThen (fun item => item.IsTold ∧ (item.turn = .component → header.access &&& Access.record ≠ 0))
      Turn.ofClass (· = [.event .finish]) rest

/-- Outside of members there is nothing but what fits. -/
theorem Item.Fits.isTold {item : Item} (fits : item.Fits AttributeKind.ofClass)
    (outside : item.turn ∉ [.moduleScope, .component, .field, .method]) : item.IsTold := by
  unfold Item.IsTold
  split
  all_goals first
    | exact fits
    | simp [Item.turn, Opening.turn] at outside

namespace ClassImage

variable {image : ClassImage} {options : ReadOptions} {kinds : List AttributeKind}

/-! ### Names -/

theorem fits_of_readClasses {offset count : Nat} {found names : List Text}
    (survive : ∀ name ∈ found, name.Survives) (read : image.readClasses offset found count = .ok names) :
    names.length = found.length + count ∧ ∀ name ∈ names, name.Survives := by
  induction count generalizing offset found with
  | zero =>
      cases read
      simpa using survive
  | succ count ih =>
      simp only [readClasses, bind_eq_ok] at read
      rcases read with ⟨name, named, read⟩
      rcases ih (List.forall_mem_cons.mpr ⟨survives_of_classAt named, survive⟩) read with ⟨length, all⟩
      refine ⟨?_, all⟩
      rw [length, List.length_cons]
      omega

theorem fits_of_readModules {offset count : Nat} {found names : List Text}
    (survive : ∀ name ∈ found, name.Survives) (read : image.readModules offset found count = .ok names) :
    names.length = found.length + count ∧ ∀ name ∈ names, name.Survives := by
  induction count generalizing offset found with
  | zero =>
      cases read
      simpa using survive
  | succ count ih =>
      simp only [readModules, bind_eq_ok] at read
      rcases read with ⟨index, -, name, named, read⟩
      rcases ih (List.forall_mem_cons.mpr ⟨Pool.survives_of_moduleRef named, survive⟩) read with
        ⟨length, all⟩
      refine ⟨?_, all⟩
      rw [length, List.length_cons]
      omega

theorem survives_of_classTable {offset : Nat} {names : List Text}
    (read : image.classTable offset = .ok names) : ∀ name ∈ names, name.Survives := by
  rcases bind_eq_ok.mp read with ⟨count, -, read⟩
  exact (fits_of_readClasses (by simp) read).2

theorem survives_of_textIfPresent {place? : Option Nat} {text? : Option Text}
    (read : image.textIfPresent place? = .ok text?) : ∀ text ∈ text?, text.Survives := by
  cases place? with
  | none =>
      cases read
      simp
  | some offset =>
      rcases map_eq_ok.mp read with ⟨text, named, rfl⟩
      simpa using survives_of_textAt named

/-! ### The module declaration -/

theorem gives_tellModuleItem {item : ModuleItem} (fits : item.Fits) :
    GivesEach (fun told => told.turn = item.turn ∧ told.Fits kinds) (tellModuleItem item) :=
  GivesEach.tell ⟨rfl, fits⟩

theorem gives_tellPackages (offset count : Nat) :
    GivesEach (fun item => item.turn = .package ∧ item.Fits kinds) (image.tellPackages offset count) := by
  induction count generalizing offset with
  | zero => exact GivesEach.pure _
  | succ count ih =>
      apply Gives.bind_lift
      intro index _
      apply Gives.bind_lift
      intro name named
      have fits : (ModuleItem.package name).Fits := Pool.survives_of_packageRef named
      exact GivesEach.bind (gives_tellModuleItem fits) fun _ => ih _

theorem gives_tellRequirements (offset count : Nat) :
    GivesEach (fun item => item.turn = .requires ∧ item.Fits kinds)
      (image.tellRequirements offset count) := by
  induction count generalizing offset with
  | zero => exact GivesEach.pure _
  | succ count ih =>
      apply Gives.bind_lift
      intro index _
      apply Gives.bind_lift
      intro name named
      apply Gives.bind_lift
      intro access _
      apply Gives.bind_lift
      intro versionIndex _
      apply Gives.bind_lift
      intro version? found
      have fits : (ModuleItem.requires ⟨name, access, version?⟩).Fits :=
        ⟨Pool.survives_of_moduleRef named,
          Pool.survives_of_optional found fun _ => Pool.survives_of_text⟩
      exact GivesEach.bind (gives_tellModuleItem fits) fun _ => ih _

theorem gives_tellRelations (item : Relation → ModuleItem) (turn : Turn)
    (isTurn : ∀ relation, (item relation).turn = turn)
    (isFit : ∀ relation : Relation, relation.package.Survives → relation.modules.length < 65536 →
      (∀ name ∈ relation.modules, name.Survives) → (item relation).Fits) (offset count : Nat) :
    GivesEach (fun told => told.turn = turn ∧ told.Fits kinds) (image.tellRelations item offset count) := by
  induction count generalizing offset with
  | zero => exact GivesEach.pure _
  | succ count ih =>
      apply Gives.bind_lift
      intro index _
      apply Gives.bind_lift
      intro package named
      apply Gives.bind_lift
      intro access _
      apply Gives.bind_lift
      intro size _
      apply Gives.bind_lift
      intro modules read
      rcases fits_of_readModules (by simp) read with ⟨length, survive⟩
      have few : modules.length < 65536 := by
        have := size.toNat_lt
        simp at length
        omega
      have fits := isFit ⟨package, access, modules⟩ (Pool.survives_of_packageRef named) few survive
      exact GivesEach.bind (GivesEach.tell ⟨isTurn _, fits⟩) fun _ => ih _

theorem gives_tellUses (offset count : Nat) :
    GivesEach (fun item => item.turn = .uses ∧ item.Fits kinds) (image.tellUses offset count) := by
  induction count generalizing offset with
  | zero => exact GivesEach.pure _
  | succ count ih =>
      apply Gives.bind_lift
      intro service named
      have fits : (ModuleItem.uses service).Fits := survives_of_classAt named
      exact GivesEach.bind (gives_tellModuleItem fits) fun _ => ih _

theorem gives_tellProvisions (offset count : Nat) :
    GivesEach (fun item => item.turn = .provides ∧ item.Fits kinds)
      (image.tellProvisions offset count) := by
  induction count generalizing offset with
  | zero => exact GivesEach.pure _
  | succ count ih =>
      apply Gives.bind_lift
      intro service named
      apply Gives.bind_lift
      intro size _
      apply Gives.bind_lift
      intro providers read
      rcases fits_of_readClasses (by simp) read with ⟨length, survive⟩
      have few : providers.length < 65536 := by
        have := size.toNat_lt
        simp at length
        omega
      have fits : (ModuleItem.provides ⟨service, providers⟩).Fits :=
        ⟨survives_of_classAt named, few, survive⟩
      exact GivesEach.bind (gives_tellModuleItem fits) fun _ => ih _

theorem gives_tellModuleBody (attributes : ClassAttributes) (offset : Nat) :
    Gives (InTurn (Fits kinds) Turn.ofModule) (image.tellModuleBody attributes offset) := by
  apply Gives.inTurn (gives_tellIfPresent (.nil _) fun _ => Gives.bind_lift fun _ named => ?_)
  · intro _
    apply Gives.inTurn (gives_tellIfPresent (.nil _) fun _ => Gives.bind_lift fun _ _ =>
      Gives.atTurn rfl rfl (gives_tellPackages _ _))
    intro _
    apply Gives.bind_lift
    intro _ _
    apply Gives.inTurn (Gives.atTurn rfl rfl (gives_tellRequirements _ _))
    intro _
    apply Gives.bind_lift
    intro _ _
    apply Gives.inTurn (Gives.atTurn rfl rfl (gives_tellRelations .exports .exports (fun _ => rfl)
      (fun _ package few names => ⟨package, few, names⟩) _ _))
    intro _
    apply Gives.bind_lift
    intro _ _
    apply Gives.inTurn (Gives.atTurn rfl rfl (gives_tellRelations .opens .opens (fun _ => rfl)
      (fun _ package few names => ⟨package, few, names⟩) _ _))
    intro _
    apply Gives.bind_lift
    intro _ _
    apply Gives.inTurn (Gives.atTurn rfl rfl (gives_tellUses _ _))
    intro _
    apply Gives.bind_lift
    intro _ _
    apply (Gives.atTurn rfl rfl (gives_tellProvisions _ _)).weaken
    intro items here
    simpa using InTurn.cons here .nil
  · exact Gives.tell (.one rfl (survives_of_classAt named))

/-! ### Members -/

theorem within_accessFlags (access : UInt16) (common : CommonAttributes) :
    Access.Within Access.deprecated (access.toUInt32 ||| common.accessFlags) := by
  apply (Access.within_toUInt32 _ access).or
  unfold CommonAttributes.accessFlags
  cases common.deprecated <;> cases common.synthetic <;> rfl

theorem gives_tellMemberBody (undecoded : options.DecodesNothing) {entries : List RawAttribute}
    {common : CommonAttributes} (sorts : common.Sorts kinds entries)
    (listed : ∀ entry ∈ entries, image.IsListed entry) :
    Gives (InTurn (Fits kinds) Turn.ofMember) (image.tellMemberBody options common) := by
  apply Gives.inTurns (gives_tellAnnotations common)
  intro _
  apply (gives_tellOthers undecoded false fun _ => sorts.name_ne listed).weaken
  intro items here
  simpa using InTurn.cons here .nil

theorem survives_of_fieldValue {index : UInt16} {value : FieldValue}
    (read : image.fieldValue index = .ok value) : value.Survives := by
  rcases bind_eq_ok.mp read with ⟨tag, -, read⟩
  split at read
  case h_5 =>
    simp only [bind_eq_ok, pure_eq_ok] at read
    rcases read with ⟨text, found, rfl⟩
    exact Pool.survives_of_string found
  case h_6 => cases read
  all_goals
    simp only [bind_eq_ok, pure_eq_ok] at read
    rcases read with ⟨number, -, rfl⟩
    trivial

theorem gives_tellFields (undecoded : options.DecodesNothing) (offset count : Nat) :
    GivesEach (fun item => item.turn = .field ∧ item.IsTold)
      (image.tellFields options offset count) := by
  induction count generalizing offset with
  | zero => exact GivesEach.pure _
  | succ count ih =>
      apply Gives.bind_lift
      intro access _
      apply Gives.bind_lift
      intro name named
      apply Gives.bind_lift
      intro descriptor described
      apply Gives.bind_lift
      rintro ⟨entries, next⟩ listed
      apply Gives.bind_lift
      intro attributes sorted
      apply Gives.bind_lift
      intro signature? signed
      have sorts := FieldAttributes.sorts_foldlM sorted
      have body := gives_tellMemberBody undecoded sorts.common (isListed_of_rawAttributes listed)
      have rest {value? : Option FieldValue} (valued : ∀ value ∈ value?, value.Survives) :
          GivesEach (fun item => item.turn = .field ∧ item.IsTold) (do
            Emit.member (.field ⟨access.toUInt32 ||| attributes.common.accessFlags, name, descriptor,
              signature?, value?⟩) (image.tellMemberBody options attributes.common)
            image.tellFields options next count) := by
        have fits : FieldHeader.Fits ⟨access.toUInt32 ||| attributes.common.accessFlags, name, descriptor,
            signature?, value?⟩ :=
          ⟨within_accessFlags _ _, survives_of_textAt named, survives_of_textAt described,
            survives_of_textIfPresent signed, valued⟩
        exact GivesEach.bind (GivesEach.member ⟨rfl, fits, Gives.of_areWhole body⟩) fun _ => ih _
      dsimp only
      split
      · apply Gives.bind_lift
        intro value found
        exact rest (by simpa using survives_of_fieldValue found)
      · exact rest (by simp)

theorem gives_tellComponents (undecoded : options.DecodesNothing) (offset count : Nat) :
    GivesEach (fun item => item.turn = .component ∧ item.IsTold)
      (image.tellComponents options offset count) := by
  induction count generalizing offset with
  | zero => exact GivesEach.pure _
  | succ count ih =>
      apply Gives.bind_lift
      intro name named
      apply Gives.bind_lift
      intro descriptor described
      apply Gives.bind_lift
      rintro ⟨entries, next⟩ listed
      apply Gives.bind_lift
      intro signature? signed
      have body := gives_tellMemberBody undecoded (CommonAttributes.sorts_foldl entries)
        (isListed_of_rawAttributes listed)
      have fits : ComponentHeader.Fits ⟨name, descriptor, signature?⟩ :=
        ⟨survives_of_textAt named, survives_of_textAt described, survives_of_textIfPresent signed⟩
      exact GivesEach.bind (GivesEach.member ⟨rfl, fits, Gives.of_areWhole body⟩) fun _ => ih _

/-! ### Methods -/

theorem gives_tellParameters (offset count : Nat) :
    GivesEach (fun item => item.turn = .parameter ∧ item.Fits kinds)
      (image.tellParameters offset count) := by
  induction count generalizing offset with
  | zero => exact GivesEach.pure _
  | succ count ih =>
      apply Gives.bind_lift
      intro index _
      apply Gives.bind_lift
      intro name? found
      apply Gives.bind_lift
      intro access _
      have fits := Pool.survives_of_optional found fun _ => Pool.survives_of_text
      exact GivesEach.bind (GivesEach.tell ⟨rfl, fits⟩) fun _ => ih _

/-- The tables of the parameters are told in the order of the parameters. -/
theorem gives_tellParameterTables (visible : Bool) (parameter : UInt8) (offset count : Nat)
    (few : parameter.toNat + count < 256) :
    Gives (fun items => AtTurn (Fits kinds) (.ofParameter visible) items ∧
        ∀ item ∈ items, parameter.toNat ≤ item.parameter ∧ item.parameter < parameter.toNat + count)
      (image.tellParameterTables visible parameter offset count) := by
  induction count generalizing parameter offset with
  | zero => exact Gives.pure ⟨.nil _, by simp⟩ _
  | succ count ih =>
      have next : (parameter + 1).toNat = parameter.toNat + 1 := by
        rw [UInt8.toNat_add]
        exact Nat.mod_eq_of_lt (by simpa using by omega)
      have here : GivesEach
          (fun item => (item.turn = .ofParameter visible ∧ item.Fits kinds) ∧
            item.parameter = parameter.toNat)
          (image.tellAnnotationTable (Opening.annotateParameter parameter · visible) offset) :=
        gives_tellAnnotationTable
          (fun descriptor _ survives values => ⟨⟨rfl, survives, values⟩, rfl⟩) offset
      apply Gives.bind here fun offset => ih (parameter + 1) offset (by omega)
      intro items others first behind
      rw [next] at behind
      have many : (Turn.ofParameter visible).repeats = true := by cases visible <;> rfl
      have firstOnes := AtTurn.of_parameter many (fun item member => (first item member).1)
        fun item member => (first item member).2
      constructor
      · apply firstOnes.append many behind.1
        intro item member other otherMember
        have := behind.2 other otherMember
        rw [(first item member).2]
        omega
      · intro item member
        rcases List.mem_append.mp member with isFirst | isBehind
        · have := (first item isFirst).2
          omega
        · have := behind.2 item isBehind
          omega

theorem gives_tellParameterAnnotations (visible : Bool) (offset : Nat) :
    Gives (fun items => InTurn (Fits kinds) [.ofCount visible, .ofParameter visible] items ∧
        CountsParameters items)
      (image.tellParameterAnnotations visible offset) := by
  apply Gives.bind_lift
  intro count _
  have one : Gives (· = [.event (.methodItem (.annotableParameterCount count visible))])
      (tellItem (.annotableParameterCount count visible)) := Gives.tell rfl
  apply one.bind fun _ => gives_tellParameterTables visible 0 (offset + 1) count.toNat
    (by simpa using count.toNat_lt)
  rintro items tables rfl ⟨atTurn, bounds⟩
  constructor
  · apply InTurn.cons (.one (by cases visible <;> rfl) trivial)
    simpa using InTurn.cons atTurn .nil
  · intro other item member isParameter
    rcases List.mem_cons.mp member with rfl | isTable
    · cases visible <;> cases other <;> cases isParameter
    · have same := (atTurn.turn_eq item isTable).symm.trans isParameter
      have isSame : visible = other := by
        cases visible <;> cases other <;> first | rfl | cases same
      subst isSame
      have := bounds item isTable
      exact ⟨count, by simp, by simpa using this.2⟩

theorem hasParameters_of_isBody {items : List Item} (isBody : IsBody items) :
    ∀ item ∈ items, item.turn.hasParameters = false := by
  rcases isBody with ⟨inside, stack, locals, rfl, inTurn, -⟩
  intro item member
  rw [List.mem_cons, List.mem_append, List.mem_singleton] at member
  rcases member with rfl | isInside | rfl
  · rfl
  · have turns : ∀ turn ∈ Turn.ofBody, turn.hasParameters = false := by decide
    exact turns _ (inTurn.turn_mem item isInside)
  · rfl

section Counts

variable {α β : Type}

theorem Gives.countsThen {first : Emit α} {second : α → Emit β} (counts : Gives CountsParameters first)
    (behind : ∀ value, Gives CountsParameters (second value)) :
    Gives CountsParameters (first >>= second) :=
  counts.bind behind fun _ _ => CountsParameters.append

theorem Gives.countsThenIf {condition : Prop} [Decidable condition] {first : Emit Unit}
    {next : Unit → Emit β} (counts : Gives CountsParameters first)
    (behind : Gives CountsParameters (next ())) :
    Gives CountsParameters (if condition then first >>= next else next ()) := by
  split
  · exact Gives.countsThen counts fun _ => behind
  · exact behind

theorem counts_tellIfPresent {place? : Option Nat} {tell : Nat → Emit Unit}
    (counts : ∀ place, Gives CountsParameters (tell place)) :
    Gives CountsParameters (tellIfPresent place? tell) :=
  gives_tellIfPresent (countsParameters_of_turns (by simp)) counts

end Counts

theorem counts_tellMethodBody (undecoded : options.DecodesNothing) {entries : List RawAttribute}
    {attributes : MethodAttributes} (sorts : attributes.Sorts entries)
    (listed : ∀ entry ∈ entries, image.IsListed entry) :
    Gives CountsParameters (image.tellMethodBody options attributes) := by
  rw [tellMethodBody]
  apply Gives.countsThenIf
  · apply counts_tellIfPresent
    intro offset
    apply Gives.bind_lift
    intro count _
    have parameters : GivesEach (fun item => item.turn = .parameter ∧ item.Fits [])
        (image.tellParameters (offset + 1) count.toNat) := gives_tellParameters _ _
    apply parameters.weaken
    intro items all
    apply countsParameters_of_turns
    intro item member
    rw [(all item member).1]
    rfl
  apply Gives.countsThen
  · exact counts_tellIfPresent fun offset => Gives.discard <|
      Gives.eager (gives_tellElement maxAnnotationLevels hasName_none offset) fun _ _ =>
        countsParameters_of_turns (by simp [Item.turn, Opening.turn, Turn.hasParameters])
  intro _
  have annotations : Gives (InTurn (Fits []) Turn.annotations)
      (image.tellAnnotations options attributes.common) := gives_tellAnnotations _
  apply Gives.countsThen (annotations.weaken fun _ inTurn =>
    countsParameters_of_inTurn (by decide) inTurn)
  intro _
  have parameters (visible : Bool) (offset : Nat) :
      Gives (fun items => InTurn (Fits []) [.ofCount visible, .ofParameter visible] items ∧
          CountsParameters items)
        (image.tellParameterAnnotations visible offset) := gives_tellParameterAnnotations visible offset
  apply Gives.countsThen (counts_tellIfPresent fun offset =>
    (parameters true offset).weaken fun _ => And.right)
  intro _
  apply Gives.countsThen (counts_tellIfPresent fun offset =>
    (parameters false offset).weaken fun _ => And.right)
  intro _
  apply Gives.countsThen
  · exact (gives_tellOthers undecoded false fun _ => sorts.common.name_ne listed).weaken fun _ atTurn =>
      countsParameters_of_turns fun item member => by rw [atTurn.turn_eq item member]; rfl
  intro _
  split
  · split
    · exact (gives_tellCode undecoded _).weaken fun _ isBody =>
        countsParameters_of_turns (hasParameters_of_isBody isBody)
    · exact Gives.pure (countsParameters_of_turns (by simp)) _
  · exact Gives.pure (countsParameters_of_turns (by simp)) _

theorem gives_tellMethodBody (undecoded : options.DecodesNothing) {entries : List RawAttribute}
    {attributes : MethodAttributes} (sorts : attributes.Sorts entries)
    (listed : ∀ entry ∈ entries, image.IsListed entry) :
    Gives (InTurnThen (Fits AttributeKind.ofMethod) Turn.ofMethod fun body => body = [] ∨ IsBody body)
      (image.tellMethodBody options attributes) := by
  rw [tellMethodBody]
  apply Gives.turnThenIf
  · exact gives_tellIfPresent (.nil _) fun _ => Gives.bind_lift fun _ _ =>
      Gives.atTurn rfl rfl (gives_tellParameters _ _)
  apply Gives.turnThen
  · exact gives_tellIfPresent (.nil _) fun offset => Gives.discard <|
      Gives.eager (gives_tellElement _ hasName_none offset) fun _ value => .one rfl value
  intro _
  apply Gives.turnsThen (gives_tellAnnotations _)
  intro _
  apply Gives.turnsThen (gives_tellIfPresent (.none _) fun offset =>
    (gives_tellParameterAnnotations true offset).weaken fun _ => And.left)
  intro _
  apply Gives.turnsThen (gives_tellIfPresent (.none _) fun offset =>
    (gives_tellParameterAnnotations false offset).weaken fun _ => And.left)
  intro _
  apply Gives.turnThen (gives_tellOthers undecoded false fun _ => sorts.common.name_ne listed)
  intro _
  apply Gives.last
  split
  · split
    · exact (gives_tellCode undecoded _).weaken fun _ => .inr
    · exact Gives.pure (.inl rfl) _
  · exact Gives.pure (.inl rfl) _

theorem gives_tellMethods (undecoded : options.DecodesNothing) (offset count : Nat) :
    GivesEach (fun item => item.turn = .method ∧ item.IsTold)
      (image.tellMethods options offset count) := by
  induction count generalizing offset with
  | zero => exact GivesEach.pure _
  | succ count ih =>
      apply Gives.bind_lift
      intro access _
      apply Gives.bind_lift
      intro name named
      apply Gives.bind_lift
      intro descriptor described
      apply Gives.bind_lift
      rintro ⟨entries, next⟩ listed
      apply Gives.bind_lift
      intro signature? signed
      have body := (gives_tellMethodBody undecoded (MethodAttributes.sorts_foldl entries)
        (isListed_of_rawAttributes listed)).and (counts_tellMethodBody undecoded
          (MethodAttributes.sorts_foldl entries) (isListed_of_rawAttributes listed))
      have rest {exceptions : List Text} (survive : ∀ name ∈ exceptions, name.Survives) :
          GivesEach (fun item => item.turn = .method ∧ item.IsTold) (do
            Emit.member (.method ⟨access.toUInt32 |||
                (entries.foldl MethodAttributes.add {}).common.accessFlags, name, descriptor, signature?,
                exceptions⟩)
              (image.tellMethodBody options (entries.foldl MethodAttributes.add {}))
            image.tellMethods options next count) := by
        have fits : MethodHeader.Fits ⟨access.toUInt32 |||
            (entries.foldl MethodAttributes.add {}).common.accessFlags, name, descriptor, signature?,
            exceptions⟩ :=
          ⟨within_accessFlags _ _, survives_of_textAt named, survives_of_textAt described,
            survives_of_textIfPresent signed, survive⟩
        have story := body.weaken fun _ both => (⟨both.1, both.2⟩ : ClassFile.IsMethodStory _)
        exact GivesEach.bind (GivesEach.member ⟨rfl, fits, Gives.of_areWhole story⟩) fun _ => ih _
      dsimp only
      split
      · apply Gives.bind_lift
        intro exceptions found
        exact rest (survives_of_classTable found)
      · exact rest (by simp)

/-! ### The class -/

theorem gives_tellSource (attributes : ClassAttributes) :
    Gives (AtTurn IsTold .source) (image.tellSource attributes) := by
  unfold tellSource
  split
  · rename_i isThere
    apply Gives.bind_lift
    intro file? found
    have fileSurvives := survives_of_textIfPresent found
    have isFile : file?.isSome = attributes.sourceFile?.isSome := by
      cases place : attributes.sourceFile? with
      | none =>
          rw [place] at found
          cases found
          rfl
      | some offset =>
          rw [place] at found
          rcases map_eq_ok.mp found with ⟨name, -, rfl⟩
          rfl
    have told {debug? : Option Text} (some : file?.isSome ∨ debug?.isSome)
        (survives : ∀ debug ∈ debug?, debug.Survives) :
        Gives (AtTurn IsTold .source) (tellClassItem (.source file? debug?)) :=
      Gives.tell (.one rfl ⟨some, fileSurvives, survives⟩)
    cases place : attributes.sourceDebug? with
    | none => exact told (by simpa [isFile, place] using isThere) (by simp)
    | some entry =>
        apply Gives.bind_lift
        intro bytes _
        dsimp only
        split
        · rename_i decoded
          exact told (.inr rfl) (by simpa using Text.survives_of_decode decoded)
        · exact Gives.throw _
  · exact Gives.pure (.nil _) _

theorem gives_tellOuterClass (offset : Nat) :
    Gives (AtTurn IsTold .outerClass) (image.tellOuterClass offset) := by
  apply Gives.bind_lift
  intro owner named
  apply Gives.bind_lift
  intro index _
  apply Gives.bind_lift
  intro method? found
  have survives := Pool.survives_of_optional found fun _ => Pool.survives_of_nameAndType
  exact Gives.tell (.one rfl ⟨survives_of_classAt named, method?, rfl, rfl, survives⟩)

theorem gives_tellInnerClasses (offset count : Nat) :
    GivesEach (fun item => item.turn = .innerClass ∧ item.IsTold)
      (image.tellInnerClasses offset count) := by
  induction count generalizing offset with
  | zero => exact GivesEach.pure _
  | succ count ih =>
      apply Gives.bind_lift
      intro name named
      apply Gives.bind_lift
      intro outerIndex _
      apply Gives.bind_lift
      intro outer? foundOuter
      apply Gives.bind_lift
      intro innerIndex _
      apply Gives.bind_lift
      intro inner? foundInner
      apply Gives.bind_lift
      intro access _
      have outer := Pool.survives_of_optional foundOuter fun _ => Pool.survives_of_classRef
      have inner := Pool.survives_of_optional foundInner fun _ => Pool.survives_of_text
      exact GivesEach.bind (GivesEach.tell ⟨rfl, survives_of_classAt named, outer, inner⟩) fun _ => ih _

/-- A table of names is told name by name. -/
theorem gives_classTable (offset : Nat) (item : Text → ClassItem) {turn : Turn}
    (many : turn.repeats = true) (plain : turn.hasParameters = false)
    (isTold : ∀ name : Text, name.Survives →
      (item name).turn = turn ∧ (Item.event (.classItem (item name))).IsTold) :
    Gives (AtTurn IsTold turn) (do
      (← image.classTable offset).forM fun name => tellClassItem (item name)) := by
  apply Gives.bind_lift
  intro names found
  apply Gives.atTurn many plain
  apply GivesEach.forM
  intro name member
  exact GivesEach.tell (isTold name (survives_of_classTable found name member))

theorem gives_tellMembers (undecoded : options.DecodesNothing) :
    Gives (InTurn IsTold [.field, .method]) (image.tellMembers options) := by
  apply Gives.bind_lift
  intro interfaces _
  apply Gives.bind_lift
  intro count _
  apply Gives.inTurn (Gives.atTurn rfl rfl (gives_tellFields undecoded _ _))
  intro methods
  apply Gives.bind_lift
  intro count _
  apply (Gives.atTurn rfl rfl (gives_tellMethods undecoded _ _)).weaken
  intro items here
  simpa using InTurn.cons here .nil

/-- What is told about a class behind its head.  Components are told only if there is a record. -/
theorem gives_behindHeader (undecoded : options.DecodesNothing) {entries : List RawAttribute}
    {attributes : ClassAttributes} (sorts : attributes.Sorts entries)
    (listed : ∀ entry ∈ entries, image.IsListed entry) :
    Gives (InTurnThen (fun item => item.IsTold ∧ (item.turn = .component → attributes.record?.isSome))
      Turn.ofClass (· = [.event .finish])) (do
      if ! options.skipDebug then image.tellSource attributes
      if options.api.supports .v6 then tellIfPresent attributes.module? (image.tellModule attributes)
      if options.api.supports .v7 then
        tellIfPresent attributes.nestHost? fun offset => do
          tellClassItem (.nestHost (← image.classAt offset))
      tellIfPresent attributes.enclosingMethod? image.tellOuterClass
      image.tellAnnotations options attributes.common
      image.tellOthers options false attributes.common
      if options.api.supports .v7 then
        tellIfPresent attributes.nestMembers? fun offset => do
          (← image.classTable offset).forM fun name => tellClassItem (.nestMember name)
      if options.api.supports .v9 then
        tellIfPresent attributes.permittedSubclasses? fun offset => do
          (← image.classTable offset).forM fun name => tellClassItem (.permittedSubclass name)
      tellIfPresent attributes.innerClasses? fun offset => do
        let count ← image.input.u16 offset
        image.tellInnerClasses (offset + 2) count.toNat
      if options.api.supports .v8 then
        tellIfPresent attributes.record? fun offset => do
          let count ← image.input.u16 offset
          image.tellComponents options (offset + 2) count.toNat
      image.tellMembers options
      Emit.tell .finish) := by
  have one {turn : Turn} (other : turn ≠ .component) {emit : Emit Unit}
      (gives : Gives (AtTurn IsTold turn) emit) :
      Gives (AtTurn (fun item => item.IsTold ∧ (item.turn = .component → attributes.record?.isSome)) turn)
        emit :=
    gives.weaken fun _ here => here.weaken fun item isTurn isTold =>
      ⟨isTold, fun isComponent => absurd (isTurn.symm.trans isComponent) other⟩
  apply Gives.turnThenIf (one (by decide) (gives_tellSource attributes))
  apply Gives.turnThenIf
  · apply one (by decide) (gives_tellIfPresent (.nil _) _)
    intro offset
    apply Gives.bind_lift
    intro index _
    apply Gives.bind_lift
    intro name named
    apply Gives.bind_lift
    intro access _
    apply Gives.bind_lift
    intro versionIndex _
    apply Gives.bind_lift
    intro version? found
    have fits : ModuleHeader.Fits ⟨name, access, version?⟩ :=
      ⟨Pool.survives_of_moduleRef named, Pool.survives_of_optional found fun _ => Pool.survives_of_text⟩
    exact Gives.member (.one rfl ⟨fits, Gives.of_areWhole (gives_tellModuleBody _ _)⟩)
  apply Gives.turnThenIf
  · exact one (by decide) <| gives_tellIfPresent (.nil _) fun _ => Gives.bind_lift fun _ named =>
      Gives.tell (.one rfl (survives_of_classAt named))
  apply Gives.turnThen (one (by decide) (gives_tellIfPresent (.nil _) gives_tellOuterClass))
  intro _
  apply Gives.turnsThen
  · apply (gives_tellAnnotations _).weaken
    intro items inTurn
    apply inTurn.weaken
    intro item isTurn fits
    constructor
    · apply Fits.isTold fits
      intro isMember
      simp only [List.mem_cons, List.not_mem_nil, or_false] at isMember
      rcases isMember with same | same | same | same <;> simp [same, Turn.annotations] at isTurn
    · intro isComponent
      simp [isComponent, Turn.annotations] at isTurn
  intro _
  apply Gives.turnThen
  · apply one (by decide) ((gives_tellOthers undecoded false fun _ => sorts.common.name_ne listed).weaken _)
    intro items here
    apply here.weaken
    intro item isTurn fits
    exact fits.isTold (by simp [isTurn])
  intro _
  apply Gives.turnThenIf
  · exact one (by decide) <| gives_tellIfPresent (.nil _) fun offset =>
      gives_classTable offset .nestMember rfl rfl fun _ survives => ⟨rfl, survives⟩
  apply Gives.turnThenIf
  · exact one (by decide) <| gives_tellIfPresent (.nil _) fun offset =>
      gives_classTable offset .permittedSubclass rfl rfl fun _ survives => ⟨rfl, survives⟩
  apply Gives.turnThen
  · exact one (by decide) <| gives_tellIfPresent (.nil _) fun _ => Gives.bind_lift fun _ _ =>
      Gives.atTurn rfl rfl (gives_tellInnerClasses _ _)
  intro _
  apply Gives.turnThenIf
  · cases attributes.record? with
    | none => exact Gives.pure (.nil _) _
    | some offset =>
        apply Gives.bind_lift
        intro count _
        apply (Gives.atTurn rfl rfl (gives_tellComponents undecoded _ _)).weaken
        intro items here
        exact here.weaken fun item _ isTold => ⟨isTold, fun _ => rfl⟩
  have members : Gives (InTurn (fun item => item.IsTold ∧
      (item.turn = .component → attributes.record?.isSome)) [.field, .method]) (image.tellMembers options) := by
    apply (gives_tellMembers undecoded).weaken
    intro items inTurn
    apply inTurn.weaken
    intro item isTurn isTold
    exact ⟨isTold, fun isComponent => by simp [isComponent] at isTurn⟩
  apply Gives.turnsThen members
  intro _
  apply Gives.last
  exact Gives.tell rfl

theorem survives_of_interfaces {interfaces : List (Except ClassError Text)} {names : List Text}
    (read : image.interfaces = .ok interfaces) (found : interfaces.mapM id = .ok names) :
    ∀ name ∈ names, name.Survives := by
  rcases bind_eq_ok.mp read with ⟨count, -, same⟩
  cases same
  have each : ∀ entry ∈ (List.range count.toNat).map fun position =>
      image.classAt (image.headerOffset + 8 + position * 2),
      ∀ name, entry = .ok name → name.Survives := by
    intro entry member name named
    rcases List.mem_map.mp member with ⟨position, -, rfl⟩
    exact survives_of_classAt named
  generalize ((List.range count.toNat).map fun position =>
    image.classAt (image.headerOffset + 8 + position * 2)) = entries at found each
  induction entries generalizing names with
  | nil =>
      cases found
      simp
  | cons entry entries ih =>
      simp only [List.mapM_cons, id, bind_eq_ok, pure_eq_ok] at found
      rcases found with ⟨name, named, rest, others, rfl⟩
      rw [List.forall_mem_cons] at each
      exact List.forall_mem_cons.mpr ⟨each.1 name named, ih others each.2⟩

theorem gives_tell (undecoded : options.DecodesNothing) :
    Gives IsClassStory (image.tell options) := by
  rw [tell]
  apply Gives.bind_lift
  intro access stored
  apply Gives.bind_lift
  intro name named
  apply Gives.bind_lift
  intro super? foundSuper
  apply Gives.bind_lift
  intro interfaces readInterfaces
  apply Gives.bind_lift
  intro names foundInterfaces
  apply Gives.bind_lift
  rintro ⟨entries, next⟩ listed
  apply Gives.bind_lift
  intro signature? signed
  have header (content : ClassHeader) :
      Gives (· = [.event (.classItem (.header content))]) (tellClassItem (.header content)) :=
    Gives.tell rfl
  apply (header _).bind fun _ => gives_behindHeader undecoded (ClassAttributes.sorts_foldl entries)
    (isListed_of_rawAttributes listed)
  rintro items rest rfl told
  rcases map_eq_ok.mp stored with ⟨flags, -, rfl⟩
  rcases bind_eq_ok.mp named with ⟨index, -, named⟩
  rcases bind_eq_ok.mp foundSuper with ⟨superIndex, -, foundSuper⟩
  refine ⟨_, rest, rfl, ⟨?_, Pool.survives_of_classRef named, survives_of_textIfPresent signed,
    Pool.survives_of_optional foundSuper fun _ => Pool.survives_of_classRef,
    survives_of_interfaces readInterfaces foundInterfaces⟩, ?_⟩
  · apply ((within_accessFlags flags _).mono Access.record).or
    split <;> rfl
  · rcases told with ⟨inside, last, rfl, inTurn, ends⟩
    refine ⟨inside, last, rfl, inTurn.weaken fun item _ isTold => ⟨isTold.1, fun isComponent => ?_⟩, ends⟩
    simp only [isTold.2 isComponent, if_true, Access.or_and_self]
    decide

/-- A class that is told whole is told turn by turn. -/
theorem isClassStory_script (undecoded : options.DecodesNothing)
    (whole : AreWhole (image.script options)) : IsClassStory (image.script options) :=
  Gives.of_areWhole (gives_tell undecoded) whole

end ClassImage

end ClassFile
