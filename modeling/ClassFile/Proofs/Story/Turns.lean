import ClassFile.Proofs.Emits

/-!
# Turns

A class file is told kind by kind: its attributes may stand in any order, but in its story every kind
has its turn.  `Item.turn` is the turn of an item in its scope, and `InTurn good turns items` says that
the items come turn by turn.  That is what a reader keeps to, and all that a tree needs to know about the
order of what it is told.
-/

namespace ClassFile

/-- The turns of the items in the scope of a class, a member, a method and its body, and a module. -/
inductive Turn where
  | header | source | moduleScope | nestHost | outerClass
  | visibleAnnotations | invisibleAnnotations | visibleTypeAnnotations | invisibleTypeAnnotations
  | attribute | nestMember | permittedSubclass | innerClass | component | field | method | finish
  | parameter | annotationDefault | visibleCount | visibleParameter | invisibleCount
  | invisibleParameter
  | code | handler | handlerAnnotations | step | variable | variableAnnotations | codeAttribute | maxs
  | mainClass | package | requires | exports | opens | uses | provides
  | other
  deriving DecidableEq

namespace Turn

/-- Whether there may be more than one item of a turn in a scope. -/
def repeats : Turn → Bool
  | .header | .source | .moduleScope | .nestHost | .outerClass | .annotationDefault | .visibleCount
  | .invisibleCount | .finish | .code | .maxs | .mainClass => false
  | _ => true

/-- Whether the items of a turn stand on parameters. -/
def hasParameters : Turn → Bool
  | .visibleParameter | .invisibleParameter => true
  | _ => false

/-- The turns of annotations. -/
def annotations : List Turn :=
  [.visibleAnnotations, .invisibleAnnotations, .visibleTypeAnnotations, .invisibleTypeAnnotations]

/-- The turns inside a field or a record component. -/
def ofMember : List Turn :=
  annotations ++ [.attribute]

/-- The turns of a method in front of its body. -/
def ofMethod : List Turn :=
  [.parameter, .annotationDefault] ++ annotations ++
    [.visibleCount, .visibleParameter, .invisibleCount, .invisibleParameter, .attribute]

/-- The turns of a body, between its start and the sizes of stack and locals. -/
def ofBody : List Turn :=
  [.handler, .handlerAnnotations, .step, .variable, .variableAnnotations, .codeAttribute]

/-- The turns of a module declaration. -/
def ofModule : List Turn :=
  [.mainClass, .package, .requires, .exports, .opens, .uses, .provides]

/-- The turns of a class, between its head and its end. -/
def ofClass : List Turn :=
  [.source, .moduleScope, .nestHost, .outerClass] ++ annotations ++
    [.attribute, .nestMember, .permittedSubclass, .innerClass, .component, .field, .method]

end Turn

/-- The turn of a part of the class scope. -/
def ClassItem.turn : ClassItem → Turn
  | .header _ => .header
  | .source .. => .source
  | .nestHost _ => .nestHost
  | .outerClass .. => .outerClass
  | .nestMember _ => .nestMember
  | .permittedSubclass _ => .permittedSubclass
  | .innerClass _ => .innerClass

/-- The turn of a part of the module scope. -/
def ModuleItem.turn : ModuleItem → Turn
  | .mainClass _ => .mainClass
  | .package _ => .package
  | .requires _ => .requires
  | .exports _ => .exports
  | .opens _ => .opens
  | .uses _ => .uses
  | .provides _ => .provides

/-- The turn of a part of the method scope. -/
def MethodItem.turn : MethodItem → Turn
  | .parameter _ => .parameter
  | .annotableParameterCount _ visible => if visible then .visibleCount else .invisibleCount
  | .code => .code
  | .instruction _ => .step
  | .tryCatch _ => .handler
  | .localVariable _ => .variable
  | .maxs .. => .maxs

/-- The turn of a scope.  The annotations of an instruction are told right behind it. -/
def Opening.turn : Opening → Turn
  | .moduleScope _ => .moduleScope
  | .component _ => .component
  | .field _ => .field
  | .method _ => .method
  | .annotate _ visible => if visible then .visibleAnnotations else .invisibleAnnotations
  | .annotateType use => if use.visible then .visibleTypeAnnotations else .invisibleTypeAnnotations
  | .annotationDefault => .annotationDefault
  | .annotateParameter _ _ visible => if visible then .visibleParameter else .invisibleParameter
  | .annotateInstruction _ => .step
  | .annotateTryCatch _ => .handlerAnnotations
  | .annotateLocal .. => .variableAnnotations
  | .nested .. | .array _ => .other

namespace Item

/-- The turn of an item in its scope. -/
def turn : Item → Turn
  | .event (.classItem item) => item.turn
  | .event (.moduleItem item) => item.turn
  | .event (.methodItem item) => item.turn
  | .event (.attribute entry) => if entry.inCode then .codeAttribute else .attribute
  | .event .finish => .finish
  | .event _ => .other
  | .scope opening _ => opening.turn
  | .fault _ => .other

/-- The parameter that an annotation stands on, 0 for all other items. -/
def parameter : Item → Nat
  | .scope (.annotateParameter parameter ..) _ => parameter.toNat
  | _ => 0

theorem parameter_eq_zero {item : Item} (other : item.turn.hasParameters = false) :
    item.parameter = 0 := by
  unfold parameter
  split
  · rename_i visible body
    cases visible <;> cases other
  · rfl

mutual

/-- Whether there is no fault in an item. -/
def IsWhole : Item → Prop
  | .event _ => True
  | .scope _ body => AreWhole body
  | .fault _ => False

/-- Whether there is no fault in any of the items. -/
def AreWhole : List Item → Prop
  | [] => True
  | item :: rest => item.IsWhole ∧ AreWhole rest

end

theorem areWhole_iff {items : List Item} : AreWhole items ↔ ∀ item ∈ items, item.IsWhole := by
  induction items with
  | nil => simp [AreWhole]
  | cons item rest ih => simp [AreWhole, ih]

theorem AreWhole.collect {emit : Emit Unit} (whole : AreWhole emit.script) :
    emit.collect = (emit.script, .ok ()) := by
  apply Emit.collect_of_no_fault
  intro cause member
  exact areWhole_iff.mp whole _ member

end Item

/-! ### The items of each turn -/

/-- What an item of a turn can be. -/
inductive Item.At : Turn → Item → Prop where
  | header (header : ClassHeader) : At .header (.event (.classItem (.header header)))
  | source (file? debug? : Option Text) : At .source (.event (.classItem (.source file? debug?)))
  | moduleScope (header : ModuleHeader) (body : List Item) :
      At .moduleScope (.scope (.moduleScope header) body)
  | nestHost (name : Text) : At .nestHost (.event (.classItem (.nestHost name)))
  | outerClass (owner : Text) (name? descriptor? : Option Text) :
      At .outerClass (.event (.classItem (.outerClass owner name? descriptor?)))
  | visibleAnnotations (descriptor : Text) (body : List Item) :
      At .visibleAnnotations (.scope (.annotate descriptor true) body)
  | invisibleAnnotations (descriptor : Text) (body : List Item) :
      At .invisibleAnnotations (.scope (.annotate descriptor false) body)
  | visibleTypeAnnotations (use : TypeUse) (visible : use.visible = true) (body : List Item) :
      At .visibleTypeAnnotations (.scope (.annotateType use) body)
  | invisibleTypeAnnotations (use : TypeUse) (invisible : use.visible = false) (body : List Item) :
      At .invisibleTypeAnnotations (.scope (.annotateType use) body)
  | «attribute» (entry : Attribute) (outside : entry.inCode = false) :
      At .attribute (.event (.attribute entry))
  | nestMember (name : Text) : At .nestMember (.event (.classItem (.nestMember name)))
  | permittedSubclass (name : Text) :
      At .permittedSubclass (.event (.classItem (.permittedSubclass name)))
  | innerClass (entry : InnerClass) : At .innerClass (.event (.classItem (.innerClass entry)))
  | component (header : ComponentHeader) (body : List Item) :
      At .component (.scope (.component header) body)
  | field (header : FieldHeader) (body : List Item) : At .field (.scope (.field header) body)
  | method (header : MethodHeader) (body : List Item) : At .method (.scope (.method header) body)
  | finish : At .finish (.event .finish)
  | parameter (parameter : Parameter) : At .parameter (.event (.methodItem (.parameter parameter)))
  | annotationDefault (body : List Item) : At .annotationDefault (.scope .annotationDefault body)
  | visibleCount (count : UInt8) :
      At .visibleCount (.event (.methodItem (.annotableParameterCount count true)))
  | visibleParameter (parameter : UInt8) (descriptor : Text) (body : List Item) :
      At .visibleParameter (.scope (.annotateParameter parameter descriptor true) body)
  | invisibleCount (count : UInt8) :
      At .invisibleCount (.event (.methodItem (.annotableParameterCount count false)))
  | invisibleParameter (parameter : UInt8) (descriptor : Text) (body : List Item) :
      At .invisibleParameter (.scope (.annotateParameter parameter descriptor false) body)
  | code : At .code (.event (.methodItem .code))
  | handler (block : TryCatch) : At .handler (.event (.methodItem (.tryCatch block)))
  | handlerAnnotations (use : TypeUse) (body : List Item) :
      At .handlerAnnotations (.scope (.annotateTryCatch use) body)
  | step (instruction : Instruction) : At .step (.event (.methodItem (.instruction instruction)))
  | stepAnnotations (use : TypeUse) (body : List Item) :
      At .step (.scope (.annotateInstruction use) body)
  | «variable» (entry : LocalVariable) : At .variable (.event (.methodItem (.localVariable entry)))
  | variableAnnotations (use : TypeUse) (ranges : List LabelRange) (body : List Item) :
      At .variableAnnotations (.scope (.annotateLocal use ranges) body)
  | codeAttribute (entry : Attribute) (inside : entry.inCode = true) :
      At .codeAttribute (.event (.attribute entry))
  | maxs (stack locals : UInt16) : At .maxs (.event (.methodItem (.maxs stack locals)))
  | mainClass (name : Text) : At .mainClass (.event (.moduleItem (.mainClass name)))
  | package (name : Text) : At .package (.event (.moduleItem (.package name)))
  | requires (requirement : Requirement) : At .requires (.event (.moduleItem (.requires requirement)))
  | exports (relation : Relation) : At .exports (.event (.moduleItem (.exports relation)))
  | opens (relation : Relation) : At .opens (.event (.moduleItem (.opens relation)))
  | uses (service : Text) : At .uses (.event (.moduleItem (.uses service)))
  | provides (provision : Provision) : At .provides (.event (.moduleItem (.provides provision)))
  | other (item : Item) : At .other item

theorem Item.at_turn (item : Item) : item.At item.turn := by
  rcases item with event | ⟨opening, body⟩ | cause
  · cases event with
    | classItem item => cases item <;> constructor
    | moduleItem item => cases item <;> constructor
    | methodItem item =>
        cases item
        case annotableParameterCount count visible => cases visible <;> constructor
        all_goals constructor
    | «attribute» entry =>
        cases place : entry.inCode with
        | true =>
            rw [Item.turn, if_pos place]
            exact .codeAttribute entry place
        | false =>
            rw [Item.turn, if_neg (by simp [place])]
            exact .attribute entry place
    | enter | element | finish | leave => constructor
  · cases opening
    case annotate descriptor visible => cases visible <;> constructor
    case annotateParameter parameter descriptor visible => cases visible <;> constructor
    case annotateType use =>
      cases place : use.visible with
      | true =>
          rw [Item.turn, Opening.turn, if_pos place]
          exact .visibleTypeAnnotations use place body
      | false =>
          rw [Item.turn, Opening.turn, if_neg (by simp [place])]
          exact .invisibleTypeAnnotations use place body
    all_goals constructor
  · constructor

theorem at_of_turn {item : Item} {turn : Turn} (isTurn : item.turn = turn) : item.At turn :=
  isTurn ▸ item.at_turn

/-- Whether items are all of one turn and good, one at most if the turn does not repeat, and stand on
parameters in their order. -/
structure AtTurn (good : Item → Prop) (turn : Turn) (items : List Item) : Prop where
  turn_eq : ∀ item ∈ items, item.turn = turn
  good : ∀ item ∈ items, good item
  single : turn.repeats = false → items.length ≤ 1
  ordered : items.Pairwise fun first second => first.parameter ≤ second.parameter

/-- Whether items come turn by turn, and each of them is good. -/
inductive InTurn (good : Item → Prop) : List Turn → List Item → Prop where
  | nil : InTurn good [] []
  | cons {turn : Turn} {turns : List Turn} {items others : List Item} (here : AtTurn good turn items)
      (behind : InTurn good turns others) : InTurn good (turn :: turns) (items ++ others)

/-- Whether items come turn by turn, with a last part behind the turns. -/
def InTurnThen (good : Item → Prop) (turns : List Turn) (ends : List Item → Prop) (items : List Item) :
    Prop :=
  ∃ inside rest, items = inside ++ rest ∧ InTurn good turns inside ∧ ends rest

section InTurn

variable {good : Item → Prop} {turn : Turn} {turns later : List Turn} {items others : List Item}

theorem AtTurn.nil (turn : Turn) : AtTurn good turn [] := by
  constructor <;> simp

theorem AtTurn.one {item : Item} (isTurn : item.turn = turn) (isGood : good item) :
    AtTurn good turn [item] := by
  constructor <;> simp [isTurn, isGood]

theorem AtTurn.of_parameter {parameter : Nat} (many : turn.repeats = true)
    (all : ∀ item ∈ items, item.turn = turn ∧ good item)
    (same : ∀ item ∈ items, item.parameter = parameter) : AtTurn good turn items where
  turn_eq := fun item member => (all item member).1
  good := fun item member => (all item member).2
  single := by simp [many]
  ordered := by
    apply List.pairwise_iff_forall_sublist.mpr
    intro item other pair
    have first := same item (pair.subset (by simp))
    have second := same other (pair.subset (by simp))
    omega

theorem AtTurn.of_forall (many : turn.repeats = true) (plain : turn.hasParameters = false)
    (all : ∀ item ∈ items, item.turn = turn ∧ good item) : AtTurn good turn items := by
  apply AtTurn.of_parameter many all
  intro item member
  exact Item.parameter_eq_zero (by rw [(all item member).1, plain])

theorem AtTurn.append (many : turn.repeats = true) (here : AtTurn good turn items)
    (behind : AtTurn good turn others)
    (parameters : ∀ item ∈ items, ∀ other ∈ others, item.parameter ≤ other.parameter) :
    AtTurn good turn (items ++ others) where
  turn_eq := List.forall_mem_append.mpr ⟨here.turn_eq, behind.turn_eq⟩
  good := List.forall_mem_append.mpr ⟨here.good, behind.good⟩
  single := by simp [many]
  ordered := List.pairwise_append.mpr ⟨here.ordered, behind.ordered, parameters⟩

theorem AtTurn.weaken {better : Item → Prop} (here : AtTurn better turn items)
    (weaker : ∀ item, item.turn = turn → better item → good item) : AtTurn good turn items :=
  { here with good := fun item member => weaker item (here.turn_eq item member) (here.good item member) }

theorem InTurn.weaken {better : Item → Prop} (inTurn : InTurn better turns items)
    (weaker : ∀ item, item.turn ∈ turns → better item → good item) : InTurn good turns items := by
  induction inTurn with
  | nil => exact .nil
  | cons here _ ih =>
      apply InTurn.cons
      · exact here.weaken fun item isTurn => weaker item (by simp [isTurn])
      · exact ih fun item member => weaker item (List.mem_cons_of_mem _ member)

theorem InTurn.none (turns : List Turn) : InTurn good turns [] := by
  induction turns with
  | nil => exact .nil
  | cons turn rest ih => exact .cons (.nil turn) ih

theorem InTurn.append (here : InTurn good turns items) (behind : InTurn good later others) :
    InTurn good (turns ++ later) (items ++ others) := by
  induction here with
  | nil => exact behind
  | cons first _ ih => simpa using InTurn.cons first ih

theorem InTurn.exists_append (inTurn : InTurn good (turns ++ later) items) :
    ∃ first second, items = first ++ second ∧ InTurn good turns first ∧ InTurn good later second := by
  induction turns generalizing items with
  | nil => exact ⟨[], items, rfl, .nil, inTurn⟩
  | cons turn turns ih =>
      cases inTurn with
      | cons here behind =>
          rcases ih behind with ⟨first, second, rfl, front, rest⟩
          exact ⟨_, second, (List.append_assoc ..).symm, .cons here front, rest⟩

theorem InTurn.turn_mem (inTurn : InTurn good turns items) : ∀ item ∈ items, item.turn ∈ turns := by
  induction inTurn with
  | nil => simp
  | cons here _ ih =>
      intro item member
      rcases List.mem_append.mp member with isHere | isBehind
      · simp [here.turn_eq item isHere]
      · simp [ih item isBehind]

theorem InTurn.all_good (inTurn : InTurn good turns items) : ∀ item ∈ items, good item := by
  induction inTurn with
  | nil => simp
  | cons here _ ih =>
      intro item member
      exact (List.mem_append.mp member).elim (here.good item) (ih item)

/-- The items of a turn. -/
def Item.ofTurn (turn : Turn) (items : List Item) : List Item :=
  items.filter fun item => decide (item.turn = turn)

theorem ofTurn_append (turn : Turn) (items others : List Item) :
    Item.ofTurn turn (items ++ others) = Item.ofTurn turn items ++ Item.ofTurn turn others :=
  List.filter_append ..

theorem AtTurn.ofTurn (here : AtTurn good turn items) : Item.ofTurn turn items = items := by
  apply List.filter_eq_self.mpr
  intro item member
  simp [here.turn_eq item member]

theorem ofTurn_eq_nil (absent : ∀ item ∈ items, item.turn ≠ turn) : Item.ofTurn turn items = [] := by
  apply List.filter_eq_nil_iff.mpr
  intro item member
  simp [absent item member]

theorem AtTurn.ofTurn_of_ne {current : Turn} (here : AtTurn good current items) (other : current ≠ turn) :
    Item.ofTurn turn items = [] := by
  apply ofTurn_eq_nil
  intro item member
  rw [here.turn_eq item member]
  exact other

theorem InTurn.ofTurn_of_not_mem (inTurn : InTurn good turns items) (absent : turn ∉ turns) :
    Item.ofTurn turn items = [] := by
  apply ofTurn_eq_nil
  rintro item member rfl
  exact absent (inTurn.turn_mem item member)

/-- The items of every turn are where its turn is. -/
theorem InTurn.atTurn (inTurn : InTurn good turns items) (once : turns.Nodup) (turn : Turn) :
    AtTurn good turn (Item.ofTurn turn items) := by
  induction inTurn with
  | nil => exact .nil turn
  | @cons current rest items others here behind ih =>
      rcases List.nodup_cons.mp once with ⟨fresh, onceBehind⟩
      rw [ofTurn_append]
      by_cases isCurrent : current = turn
      · subst isCurrent
        rw [here.ofTurn, behind.ofTurn_of_not_mem fresh, List.append_nil]
        exact here
      · rw [here.ofTurn_of_ne isCurrent, List.nil_append]
        exact ih onceBehind

/-- Items that come turn by turn are the items of each turn, one turn after the other. -/
theorem InTurn.eq_flatMap (inTurn : InTurn good turns items) (once : turns.Nodup) :
    items = turns.flatMap fun turn => Item.ofTurn turn items := by
  induction inTurn with
  | nil => rfl
  | @cons current rest items others here behind ih =>
      rcases List.nodup_cons.mp once with ⟨fresh, onceBehind⟩
      have later : rest.flatMap (fun turn => Item.ofTurn turn (items ++ others)) =
          rest.flatMap fun turn => Item.ofTurn turn others := by
        apply congrArg List.flatten
        apply List.map_congr_left
        intro turn member
        have other : current ≠ turn := by
          rintro rfl
          exact fresh member
        rw [ofTurn_append, here.ofTurn_of_ne other, List.nil_append]
      rw [List.flatMap_cons, later, ← ih onceBehind, ofTurn_append, here.ofTurn,
        behind.ofTurn_of_not_mem fresh, List.append_nil]

end InTurn

/-! ### Producers -/

namespace Emit

variable {α β : Type} {good : Item → Prop} {turn : Turn} {turns later : List Turn} {emit : Emit α}

theorem Gives.of_areWhole {P : List Item → Prop} {body : Emit Unit} (gives : Gives P body)
    (whole : Item.AreWhole body.script) : P body.script :=
  gives.collect whole.collect

theorem Gives.atTurn (many : turn.repeats = true) (plain : turn.hasParameters = false)
    (gives : GivesEach (fun item => item.turn = turn ∧ good item) emit) :
    Gives (AtTurn good turn) emit :=
  gives.weaken fun _ all => .of_forall many plain all

theorem Gives.inTurn {next : α → Emit β} (gives : Gives (AtTurn good turn) emit)
    (behind : ∀ value, Gives (InTurn good turns) (next value)) :
    Gives (InTurn good (turn :: turns)) (emit >>= next) :=
  gives.bind behind fun _ _ here others => .cons here others

theorem Gives.inTurns {next : α → Emit β} (gives : Gives (InTurn good turns) emit)
    (behind : ∀ value, Gives (InTurn good later) (next value)) :
    Gives (InTurn good (turns ++ later)) (emit >>= next) :=
  gives.bind behind fun _ _ here others => here.append others

/-! A last part may follow the turns. -/

variable {ends : List Item → Prop}

theorem Gives.last (gives : Gives ends emit) : Gives (InTurnThen good [] ends) emit :=
  gives.weaken fun items holds => ⟨[], items, rfl, .nil, holds⟩

theorem Gives.turnThen {next : α → Emit β} (gives : Gives (AtTurn good turn) emit)
    (behind : ∀ value, Gives (InTurnThen good turns ends) (next value)) :
    Gives (InTurnThen good (turn :: turns) ends) (emit >>= next) := by
  apply gives.bind behind
  rintro items _ here ⟨inside, rest, rfl, inTurn, isEnd⟩
  exact ⟨items ++ inside, rest, by simp, .cons here inTurn, isEnd⟩

theorem Gives.turnsThen {next : α → Emit β} (gives : Gives (InTurn good turns) emit)
    (behind : ∀ value, Gives (InTurnThen good later ends) (next value)) :
    Gives (InTurnThen good (turns ++ later) ends) (emit >>= next) := by
  apply gives.bind behind
  rintro items _ here ⟨inside, rest, rfl, inTurn, isEnd⟩
  exact ⟨items ++ inside, rest, by simp, here.append inTurn, isEnd⟩

/-- A step that is left out unless a condition holds. -/
theorem Gives.turnThenIf {condition : Prop} [Decidable condition] {emit : Emit Unit}
    {next : Unit → Emit β} (gives : Gives (AtTurn good turn) emit)
    (behind : Gives (InTurnThen good turns ends) (next ())) :
    Gives (InTurnThen good (turn :: turns) ends) (if condition then emit >>= next else next ()) := by
  split
  · exact gives.turnThen fun _ => behind
  · apply behind.weaken
    rintro _ ⟨inside, rest, rfl, inTurn, isEnd⟩
    exact ⟨inside, rest, rfl, .cons (.nil turn) inTurn, isEnd⟩

end Emit

end ClassFile
