import ClassFile.Proofs.Members.Framing
import ClassFile.Proofs.Members.Growing

/-!
# Where a writer stands

Of a class draft, the `shape` is what matters to the tables of members: the tables themselves, the numbers
that the open member starts with, and how many annotations are open one inside the other.  An event that
opens and closes nothing leaves the shape as it is, done or failed; what opens or closes a scope changes it
only if it is done.  So the writer of classes tabulates (`ClassDraft.tabulates_writer`).
-/

namespace ClassFile

open Draft

theorem Draft.returns_within {σ τ α : Type} {good : α → Prop} {get : σ → τ} {put : τ → σ → σ}
    {write : Draft τ α} (returns : Returns good write) : Returns good (within get put write) := by
  rintro ⟨whole, pool⟩ value next ran
  rw [on_within] at ran
  rcases inner : write.on (get whole, pool) with ⟨result, part, last⟩
  rw [inner] at ran
  cases ran
  exact returns _ _ _ inner

/-! ### Shapes -/

/-- What the structure of a method starts with. -/
def MethodDraft.memberHead (draft : MethodDraft) : MemberHead :=
  ⟨.method, draft.access, draft.nameIndex, draft.descriptor⟩

/-- What the structure of the open member starts with. -/
def MemberDraft.head? : MemberDraft → Option MemberHead
  | .none | .moduleScope => Option.none
  | .component part => some ⟨.component, 0, part.name, part.descriptor⟩
  | .field part => some ⟨.field, part.access, part.name, part.descriptor⟩
  | .method part => some part.memberHead

/-- What matters to the tables of members. -/
structure DraftShape where
  tables : MemberKind → Table
  head? : Option MemberHead
  /-- The number of annotations that are open one inside the other. -/
  depth : Nat

namespace ClassDraft

/-- The number of annotations that are open one inside the other. -/
def depth (draft : ClassDraft) : Nat :=
  draft.annotation?.elim 0 fun opened => opened.2.outer.length + 1

/-- What matters to the tables of members. -/
def shape (draft : ClassDraft) : DraftShape :=
  ⟨draft.table, draft.member.head?, draft.depth⟩

end ClassDraft

/-! ### Parts of a draft -/

namespace MethodDraft

variable {head : MemberHead}

/-- Whether the structure of a method starts with the given numbers. -/
def HasHead (head : MemberHead) (draft : MethodDraft) : Prop :=
  draft.memberHead = head

theorem memberHead_setParameter (position : UInt8) (visible : Bool) (set : AnnotationSet)
    (draft : MethodDraft) : (draft.setParameter position visible set).memberHead = draft.memberHead := by
  cases visible <;> rfl

theorem memberHead_addAttribute (entry : Attribute) (draft : MethodDraft) :
    (draft.addAttribute entry).memberHead = draft.memberHead := by
  unfold addAttribute
  split <;> rfl

theorem memberHead_keep (place : AnnotationPlace) (values : Output) (draft : MethodDraft) :
    (draft.keep place values).memberHead = draft.memberHead := by
  cases place with
  | parameter position visible => exact memberHead_setParameter position visible _ draft
  | _ => rfl

theorem maintains_inCode {α : Type} (write : Draft CodeDraft α) :
    Maintains (HasHead head) (inCode write) :=
  maintains_within fun _ _ => id

/-- What is told inside a method does not change what it starts with. -/
theorem maintains_item (event : MethodItem) :
    Maintains (HasHead head) (item event) := by
  cases event with
  | parameter entry => exact (maintains_pooledIfPresent _ _).bind fun _ => maintains_change fun _ => id
  | annotableParameterCount count visible =>
      refine maintains_change ?_
      intro draft same
      cases visible <;> exact same
  | _ => exact maintains_inCode _

theorem maintains_beginAnnotation (opening : Opening) :
    Maintains (HasHead head) ( beginAnnotation opening) := by
  have code (use : TypeUse) (anchor : CodeAnchor) :
      Maintains (HasHead head) ( beginCodeAnnotation use anchor) :=
    (maintains_pooled _).bind fun _ => (maintains_inCode _).bind fun _ => maintains_pure _
  cases opening with
  | annotate descriptor visible | annotateType use =>
      refine Maintains.bind ?_ fun _ => maintains_pure _
      exact maintains_within fun _ _ => id
  | annotationDefault =>
      refine Maintains.bind ?_ fun _ => maintains_pure _
      exact maintains_change fun _ => id
  | annotateParameter position descriptor visible =>
      refine Maintains.bind ?_ fun _ => maintains_pure _
      exact maintains_within fun draft set same =>
        (memberHead_setParameter position visible set draft).trans same
  | annotateInstruction use =>
      exact (maintains_look _).bind fun _ => (code use _).bind fun _ => maintains_pure _
  | annotateTryCatch use | annotateLocal use ranges => exact (code use _).bind fun _ => maintains_pure _
  | _ => exact maintains_pure _

/-- Every annotation that belongs into a method is one that a method has. -/
theorem returns_beginAnnotation {opening : Opening} (belongs : .ofMethod ∈ opening.places) :
    Returns (fun begun? => begun?.isSome = true) ( beginAnnotation opening) := by
  cases opening with
  | moduleScope | component | field | method | nested | array => simp [Opening.places] at belongs
  | annotateInstruction use =>
      exact (returns_any _).bind fun _ _ => (returns_any _).bind fun _ _ => returns_pure rfl
  | _ => exact (returns_any _).bind fun _ _ => returns_pure rfl

end MethodDraft

namespace AnnotationDraft

variable {outer : List ElementList}

/-- Whether the lists around the innermost one are the given ones. -/
def IsWithin (outer : List ElementList) (draft : AnnotationDraft) : Prop :=
  draft.outer = outer

@[grind ←]
theorem maintains_put (piece : Output) : Maintains (IsWithin outer) (put piece) :=
  maintains_change fun _ => id

@[grind ←]
theorem maintains_putIndex (adding : Pooling UInt16) :
    Maintains (IsWithin outer) (putIndex adding) :=
  (maintains_pooled adding).bind fun _ => maintains_put _

@[grind ←]
theorem maintains_putTag (letter : Char) :
    Maintains (IsWithin outer) (putTag letter) :=
  maintains_put _

@[grind ←]
theorem maintains_beginElement (name? : Option Text) :
    Maintains (IsWithin outer) (beginElement name?) := by
  refine (maintains_tryChange ?_).bind fun _ => (maintains_look _).bind fun named => ?_
  · intro draft next same raised
    simp only [bind_eq_ok, pure_eq_ok] at raised
    rcases raised with ⟨list, -, rfl⟩
    exact same
  · split <;> grind

/-- A value that stands alone opens and closes nothing. -/
theorem maintains_element (item : ElementItem) :
    Maintains (IsWithin outer) (element item) := by
  cases item <;> unfold element <;> grind

end AnnotationDraft

namespace ClassDraft

variable {form : DraftShape} {draft : ClassDraft} {pool : PoolBuilder}

theorem shape_withMember (draft : ClassDraft) (member : MemberDraft) :
    ({ draft with member } : ClassDraft).shape = { draft.shape with head? := member.head? } :=
  rfl

theorem shape_withOpened (draft : ClassDraft)
    (annotation? : Option (AnnotationPlace × AnnotationDraft)) :
    ({ draft with annotation? } : ClassDraft).shape =
      { draft.shape with depth := annotation?.elim 0 fun opened => opened.2.outer.length + 1 } :=
  rfl

/-- Whether a draft has the given shape. -/
def HasShape (form : DraftShape) (draft : ClassDraft) : Prop :=
  draft.shape = form

/-! ### Events that open and close nothing -/

theorem on_inModule (write : Draft ModuleDraft Unit) :
    on (inModule write) (draft, pool) =
      match draft.module? with
      | none => (.ok (), draft, pool)
      | some part => match write.on (part, pool) with
        | (result, part, next) => (result, { draft with module? := some part }, next) := by
  unfold inModule
  rw [on_bind]
  change on (match draft.module? with | none => _ | some part => _) (draft, pool) = _
  cases draft.module? <;> rfl

theorem on_inMethod (write : Draft MethodDraft Unit) :
    on (inMethod write) (draft, pool) =
      match draft.member with
      | .method method => match write.on (method, pool) with
        | (result, part, next) => (result, { draft with member := .method part }, next)
      | _ => (.ok (), draft, pool) := by
  unfold inMethod
  rw [on_bind]
  change on (match draft.member with | .method method => _ | _ => _) (draft, pool) = _
  cases draft.member <;> rfl

theorem on_inAnnotation (write : Draft AnnotationDraft Unit) :
    on ( inAnnotation write) (draft, pool) =
      match draft.annotation? with
      | none => (.ok (), draft, pool)
      | some (place, values) => match write.on (values, pool) with
        | (result, part, next) => (result, { draft with annotation? := some (place, part) }, next) := by
  unfold inAnnotation
  rw [on_bind]
  change on (match draft.annotation? with | none => _ | some (place, values) => _) (draft, pool) = _
  rcases draft.annotation? with _ | ⟨place, values⟩ <;> rfl

theorem maintains_inModule (write : Draft ModuleDraft Unit) :
    Maintains (HasShape form) (inModule write) := by
  rintro ⟨draft, pool⟩ same
  change HasShape form (on (inModule write) (draft, pool)).2.1
  rw [on_inModule]
  cases draft.module? <;> exact same

theorem maintains_inMethod {write : Draft MethodDraft Unit}
    (maintains : ∀ head, Maintains (MethodDraft.HasHead head) write) :
    Maintains (HasShape form) (inMethod write) := by
  rintro ⟨draft, pool⟩ same
  change HasShape form (on (inMethod write) (draft, pool)).2.1
  rw [on_inMethod]
  cases isOpen : draft.member with
  | method method =>
      have kept : (on write (method, pool)).2.1.memberHead = method.memberHead :=
        maintains method.memberHead (method, pool) rfl
      rw [HasShape, shape, isOpen] at same
      simp only [HasShape, ← same, shape, MemberDraft.head?, kept]
      rfl
  | _ => exact same

theorem maintains_inAnnotation {write : Draft AnnotationDraft Unit}
    (maintains : ∀ outer, Maintains (AnnotationDraft.IsWithin outer) write) :
    Maintains (HasShape form) ( inAnnotation write) := by
  rintro ⟨draft, pool⟩ same
  change HasShape form (on ( inAnnotation write) (draft, pool)).2.1
  rw [ on_inAnnotation]
  rcases isOpen : draft.annotation? with _ | ⟨place, values⟩
  · exact same
  · have kept : (on write (values, pool)).2.1.outer = values.outer :=
      maintains values.outer (values, pool) rfl
    rw [HasShape, shape, depth, isOpen] at same
    simp only [HasShape, ← same, shape, depth, Option.elim_some, kept]
    rfl

theorem shape_addAttribute (entry : Attribute) (draft : ClassDraft) :
    (draft.addAttribute entry).shape = draft.shape := by
  unfold addAttribute
  cases isOpen : draft.member with
  | method part =>
      simp only [shape, isOpen, MemberDraft.head?, part.memberHead_addAttribute entry]
      rfl
  | moduleScope => rfl
  | none | component part | field part =>
      simp only [shape, isOpen, MemberDraft.head?]
      rfl

/-- What is recorded beside the member and the tables of members does not matter to the shape. -/
theorem maintains_update {update : ClassDraft → ClassDraft}
    (same : ∀ draft, (update draft).shape = draft.shape) : Maintains (HasShape form) (change update) :=
  maintains_change fun draft had => (same draft).trans had

theorem maintains_updateTable {add : ClassDraft → Except ClassError Table}
    {update : ClassDraft → Table → ClassDraft}
    (same : ∀ draft table, (update draft table).shape = draft.shape) :
    Maintains (HasShape form) (tryChange fun draft => return update draft (← add draft)) := by
  refine maintains_tryChange fun draft next had added => ?_
  simp only [bind_eq_ok, pure_eq_ok] at added
  rcases added with ⟨table, -, rfl⟩
  exact (same draft table).trans had

@[grind ←]
theorem maintains_signatureIndex? {σ : Type} {holds : σ → Prop} (signature? : Option Text) :
    Maintains holds (CodeDraft.signatureIndex? signature? : Draft σ (Option UInt16)) := by
  cases signature? <;> unfold CodeDraft.signatureIndex? <;> grind

@[grind ←]
theorem maintains_classIndices {σ : Type} {holds : σ → Prop} (found : List UInt16) (names : List Text) :
    Maintains holds (MethodDraft.classIndices found names : Draft σ (List UInt16)) := by
  induction names generalizing found with
  | nil => exact maintains_pure _
  | cons name rest ih =>
      unfold MethodDraft.classIndices
      grind

theorem maintains_header (head : ClassHeader) : Maintains (HasShape form) (header head) := by
  unfold header
  refine Maintains.bind (maintains_update fun _ => rfl) fun _ => (maintains_pooled _).bind fun _ => ?_
  refine Maintains.bind (maintains_update fun _ => rfl) fun _ => ?_
  refine (maintains_signatureIndex? _).bind fun _ => ?_
  refine Maintains.bind (maintains_update fun _ => rfl) fun _ => ?_
  refine (maintains_pooledIfPresent _ _).bind fun _ => ?_
  refine Maintains.bind (maintains_update fun _ => rfl) fun _ => ?_
  have last : Maintains (HasShape form) (do
      let interfaces ← MethodDraft.classIndices [] head.interfaces
      change fun draft : ClassDraft => { draft with interfaces }) :=
    (maintains_classIndices _ _).bind fun _ => maintains_update fun _ => rfl
  dsimp only
  split
  · exact (maintains_failure _).bind fun _ => last
  · exact last

theorem maintains_item (event : ClassItem) : Maintains (HasShape form) (item event) := by
  cases event with
  | header head => exact maintains_header head
  | source file? debug? =>
      have debug : Maintains (HasShape form) (item (.source none debug?)) := by
        cases debug? with
        | none => exact maintains_pure ()
        | some text => exact maintains_update fun _ => rfl
      cases file? with
      | none => exact debug
      | some file =>
          refine (maintains_pooled _).bind fun _ => ?_
          exact Maintains.bind (maintains_update fun _ => rfl) fun _ => debug
  | nestHost name => exact (maintains_pooled _).bind fun _ => maintains_update fun _ => rfl
  | outerClass owner name? descriptor? =>
      refine (maintains_pooled _).bind fun _ => ?_
      cases name? <;> cases descriptor? <;>
        exact Maintains.bind (by grind) fun _ => maintains_update fun _ => rfl
  | nestMember name | permittedSubclass name =>
      refine (maintains_pooled _).bind fun _ => ?_
      exact maintains_updateTable fun _ _ => rfl
  | innerClass entry =>
      refine (maintains_pooled _).bind fun _ => (maintains_pooledIfPresent _ _).bind fun _ => ?_
      refine (maintains_pooledIfPresent _ _).bind fun _ => ?_
      exact maintains_updateTable fun _ _ => rfl

/-! ### Opening -/

theorem shape_setAnnotations (tables : AnnotationTables) (draft : ClassDraft) :
    (draft.setAnnotations tables).shape = draft.shape := by
  unfold setAnnotations
  cases isOpen : draft.member <;> simp only [shape, isOpen, MemberDraft.head?] <;> rfl

theorem maintains_beginPlain (opening : Opening) : Maintains (HasShape form) (beginPlain opening) := by
  have begins {α : Type} (begin_ : Draft AnnotationTables α) :
      Maintains (HasShape form) (within openAnnotations setAnnotations begin_) :=
    maintains_within fun draft tables same => (shape_setAnnotations tables draft).trans same
  cases opening with
  | annotate descriptor visible | annotateType use => exact (begins _).bind fun _ => maintains_pure _
  | _ => exact maintains_pure _

theorem returns_beginPlain {opening : Opening} (belongs : .ofMember ∈ opening.places) :
    Returns (fun begun? => begun?.isSome = true) (beginPlain opening) := by
  cases opening with
  | annotate | annotateType => exact (returns_any _).bind fun _ _ => returns_pure rfl
  | _ => simp [Opening.places] at belongs

end ClassDraft

/-- Whether a step that is done leads from what is known of a part to what is known then, and a step that
fails leaves what was known. -/
def Draft.Turns {σ α : Type} (before after : σ → Prop) (step : Draft σ α) : Prop :=
  ∀ state, before state.1 →
    match step.on state with
    | (.ok _, next) => after next.1
    | (.error _, next) => before next.1

section Turns

variable {σ α β : Type} {before after : σ → Prop}

theorem Draft.turns_change {update : σ → σ} (leads : ∀ part, before part → after (update part)) :
    Turns before after (change update) :=
  fun state => leads state.1

theorem Draft.Maintains.turns {first : Draft σ α} {second : α → Draft σ β}
    (maintains : Maintains before first) (next : ∀ value, Turns before after (second value)) :
    Turns before after (first >>= second) := by
  intro state known
  have kept : before (first.on state).2.1 := maintains state known
  rw [on_bind]
  rcases ran : first.on state with ⟨_ | value, between⟩ <;> rw [ran] at kept
  · exact kept
  · exact next value between kept

end Turns

/-- A list that is opened lies inside one list more. -/
theorem AnnotationDraft.turns_openList {outer : List ElementList} (list : ElementList) :
    Turns (IsWithin outer) (fun draft => draft.outer.length = outer.length + 1) (openList list) :=
  turns_change fun _ same => congrArg (List.length · + 1) same

theorem AnnotationDraft.turns_openNested {outer : List ElementList} (name? : Option Text)
    (descriptor : Text) :
    Turns (IsWithin outer) (fun draft => draft.outer.length = outer.length + 1)
      (openNested name? descriptor) :=
  (maintains_beginElement name?).turns fun _ => (maintains_putTag _).turns fun _ =>
    (maintains_putIndex _).turns fun _ => turns_openList _

theorem AnnotationDraft.turns_openArray {outer : List ElementList} (name? : Option Text) :
    Turns (IsWithin outer) (fun draft => draft.outer.length = outer.length + 1) (openArray name?) :=
  (maintains_beginElement name?).turns fun _ => (maintains_putTag _).turns fun _ => turns_openList _

namespace ClassDraft

variable {form : DraftShape}

theorem turns_inAnnotation {write : Draft AnnotationDraft Unit} {depth : Nat}
    (isOpen : form.depth = depth + 1)
    (turns : ∀ outer, Turns (AnnotationDraft.IsWithin outer)
      (fun draft => draft.outer.length = outer.length + 1) write) :
    Turns (HasShape form) (HasShape { form with depth := form.depth + 1 }) ( inAnnotation write) := by
  rintro ⟨draft, pool⟩ same
  rw [HasShape] at same
  subst same
  rw [ on_inAnnotation]
  rcases opened : draft.annotation? with _ | ⟨place, values⟩
  · simp [shape, ClassDraft.depth, opened] at isOpen
  · have turned := turns values.outer (values, pool) rfl
    have depth : draft.shape.depth = values.outer.length + 1 := by
      rw [shape, ClassDraft.depth, opened]
      rfl
    dsimp only
    rcases ran : write.on (values, pool) with ⟨_ | _, part, next⟩ <;> rw [ran] at turned
    · refine (shape_withOpened draft _).trans ?_
      rw [Option.elim_some, show part.outer = values.outer from turned, ← depth]
    · refine (shape_withOpened draft _).trans ?_
      rw [Option.elim_some, show part.outer.length = _ from turned, depth]

/-- The sort of scope that says which annotations belong into the open member, or into the class. -/
def annotationSort (form : DraftShape) : ScopeSort :=
  if form.head?.map MemberHead.kind = some .method then .ofMethod else .ofMember

/-- Where whoever begins an annotation leaves the shape and says where the values go, the annotation is
open then. -/
theorem turns_openFirst {begins : Draft ClassDraft (Option (AnnotationPlace × ElementList))}
    (maintains : Maintains (HasShape form) begins)
    (returns : Returns (fun begun? => begun?.isSome = true) begins) :
    Turns (HasShape form) (HasShape { form with depth := 1 }) (do
      if let some (place, list) := ← begins then
        change fun draft : ClassDraft => { draft with annotation? := some (place, ⟨list, []⟩) }) := by
  intro state known
  have kept : HasShape form (begins.on state).2.1 := maintains state known
  rw [on_bind]
  rcases ran : begins.on state with ⟨_ | begun?, between⟩ <;> rw [ran] at kept
  · exact kept
  · rcases Option.isSome_iff_exists.mp (returns state begun? between ran) with ⟨⟨place, list⟩, rfl⟩
    exact congrArg (fun form : DraftShape => { form with depth := 1 }) kept

theorem turns_beginAnnotation {opening : Opening} (belongs : annotationSort form ∈ opening.places) :
    Turns (HasShape form) (HasShape { form with depth := 1 }) ( beginAnnotation opening) := by
  rintro ⟨draft, pool⟩ same
  rw [HasShape] at same
  subst same
  unfold beginAnnotation
  rw [on_bind, on_look]
  dsimp only
  cases isOpen : draft.member with
  | method method =>
      have head : draft.shape.head? = some method.memberHead := by rw [shape, isOpen]; rfl
      rw [annotationSort, head] at belongs
      refine turns_openFirst ?_ (returns_within ( MethodDraft.returns_beginAnnotation belongs)) (draft, pool) rfl
      rintro ⟨whole, builder⟩ same
      have kept : MethodDraft.HasHead method.memberHead
          (( MethodDraft.beginAnnotation opening).on (method, builder)).2.1 :=
        MethodDraft.maintains_beginAnnotation opening (method, builder) rfl
      refine (shape_withMember whole _).trans ?_
      rw [show whole.shape = draft.shape from same]
      exact congrArg (fun head? => { draft.shape with head? }) ((congrArg some kept).trans head.symm)
  | none | moduleScope | component | field =>
      have head : draft.shape.head?.map MemberHead.kind ≠ some .method := by
        rw [shape, isOpen]
        nofun
      rw [annotationSort, if_neg head] at belongs
      exact turns_openFirst (maintains_beginPlain opening) (returns_beginPlain belongs) (draft, pool) rfl

/-- An annotation that is opened makes the draft one level deeper. -/
theorem turns_enter {opening : Opening} (noMember : opening.isMember = false)
    (belongs : (if form.depth = 0 then annotationSort form else .ofValues) ∈ opening.places) :
    Turns (HasShape form) (HasShape { form with depth := form.depth + 1 }) (enter opening) := by
  by_cases outside : form.depth = 0
  · rw [if_pos outside] at belongs
    have begins := turns_beginAnnotation belongs
    rw [outside]
    cases opening with
    | moduleScope | component | field | method => cases noMember
    | nested | array =>
        unfold annotationSort at belongs
        split at belongs <;> simp [Opening.places] at belongs
    | _ => exact begins
  · rw [if_neg outside] at belongs
    rcases Nat.exists_eq_succ_of_ne_zero outside with ⟨depth, isOpen⟩
    cases opening with
    | nested name? descriptor =>
        exact turns_inAnnotation isOpen fun _ => AnnotationDraft.turns_openNested name? descriptor
    | array name? => exact turns_inAnnotation isOpen fun _ => AnnotationDraft.turns_openArray name?
    | _ => simp [Opening.places] at belongs

end ClassDraft

/-! ### Members -/

theorem PoolBuilder.textIndex?_of_text {value : Text} {index : UInt16} {pool next : PoolBuilder}
    (ran : (text value).on pool = (.ok index, next)) : next.textIndex? value = some index := by
  rw [text, on_add, on_append] at ran
  unfold textIndex?
  cases known : pool.indices[PoolKey.utf8 value]? with
  | some found =>
      rw [known] at ran
      cases ran
      exact known
  | none =>
      simp only [known] at ran
      split at ran
      · cases ran
      · split at ran
        · cases ran
        · cases ran
          simp [push]

namespace Draft

theorem good_of_ran {σ α : Type} (good : α → Prop) {step : Draft σ α} {state next : σ × PoolBuilder}
    {value : α} (ran : step.on state = (.ok value, next)) (returns : Returns good step) : good value :=
  returns state value next ran

/-- A member starts with the indices of its name and its descriptor. -/
theorem indices_of_begins {σ α : Type} {name descriptor : Text} {rest : UInt16 → UInt16 → Draft σ α}
    (grows : ∀ one two, Grows (rest one two)) {state next : σ × PoolBuilder} {value : α}
    (ran : on (do
      let one ← pooled (PoolBuilder.text name)
      let two ← pooled (PoolBuilder.text descriptor)
      rest one two) state = (.ok value, next)) :
    ∃ one two between, next.2.textIndex? name = some one ∧
      next.2.textIndex? descriptor = some two ∧ (rest one two).on between = (.ok value, next) := by
  rcases state with ⟨part, pool⟩
  rw [on_bind, on_pooled] at ran
  rcases named : (PoolBuilder.text name).on pool with ⟨_ | one, first⟩ <;> rw [named] at ran
  · cases ran
  · dsimp only at ran
    rw [on_bind, on_pooled] at ran
    rcases described : (PoolBuilder.text descriptor).on first with ⟨_ | two, second⟩ <;>
      rw [described] at ran
    · cases ran
    · dsimp only at ran
      have later : second.Grows next.2 := by
        have grown := grows one two (part, second)
        rwa [ran] at grown
      have between := (PoolBuilder.settles_text descriptor).grows described
      exact ⟨one, two, (part, second),
        later.indices (between.indices (PoolBuilder.textIndex?_of_text named)),
        later.indices (PoolBuilder.textIndex?_of_text described), ran⟩

end Draft

/-- A record component starts with what the pool has for it then. -/
theorem ComponentDraft.head?_of_begin {σ : Type} {header : ComponentHeader} {state next : σ × PoolBuilder}
    {part : ComponentDraft} (ran : (ComponentDraft.begin header).on state = (.ok part, next)) :
    (Opening.component header).head? next.2 = (MemberDraft.component part).head? := by
  rcases indices_of_begins (by grind) ran with ⟨one, two, between, named, described, rest⟩
  have head : part.name = one ∧ part.descriptor = two :=
    good_of_ran (fun part => part.name = one ∧ part.descriptor = two) rest
      ((returns_any _).bind fun _ _ => returns_pure ⟨rfl, rfl⟩)
  simp [Opening.head?, MemberDraft.head?, named, described, head]

/-- A field starts with what the pool has for it then. -/
theorem FieldDraft.head?_of_begin {σ : Type} {header : FieldHeader} {state next : σ × PoolBuilder}
    {part : FieldDraft} (ran : (FieldDraft.begin header).on state = (.ok part, next)) :
    (Opening.field header).head? next.2 = (MemberDraft.field part).head? := by
  rcases indices_of_begins (by grind) ran with ⟨one, two, between, named, described, rest⟩
  have head : part.access = header.access ∧ part.name = one ∧ part.descriptor = two := by
    refine good_of_ran
      (fun part => part.access = header.access ∧ part.name = one ∧ part.descriptor = two) rest
      ((returns_any _).bind fun signature? _ => ?_)
    cases header.value? with
    | none => exact (returns_any _).bind fun _ _ => returns_pure ⟨rfl, rfl, rfl⟩
    | some value =>
        exact (returns_any _).bind fun _ _ => (returns_any _).bind fun _ _ =>
          returns_pure ⟨rfl, rfl, rfl⟩
  simp [Opening.head?, MemberDraft.head?, named, described, head]

/-- A method starts with what the pool has for it then. -/
theorem MethodDraft.head?_of_begin {σ : Type} {header : MethodHeader} {state next : σ × PoolBuilder}
    {part : MethodDraft} (ran : (MethodDraft.begin header).on state = (.ok part, next)) :
    (Opening.method header).head? next.2 = (MemberDraft.method part).head? := by
  rcases indices_of_begins (by grind) ran with ⟨one, two, between, named, described, rest⟩
  have head : part.memberHead = ⟨.method, header.access, one, two⟩ :=
    good_of_ran (fun part => part.memberHead = ⟨.method, header.access, one, two⟩) rest
      ((returns_any _).bind fun _ _ => (returns_any _).bind fun _ _ => returns_pure rfl)
  simp [Opening.head?, MemberDraft.head?, named, described, head]

namespace ClassDraft

variable {draft : ClassDraft} {pool : PoolBuilder}

/-- The open member is the last thing that changes when a member is opened. -/
theorem on_begin_member {opening : Opening} {α : Type} {begins : Draft ClassDraft α}
    {update : α → ClassDraft → ClassDraft} {member : α → MemberDraft}
    (same : ∀ value draft, (update value draft).shape =
      { draft.shape with head? := (member value).head? })
    (maintains : Maintains (HasShape draft.shape) begins)
    (starts : ∀ value next, begins.on (draft, pool) = (.ok value, next) →
      opening.head? next.2 = (member value).head?)
    (kind : ∀ value, (member value).head?.map MemberHead.kind = opening.memberKind?) :
    match on (begins >>= fun value => change (update value)) (draft, pool) with
    | (.ok _, next) => next.1.shape = { draft.shape with head? := opening.head? next.2 } ∧
        (opening.head? next.2).map MemberHead.kind = opening.memberKind?
    | (.error _, next) => next.1.shape = draft.shape := by
  have kept : (begins.on (draft, pool)).2.1.shape = draft.shape := maintains (draft, pool) rfl
  rw [on_bind]
  rcases ran : begins.on (draft, pool) with ⟨_ | value, next⟩ <;> rw [ran] at kept
  · exact kept
  · have head := starts value next ran
    refine ⟨(same value next.1).trans ?_, (congrArg _ head).trans (kind value)⟩
    rw [kept, ← head]

/-- A member that is opened is the open one, with what its structure starts with. -/
theorem on_enter_member {opening : Opening} (isMember : opening.isMember = true) (draft : ClassDraft)
    (pool : PoolBuilder) :
    match on (enter opening) (draft, pool) with
    | (.ok _, next) => next.1.shape = { draft.shape with head? := opening.head? next.2 } ∧
        (opening.head? next.2).map MemberHead.kind = opening.memberKind?
    | (.error _, next) => next.1.shape = draft.shape := by
  cases opening with
  | moduleScope header =>
      refine @on_begin_member draft pool _ _ (ModuleDraft.begin header) _ (fun _ => .moduleScope)
        (fun _ _ => rfl) ?_ (fun _ _ _ => rfl) fun _ => rfl
      unfold ModuleDraft.begin
      grind
  | component header =>
      refine @on_begin_member draft pool _ _ (ComponentDraft.begin header) _ .component
        (fun _ _ => rfl) ?_ (fun _ _ => ComponentDraft.head?_of_begin) fun _ => rfl
      unfold ComponentDraft.begin
      grind
  | field header =>
      refine @on_begin_member draft pool _ _ (FieldDraft.begin header) _ .field
        (fun _ _ => rfl) ?_ (fun _ _ => FieldDraft.head?_of_begin) fun _ => rfl
      unfold FieldDraft.begin
      cases header.value? <;> grind
  | method header =>
      refine @on_begin_member draft pool _ _ (MethodDraft.begin header) _ .method
        (fun _ _ => rfl) ?_ (fun _ _ => MethodDraft.head?_of_begin) fun _ => rfl
      unfold MethodDraft.begin
      grind
  | _ => cases isMember

end ClassDraft

end ClassFile
