import ClassFile.Draft.Class
import ClassFile.Proofs.Rewriting.Slots

/-!
# Callers that go on

A caller need not stop where a consumer fails: it may go on with the next event, end the scope that it
is in, or give that scope up.  A `Course` is what such a caller does, and `Consumer.follow` does it.
What belongs where is part of a course, because a caller can't tell a scope what it has no words for.

A consumer that keeps a class draft `Tabulates` if each of its steps leaves the tables of members alone,
done or failed, but for the end of a member that is done, which adds the member.  Then a course adds
exactly the members whose ends were done, in that order (`Consumer.Tabulates.follow`).
-/

namespace ClassFile

/-! ### Courses -/

/-- The sorts of scopes, by what can be told right inside. -/
inductive ScopeSort where
  | ofClass | ofModule | ofMember | ofMethod | ofValues
  deriving DecidableEq

namespace Opening

/-- The sort of the scope that is opened. -/
def sort : Opening → ScopeSort
  | .moduleScope _ => .ofModule
  | .component _ | .field _ => .ofMember
  | .method _ => .ofMethod
  | _ => .ofValues

/-- The sorts of scopes right inside which the scope can be opened. -/
def places : Opening → List ScopeSort
  | .moduleScope _ | .component _ | .field _ | .method _ => [.ofClass]
  | .annotate .. | .annotateType _ => [.ofClass, .ofMember, .ofMethod]
  | .annotationDefault | .annotateParameter .. | .annotateInstruction _ | .annotateTryCatch _
  | .annotateLocal .. => [.ofMethod]
  | .nested .. | .array _ => [.ofValues]

end Opening

/-- The sorts of scopes right inside which an event can be told, if it neither opens nor closes a scope
inside the class.  What ends the class is told in the class. -/
def Event.places : Event → List ScopeSort
  | .classItem _ | .finish => [.ofClass]
  | .moduleItem _ => [.ofModule]
  | .element _ => [.ofValues]
  | .methodItem _ => [.ofMethod]
  | .attribute _ => [.ofClass, .ofMember, .ofMethod]
  | .enter _ | .leave => []

/-- What a caller does inside a scope: it tells events, and opens scopes, each of which it ends or gives up
in the end. -/
inductive Course : ScopeSort → Type where
  | done {sort : ScopeSort} : Course sort
  | event {sort : ScopeSort} (event : Event) (belongs : sort ∈ event.places)
      (rest : Course sort) : Course sort
  | scope {sort : ScopeSort} (opening : Opening) (belongs : sort ∈ opening.places)
      (inside : Course opening.sort) (ends : Bool) (rest : Course sort) : Course sort

namespace Consumer

variable {σ : Type}

/-- Ends the innermost scope or gives it up, and says whether its end was done.  A scope whose end fails
is dropped. -/
def close (consumer : Consumer σ) (drop : σ → σ) (ends : Bool) (state : σ) : Bool × σ :=
  if ends then
    match (consumer.step .finish).run.run state with
    | (.ok _, next) => (true, next)
    | (.error _, next) => (false, drop next)
  else (false, ((consumer.step .leave).run.run state).2)

/-- Follows a course, whatever fails on the way: the scopes whose ends were done, in the order of the
ends, and the state that is left.  Nothing can be told inside a scope that could not be opened. -/
def follow (consumer : Consumer σ) (drop : σ → σ) {sort : ScopeSort} :
    Course sort → σ → List Opening × σ
  | .done, state => ([], state)
  | .event event _ rest, state =>
      consumer.follow drop rest ((consumer.step event).run.run state).2
  | .scope opening _ inside ends rest, state =>
      match (consumer.step (.enter opening)).run.run state with
      | (.ok .entered, entered) =>
          let closed := consumer.close drop ends (consumer.follow drop inside entered).2
          let others := consumer.follow drop rest closed.2
          (if closed.1 then opening :: others.1 else others.1, others.2)
      | (_, next) => consumer.follow drop rest next

end Consumer

/-! ### Tables -/

/-- The sorts of members that a class file has tables of. -/
inductive MemberKind where
  | component | field | method
  deriving DecidableEq

/-- The table of members of a sort. -/
def ClassDraft.table (draft : ClassDraft) : MemberKind → Table
  | .component => draft.components
  | .field => draft.fields
  | .method => draft.methods

/-- What the structure of a member starts with: access flags, which a record component does not have,
and the indices of its name and its descriptor. -/
structure MemberHead where
  kind : MemberKind
  access : UInt32
  name : UInt16
  descriptor : UInt16

/-- The numbers that the structure of a member starts with in a class file of the given version. -/
def MemberHead.numbers (head : MemberHead) (major : UInt16) : List UInt16 :=
  match head.kind with
  | .component => [head.name, head.descriptor]
  | .field | .method => [Access.stored head.access major, head.name, head.descriptor]

/-- The index under which a pool has a text. -/
def PoolBuilder.textIndex? (pool : PoolBuilder) (text : Text) : Option UInt16 :=
  pool.indices[PoolKey.utf8 text]?

namespace Opening

/-- The sort of the member whose scope is opened. -/
def memberKind? : Opening → Option MemberKind
  | .component _ => some .component
  | .field _ => some .field
  | .method _ => some .method
  | _ => none

/-- What the structure of the member whose scope is opened starts with. -/
def head? (pool : PoolBuilder) : Opening → Option MemberHead
  | .component header => do
      return ⟨.component, 0, ← pool.textIndex? header.name, ← pool.textIndex? header.descriptor⟩
  | .field header => do
      return ⟨.field, header.access, ← pool.textIndex? header.name,
        ← pool.textIndex? header.descriptor⟩
  | .method header => do
      return ⟨.method, header.access, ← pool.textIndex? header.name,
        ← pool.textIndex? header.descriptor⟩
  | _ => none

end Opening

/-- Whether bytes are those of an attribute: the index of its name, the number of its bytes, and the
bytes. -/
def IsAttribute (written : UInt16 × Output) (bytes : List UInt8) : Prop :=
  written.2.size < 4294967296 ∧
    bytes = bigEndian16 written.1 ++ (bigEndian32 written.2.size.toUInt32 ++ written.2.toList)

/-- Whether bytes are a whole structure: numbers, and then a table of whole attributes. -/
def IsStructure (numbers : List UInt16) (bytes : List UInt8) : Prop :=
  ∃ (written : List (UInt16 × Output)) (attributes : Table),
    attributes.Spells IsAttribute written ∧
      bytes = numbers.flatMap bigEndian16 ++ attributes.toOutput.toList

/-- Whether bytes are the whole structure of the member whose scope is opened. -/
def Opening.IsWritten (pool : PoolBuilder) (opening : Opening) (bytes : List UInt8) : Prop :=
  ∃ head major, opening.head? pool = some head ∧ IsStructure (head.numbers major) bytes

namespace Opening

variable {pool later : PoolBuilder} {opening : Opening}

theorem head?_mono (grows : pool.Grows later) {head : MemberHead}
    (found : opening.head? pool = some head) : opening.head? later = some head := by
  have text {text : Text} {index : UInt16} (known : pool.textIndex? text = some index) :
      later.textIndex? text = some index := grows.indices known
  cases opening with
  | component header | field header | method header =>
      simp only [head?, Option.bind_eq_bind, Option.bind_eq_some_iff] at found ⊢
      rcases found with ⟨name, named, descriptor, described, same⟩
      exact ⟨name, text named, descriptor, text described, same⟩
  | _ => cases found

theorem IsWritten.mono (grows : pool.Grows later) {bytes : List UInt8}
    (written : opening.IsWritten pool bytes) : opening.IsWritten later bytes := by
  rcases written with ⟨head, major, found, isStructure⟩
  exact ⟨head, major, head?_mono grows found, isStructure⟩

end Opening

/-- Whether one draft is left of another one when the given members were added to the tables, each as a
whole structure, and nothing was taken away from the pool. -/
structure Files (openings : List Opening) (before after : ClassDraft × PoolBuilder) : Prop where
  grows : before.2.Grows after.2
  adds : ∀ kind, ∃ entries,
    List.Forall₂ (fun opening entry => opening.IsWritten after.2 (Output.toList entry))
      (openings.filter fun opening => opening.memberKind? = some kind) entries ∧
      (after.1.table kind).entries = entries.reverse ++ (before.1.table kind).entries ∧
      (after.1.table kind).count.toNat = (before.1.table kind).count.toNat + entries.length

namespace Files

variable {first second third : ClassDraft × PoolBuilder} {openings others : List Opening}

/-- Where no table changes, no member is added. -/
theorem of_tables (grows : first.2.Grows second.2) (same : second.1.table = first.1.table) :
    Files [] first second :=
  ⟨grows, fun _ => ⟨[], .nil, by rw [same]; rfl, by rw [same]; rfl⟩⟩

theorem refl (state : ClassDraft × PoolBuilder) : Files [] state state :=
  of_tables (.refl _) rfl

theorem trans (one : Files openings first second) (two : Files others second third) :
    Files (openings ++ others) first third := by
  refine ⟨one.grows.trans two.grows, fun kind => ?_⟩
  rcases one.adds kind with ⟨entries, written, added, counted⟩
  rcases two.adds kind with ⟨more, writtenToo, addedToo, countedToo⟩
  have kept := written.imp fun _ _ isWritten => isWritten.mono two.grows
  refine ⟨entries ++ more, ?_, ?_, ?_⟩
  · rw [List.filter_append]
    exact List.rel_append kept writtenToo
  · rw [addedToo, added, List.reverse_append, List.append_assoc]
  · rw [countedToo, counted, List.length_append, Nat.add_assoc]

/-- What is no member is in no table. -/
theorem congr (files : Files openings first second)
    (same : ∀ kind, (openings.filter fun opening => opening.memberKind? = some kind) =
      others.filter fun opening => opening.memberKind? = some kind) : Files others first second :=
  ⟨files.grows, fun kind => same kind ▸ files.adds kind⟩

/-- Where no member is added, no table changes. -/
theorem table_eq (files : Files [] first second) (kind : MemberKind) :
    second.1.table kind = first.1.table kind := by
  rcases files.adds kind with ⟨entries, written, added, counted⟩
  cases written
  have same : (second.1.table kind).count = (first.1.table kind).count := UInt16.toNat.inj counted
  rcases after : second.1.table kind with ⟨count, entries⟩
  rw [after] at added same
  cases same
  cases added
  rfl

/-- Each table that was empty holds the members of its sort and counts them. -/
theorem spells (files : Files openings first second) (kind : MemberKind)
    (empty : first.1.table kind = {}) :
    (second.1.table kind).Spells (Opening.IsWritten second.2)
      (openings.filter fun opening => opening.memberKind? = some kind) := by
  rcases files.adds kind with ⟨entries, written, added, counted⟩
  rw [empty, List.append_nil] at added
  rw [empty] at counted
  refine ⟨?_, entries.map Output.toList, List.forall₂_map_right_iff.mpr written, ?_⟩
  · rw [counted, written.length_eq]
    exact Nat.zero_add _
  · rw [added, Pieces.toList, List.reverse_reverse, List.flatten_eq_flatMap, List.flatMap_map]
    rfl

end Files

/-! ### Steps of a caller -/

/-- Where a caller stands: in which member of the class, if in any, and inside how many annotations and
parts of annotations. -/
structure Standing where
  member? : Option Opening := none
  depth : Nat := 0

namespace Standing

/-- The sort of the innermost scope. -/
def sort : Standing → ScopeSort
  | ⟨none, 0⟩ => .ofClass
  | ⟨some opening, 0⟩ => opening.sort
  | ⟨_, _ + 1⟩ => .ofValues

/-- Where the caller stands in a scope that it opens. -/
def enter (standing : Standing) (opening : Opening) : Standing :=
  if opening.isMember then ⟨some opening, 0⟩ else ⟨standing.member?, standing.depth + 1⟩

end Standing

/-- Whether a consumer adds members to the tables of the draft behind it when they are finished, and at no
other time.  `stands` says what is known of the state where the caller stands somewhere. -/
structure Consumer.Tabulates {σ : Type} (consumer : Consumer σ) (drop : σ → σ)
    (view : σ → ClassDraft × PoolBuilder) (stands : Standing → σ → Prop) : Prop where
  event {standing : Standing} {event : Event} {state : σ} (known : stands standing state)
    (belongs : standing.sort ∈ event.places) :
      let next := ((consumer.step event).run.run state).2
      stands standing next ∧ Files [] (view state) (view next)
  enter {standing : Standing} {opening : Opening} {state : σ} (known : stands standing state)
    (belongs : standing.sort ∈ opening.places) :
      match (consumer.step (.enter opening)).run.run state with
      | (.ok reply, next) => reply = .entered ∧ stands (standing.enter opening) next ∧
          Files [] (view state) (view next)
      | (.error _, next) => stands standing next ∧ Files [] (view state) (view next)
  close {member? : Option Opening} {depth : Nat} {event : Event} {state : σ}
    (known : stands ⟨member?, depth + 1⟩ state) (closes : event = .finish ∨ event = .leave) :
      ∃ reply next, (consumer.step event).run.run state = (.ok reply, next) ∧
        stands ⟨member?, depth⟩ next ∧ Files [] (view state) (view next)
  leave {opening : Opening} {state : σ} (known : stands ⟨some opening, 0⟩ state) :
      let next := ((consumer.step .leave).run.run state).2
      stands {} next ∧ Files [] (view state) (view next)
  finish {opening : Opening} {state : σ} (known : stands ⟨some opening, 0⟩ state) :
      match (consumer.step .finish).run.run state with
      | (.ok _, next) => stands {} next ∧ Files [opening] (view state) (view next)
      | (.error _, next) => (∃ standing, stands standing next) ∧ Files [] (view state) (view next)
  dropped {standing : Standing} {state : σ} (known : stands standing state) :
      stands {} (drop state) ∧ Files [] (view state) (view (drop state))

namespace Opening

variable {opening : Opening} {sort : ScopeSort}

theorem sort_ne_ofClass (opening : Opening) : opening.sort ≠ .ofClass := by
  cases opening <;> nofun

/-- A member or a module declaration is opened in the class. -/
theorem eq_ofClass_of_isMember (isMember : opening.isMember = true) (belongs : sort ∈ opening.places) :
    sort = .ofClass := by
  cases opening <;> simp_all [Opening.isMember, places]

theorem memberKind?_of_not_isMember (noMember : opening.isMember = false) :
    opening.memberKind? = none := by
  cases opening <;> simp_all [Opening.isMember, memberKind?]

/-- What is opened inside another scope is no member. -/
theorem memberKind?_of_places (belongs : sort ∈ opening.places) (inside : sort ≠ .ofClass) :
    opening.memberKind? = none := by
  refine memberKind?_of_not_isMember (Bool.eq_false_iff.mpr fun isMember => inside ?_)
  exact eq_ofClass_of_isMember isMember belongs

end Opening

namespace Standing

theorem sort_enter (standing : Standing) (opening : Opening) :
    (standing.enter opening).sort = opening.sort := by
  unfold enter
  split
  · rfl
  · rcases standing with ⟨_ | _, depth⟩ <;> cases opening <;> first | rfl | contradiction

theorem eq_of_sort {standing : Standing} (inClass : standing.sort = .ofClass) : standing = {} := by
  rcases standing with ⟨_ | opening, _ | depth⟩
  · rfl
  · cases inClass
  · exact absurd inClass opening.sort_ne_ofClass
  · cases inClass

end Standing

namespace Consumer

variable {σ : Type} {consumer : Consumer σ} {drop : σ → σ}

/-- The scopes that a course ends stand where the course is. -/
theorem places_of_mem_follow {sort : ScopeSort} (course : Course sort) (state : σ) {opening : Opening}
    (ended : opening ∈ (consumer.follow drop course state).1) : sort ∈ opening.places := by
  induction course generalizing state with
  | done => cases ended
  | event event belongs rest ih => exact ih _ ended
  | scope other belongs inside ends rest _ ih =>
      rw [follow] at ended
      split at ended
      · dsimp only at ended
        split at ended
        · rcases List.mem_cons.mp ended with rfl | behind
          · exact belongs
          · exact ih _ behind
        · exact ih _ ended
      · exact ih _ ended

/-- What was ended inside a scope is no member. -/
theorem files_inside {opening : Opening} (inside : Course opening.sort) (state : σ)
    {first second : ClassDraft × PoolBuilder}
    (files : Files (consumer.follow drop inside state).1 first second) : Files [] first second := by
  refine files.congr fun kind => ?_
  rw [List.filter_nil, List.filter_eq_nil_iff]
  intro other ended
  have belongs := places_of_mem_follow inside state ended
  simp [Opening.memberKind?_of_places belongs opening.sort_ne_ofClass]

namespace Tabulates

variable {view : σ → ClassDraft × PoolBuilder} {stands : Standing → σ → Prop}

/-- A scope that is closed leaves the caller where it was, and adds a member if that was the scope of one
and its end was done. -/
theorem closes (tabulates : consumer.Tabulates drop view stands) {standing : Standing}
    {opening : Opening} {state : σ} (belongs : standing.sort ∈ opening.places)
    (known : stands (standing.enter opening) state) (ends : Bool) :
    let closed := consumer.close drop ends state
    stands standing closed.2 ∧
      Files (if closed.1 then [opening] else []) (view state) (view closed.2) := by
  unfold Consumer.close
  by_cases isMember : opening.isMember
  · rw [Standing.enter, if_pos isMember] at known
    rw [Standing.eq_of_sort (Opening.eq_ofClass_of_isMember isMember belongs)]
    cases ends with
    | false => exact tabulates.leave known
    | true =>
        have finished := tabulates.finish known
        rcases ran : (consumer.step .finish).run.run state with ⟨_ | reply, next⟩ <;>
          simp only [ran, if_true] at finished ⊢
        · rcases finished with ⟨⟨left, knownLeft⟩, files⟩
          have dropped := tabulates.dropped knownLeft
          exact ⟨dropped.1, files.trans dropped.2⟩
        · exact finished
  · rw [Standing.enter, if_neg isMember] at known
    have noMember := Opening.memberKind?_of_not_isMember (Bool.eq_false_iff.mpr isMember)
    cases ends with
    | false =>
        rcases tabulates.close known (.inr rfl) with ⟨reply, next, ran, stood, files⟩
        simp only [ran, Bool.false_eq_true, if_false]
        exact ⟨stood, files⟩
    | true =>
        rcases tabulates.close known (.inl rfl) with ⟨reply, next, ran, stood, files⟩
        simp only [ran, if_true]
        exact ⟨stood, files.congr fun kind => by simp [noMember]⟩

/-- A course adds the members whose ends were done, in the order of those ends, and leaves the caller
where it was. -/
theorem follow (tabulates : consumer.Tabulates drop view stands) {sort : ScopeSort}
    (course : Course sort) {standing : Standing} {state : σ} (place : standing.sort = sort)
    (known : stands standing state) :
    let ran := consumer.follow drop course state
    stands standing ran.2 ∧ Files ran.1 (view state) (view ran.2) := by
  induction course generalizing standing state with
  | done => exact ⟨known, .refl _⟩
  | event event belongs rest ih =>
      have told := tabulates.event known (place ▸ belongs)
      have others := ih place told.1
      exact ⟨others.1, told.2.trans others.2⟩
  | scope opening belongs inside ends rest ihInside ih =>
      have entered := tabulates.enter known (place ▸ belongs)
      unfold Consumer.follow
      rcases ran : (consumer.step (.enter opening)).run.run state with ⟨_ | reply, next⟩ <;>
        rw [ran] at entered <;> dsimp only at entered
      · have others := ih place entered.1
        exact ⟨others.1, entered.2.trans others.2⟩
      · rcases entered with ⟨rfl, stood, files⟩
        have within := ihInside (standing.sort_enter opening) stood
        have closed := tabulates.closes (place ▸ belongs) within.1 ends
        have others := ih place closed.1
        refine ⟨others.1, ?_⟩
        have noMember := files_inside inside next within.2
        have all := ((files.trans noMember).trans closed.2).trans others.2
        dsimp only
        split at all <;> rename_i ended <;> simpa [ended] using all

/-- What is told inside a scope adds no member. -/
theorem follow_inside (tabulates : consumer.Tabulates drop view stands) {standing : Standing}
    {opening : Opening} (inside : Course opening.sort) {state : σ}
    (known : stands (standing.enter opening) state) :
    let told := (consumer.follow drop inside state).2
    stands (standing.enter opening) told ∧ Files [] (view state) (view told) :=
  have within := tabulates.follow inside (standing.sort_enter opening) known
  ⟨within.1, files_inside inside state within.2⟩

end Tabulates

end Consumer

end ClassFile
