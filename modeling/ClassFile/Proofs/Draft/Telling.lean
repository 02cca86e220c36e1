import ClassFile.Draft.Class
import ClassFile.Proofs.Draft.Running

/-!
# Telling a class to the writer

The writer enters every scope, so a script is told item by item.  What is told while an annotation is
open changes nothing but the annotation, and what is told of the module or in a method changes nothing
else either.
-/

namespace ClassFile

namespace Draft

variable {σ α : Type} {Before : σ → Pool → Prop}

/-- What follows from what is known, whatever the part and the pool, can be used. -/
theorem Runs.assume {step : Draft σ α} {After : α → σ → Pool → Prop} {fact : Prop}
    (known : ∀ part pool, Before part pool → fact) (runs : fact → Runs Before step After) :
    Runs Before step After := by
  intro part builder content holds before value next last ran
  rcases holds.exists_pool with ⟨pool, same⟩
  exact runs (known part pool (before pool same.has)) part builder content holds before value next last ran

/-- A step from where nobody is. -/
theorem Runs.absurd {step : Draft σ α} {After : α → σ → Pool → Prop}
    (impossible : ∀ part pool, ¬Before part pool) : Runs Before step After :=
  Runs.assume impossible False.elim

theorem Runs.strengthen {step : Draft σ α} {Before' : σ → Pool → Prop} {After : α → σ → Pool → Prop}
    (runs : Runs Before step After) (before : ∀ part pool, Before' part pool → Before part pool) :
    Runs Before' step After :=
  runs.weaken before fun _ _ _ => id

/-- What is known of the pool stays known. -/
theorem Runs.frame {step : Draft σ α} {After : α → σ → Pool → Prop} {fact : Pool → Prop}
    (runs : Runs Before step After) :
    Runs (fun part pool => Before part pool ∧ fact pool) step
      fun value part pool => After value part pool ∧ fact pool := by
  intro part builder content holds before value next last ran
  rcases runs part builder content holds (fun pool has => (before pool has).1) _ _ _ ran with
    ⟨later, added, meant⟩
  exact ⟨later, added, fun pool has =>
    ⟨meant pool has, (before pool (has.mono added.contentGrows)).2⟩⟩

end Draft

namespace ClassDraft

open Draft

variable {Before After Middle Inside : ClassDraft → Pool → Prop}

/-! ### Items -/

theorem runs_step {event : Event} (runs : Runs Before (record event) fun _ => After) :
    Runs Before (writer.step event) fun reply draft pool =>
      reply = .entered ∧ After draft pool :=
  runs.bind fun _ => (Runs.pure _).weaken (fun _ _ => id) fun _ _ _ => id

theorem runs_tellItem_event {event : Event} (runs : Runs Before (record event) fun _ => After) :
    Runs Before (writer.tellItem (.event event)) fun _ => After := by
  rw [Consumer.tellItem]
  exact (runs_step runs).bind fun _ =>
    (Runs.pure ()).weaken (fun _ _ known => known.2) fun _ _ _ => And.right

theorem runs_tellItem_scope {opening : Opening} {body : List Item}
    (enters : Runs Before (record (.enter opening)) fun _ => Middle)
    (tells : Runs Middle (writer.tell body) fun _ => Inside)
    (finishes : Runs Inside (record .finish) fun _ => After) :
    Runs Before (writer.tellItem (.scope opening body)) fun _ => After := by
  rw [Consumer.tellItem]
  refine (runs_step enters).bind fun reply => ?_
  cases reply with
  | declined => exact Runs.absurd fun _ _ known => nomatch known.1
  | entered =>
      refine (tells.strengthen fun _ _ => And.right).bind fun _ => ?_
      exact (runs_step finishes).bind fun _ =>
        (Runs.pure ()).weaken (fun _ _ known => known.2) fun _ _ _ => And.right

theorem runs_tell_nil : Runs Before (writer.tell []) fun _ => Before := by
  rw [Consumer.tell]
  exact (Runs.pure ()).weaken (fun _ _ => id) fun _ _ _ => And.right

theorem runs_tell_cons {item : Item} {rest : List Item}
    (first : Runs Before (writer.tellItem item) fun _ => Middle)
    (others : Runs Middle (writer.tell rest) fun _ => After) :
    Runs Before (writer.tell (item :: rest)) fun _ => After := by
  rw [Consumer.tell]
  exact first.bind fun _ => others

theorem runs_tell_append {items others : List Item}
    (first : Runs Before (writer.tell items) fun _ => Middle)
    (second : Runs Middle (writer.tell others) fun _ => After) :
    Runs Before (writer.tell (items ++ others)) fun _ => After := by
  have same : writer.tell (items ++ others) = (do writer.tell items; writer.tell others) := by
    clear first second
    induction items with
    | nil =>
        rw [Consumer.tell]
        rfl
    | cons item rest ih =>
        rw [List.cons_append, Consumer.tell, Consumer.tell, ih]
        exact (bind_assoc _ _ _).symm
  rw [same]
  exact first.bind fun _ => second

/-- What is told item by item, if each is recorded behind those before it. -/
theorem runs_tell_items {Told : List Item → ClassDraft → Pool → Prop} {done items : List Item}
    (each : ∀ done, ∀ item ∈ items, Runs (Told done) (writer.tellItem item) fun _ =>
      Told (done ++ [item])) :
    Runs (Told done) (writer.tell items) fun _ => Told (done ++ items) := by
  induction items generalizing done with
  | nil =>
      rw [List.append_nil]
      exact runs_tell_nil
  | cons item rest ih =>
      refine runs_tell_cons (each done item List.mem_cons_self) ?_
      have others := @ih (done ++ [item]) fun done other member =>
        each done other (List.mem_cons_of_mem _ member)
      rwa [List.append_assoc] at others

/-! ### Parts -/

/-- Whether an annotation is open that belongs to a place, with what is known of it and of the draft
around it. -/
def Opened (place : AnnotationPlace) (Known : AnnotationDraft → Pool → Prop)
    (Around : ClassDraft → Pool → Prop) (draft : ClassDraft) (pool : Pool) : Prop :=
  ∃ annotation, draft.annotation? = some (place, annotation) ∧ Known annotation pool ∧
    Around { draft with annotation? := none } pool

theorem runs_inAnnotation {place : AnnotationPlace} {Known Known' : AnnotationDraft → Pool → Prop}
    {step : Draft AnnotationDraft Unit} (runs : Runs Known step fun _ => Known') :
    Runs (Opened place Known Before) ( inAnnotation step) fun _ => Opened place Known' Before := by
  unfold inAnnotation
  refine (Runs.look _).bind fun found => ?_
  match found with
  | none =>
      refine Runs.absurd ?_
      rintro draft pool ⟨none, annotation, some, -⟩
      rw [← none] at some
      cases some
  | some (place', annotation) =>
      refine Runs.within (runs.strengthen fun _ _ => id) ?_ ?_
      · rintro draft pool ⟨same, annotation', found, known, -⟩
        rw [← same] at found
        cases found
        exact known
      · rintro draft pool _ part ⟨same, annotation', found, -, around⟩ written
        rw [← same] at found
        cases found
        exact ⟨part, rfl, written, around⟩

/-- The end of what is open inside the annotation. -/
theorem runs_exit_inner {place : AnnotationPlace} {Known Known' : AnnotationDraft → Pool → Prop}
    (finished : Bool) (closes : ∀ annotation pool, Known annotation pool →
      ∃ around, annotation.closed? = some around ∧ Known' around pool) :
    Runs (Opened place Known Before) (exit finished) fun _ => Opened place Known' Before := by
  unfold exit
  refine (Runs.look _).bind fun found => ?_
  match found with
  | none =>
      refine Runs.absurd ?_
      rintro draft pool ⟨none, annotation, some, -⟩
      rw [← none] at some
      cases some
  | some (place', annotation) =>
      dsimp only
      split
      · rename_i inner closed
        refine Runs.change ?_
        rintro draft pool ⟨same, annotation', found, known, around⟩
        rw [← same] at found
        cases found
        rcases closes _ _ known with ⟨inner', closed', known'⟩
        rw [closed] at closed'
        cases closed'
        exact ⟨inner, rfl, known', around⟩
      · rename_i closed
        refine Runs.absurd ?_
        rintro draft pool ⟨same, annotation', found, known, -⟩
        rw [← same] at found
        cases found
        rcases closes _ _ known with ⟨inner', closed', -⟩
        rw [closed] at closed'
        cases closed'

theorem runs_inModule {Known Known' : ModuleDraft → Pool → Prop} {step : Draft ModuleDraft Unit}
    (runs : Runs Known step fun _ => Known') :
    Runs (fun draft pool => ∃ part, draft.module? = some part ∧ Known part pool ∧
        Before { draft with module? := none } pool)
      (inModule step)
      fun _ draft pool => ∃ part, draft.module? = some part ∧ Known' part pool ∧
        Before { draft with module? := none } pool := by
  unfold inModule
  refine (Runs.look _).bind fun found => ?_
  match found with
  | none =>
      refine Runs.absurd ?_
      rintro draft pool ⟨none, part, some, -⟩
      rw [← none] at some
      cases some
  | some part =>
      refine Runs.within runs ?_ ?_
      · rintro draft pool ⟨same, part', found, known, -⟩
        rw [← same] at found
        cases found
        exact known
      · rintro draft pool _ next ⟨same, part', found, -, around⟩ written
        exact ⟨next, rfl, written, around⟩

/-- Whether a method is open, with what is known of it and of the draft around it. -/
def InMethod (Known : MethodDraft → Pool → Prop) (Around : ClassDraft → Pool → Prop)
    (draft : ClassDraft) (pool : Pool) : Prop :=
  ∃ part, draft.member = .method part ∧ Known part pool ∧
    Around { draft with member := .none } pool

theorem runs_inMethod {Known Known' : MethodDraft → Pool → Prop} {step : Draft MethodDraft Unit}
    (runs : Runs Known step fun _ => Known') :
    Runs (InMethod Known Before) (inMethod step) fun _ => InMethod Known' Before := by
  unfold inMethod
  refine (Runs.look _).bind fun found => ?_
  match found with
  | .method part =>
      refine Runs.within runs ?_ ?_
      · rintro draft pool ⟨same, part', found, known, -⟩
        rw [← same] at found
        cases found
        exact known
      · rintro draft pool _ next ⟨same, part', found, -, around⟩ written
        exact ⟨next, rfl, written, around⟩
  | .none | .moduleScope | .component _ | .field _ =>
      refine Runs.absurd ?_
      rintro draft pool ⟨same, part', found, -⟩
      rw [← same] at found
      cases found

end ClassDraft

end ClassFile
