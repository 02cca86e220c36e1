import ClassFile.Adapter
import ClassFile.Proofs.Gating.Classes
import ClassFile.Proofs.Gating.Logs
import ClassFile.Proofs.Gating.Reading
import ClassFile.Proofs.Gating.Refusals
import ClassFile.Proofs.Gating.Trees
import ClassFile.Proofs.Renaming

/-!
# Versions behind chains of adapters

A class that a reader or a tree tells through a chain of adapters reaches the consumer behind the chain
without anything that the consumer does not know (`Producer.tellThrough_gated`).  The adapters tell nothing
newer than what they are told, and the one that keeps methods back gates them again.  So it is enough that
whoever tells the class leaves out what is newer.

A wrapper that passes everything on is a limit at the version of what it wraps.
-/

namespace ClassFile

open Item

variable {σ : Type} {api : Api}

/-! ### Adapters -/

/-- What is told of a method for a version is known to the version. -/
theorem Consumer.Keeps.tell_method {consumer : Consumer σ} {holds : σ → Prop}
    (keeps : consumer.Keeps (·.IsKnownTo api) holds) (tree : MethodTree) :
    Step.Keeps holds (consumer.tell (tree.script api)) := by
  rw [tree.gates_script.alike consumer]
  exact keeps.tell _ fun event member => ReadOptions.upTo_tells.mp (ReadOptions.tells_pruneAll _ _ event member)

namespace MethodBuffer

variable {next : Consumer σ} {holds : σ → Prop}

theorem keeps_release (keeps : next.Keeps (·.IsKnownTo api) holds) (buffer : MethodBuffer) :
    Step.Keeps holds (release api next buffer) := by
  refine (Step.keeps_lift _).bind fun tree => (keeps.tell_method tree).bind fun _ => ?_
  exact keeps .finish (Event.isKnownTo_first rfl)

/-- A method that was kept back is gated once more when it is told. -/
theorem keeps_connect (keeps : next.Keeps (·.IsKnownTo api) holds) :
    (connect api next).Keeps (·.IsKnownTo api) fun memory => holds memory.2 := by
  intro event isKnown
  unfold connect
  refine Step.keeps_get_bind fun memory => ?_
  split
  · refine (keeps event isKnown).behind.bind fun reply => ?_
    split
    · split
      · exact (Step.keeps_remember (fun _ => by rfl)).bind fun _ => Step.keeps_pure reply
      · exact Step.keeps_pure reply
    · exact Step.keeps_pure reply
  · split
    · refine (Step.keeps_remember fun _ => by rfl).bind fun _ => ?_
      exact (keeps_release keeps _).behind
    · refine (Step.keeps_remember fun _ => by rfl).bind fun _ => ?_
      exact (keeps .leave (Event.isKnownTo_first rfl)).behind
    · exact (Step.keeps_remember fun _ => by rfl).bind fun _ => Step.keeps_pure _

end MethodBuffer

namespace EntryHook

variable {next : Consumer σ} {holds : σ → Prop}

/-- The instructions of a call came with the first version. -/
theorem keeps_tellCall (keeps : next.Keeps (·.IsKnownTo api) holds) (hook : EntryHook) (method : Text) :
    Step.Keeps holds (tellCall next (hook.call method)) := by
  have each (instruction : Instruction) (noConstant : instruction.usesDynamicConstant = false) :
      Step.Keeps holds (discard (next.step (.methodItem (.instruction instruction)))) := by
    refine (keeps _ (Event.isKnownTo_instruction fun uses => ?_)).discard
    rw [noConstant] at uses
    cases uses
  exact (each _ rfl).bind fun _ => (each _ rfl).bind fun _ => Step.keeps_pure ()

theorem keeps_connect (keeps : next.Keeps (·.IsKnownTo api) holds) (hook : EntryHook) :
    (hook.connect next).Keeps (·.IsKnownTo api) fun memory => holds memory.2 := by
  intro event isKnown
  unfold connect
  dsimp only
  split
  · refine (Step.keeps_remember fun _ => by rfl).bind fun _ => ?_
    exact (keeps _ isKnown).behind
  · refine (keeps _ isKnown).behind.bind fun reply => ?_
    split
    · exact (Step.keeps_remember fun _ => by rfl).bind fun _ => Step.keeps_pure reply
    · exact Step.keeps_pure reply
  · refine (keeps _ isKnown).behind.bind fun reply => Step.keeps_get_bind fun memory => ?_
    exact (keeps_tellCall keeps hook _).behind.bind fun _ => Step.keeps_pure reply
  · exact (keeps _ (Event.isKnownTo_first rfl)).behind
  · exact (keeps _ isKnown).behind

end EntryHook

/-! ### Chains -/

namespace Adapter

/-- Behind an adapter that is told nothing but what is known, nothing else is told. -/
theorem keeps_connect {next : Consumer σ} {holds : σ → Prop}
    (keeps : next.Keeps (·.IsKnownTo api) holds) (adapter : Adapter) :
    (adapter.connect api next).Keeps (·.IsKnownTo api) fun state => holds (adapter.inner state) := by
  cases adapter with
  | rename names => exact fun event isKnown => keeps _ (Event.isKnownTo_renamed isKnown)
  | entryHook hook => exact EntryHook.keeps_connect keeps hook
  | limit limit => exact keeps
  | computeMaxs => exact MethodBuffer.keeps_connect keeps

end Adapter

namespace Chain

/-- Behind a chain that is told nothing but what is known, nothing else is told. -/
theorem keeps_connect {consumer : Consumer σ} {holds : σ → Prop}
    (keeps : consumer.Keeps (·.IsKnownTo api) holds) (chain : Chain) :
    (chain.connect api consumer).Keeps (·.IsKnownTo api) fun state => holds (chain.inner state) := by
  induction chain with
  | nil => exact keeps
  | cons adapter rest ih => exact Adapter.keeps_connect ih adapter

theorem inner_start (chain : Chain) (state : σ) : chain.inner (chain.start state) = state := by
  induction chain with
  | nil => rfl
  | cons adapter rest ih => cases adapter <;> exact ih

/-- Where each wrapper reports what is behind it, so does the chain. -/
theorem api_eq_of_wraps {chain : Chain} (wraps : ∀ limit, .limit limit ∈ chain → limit = api) :
    chain.api api = api := by
  induction chain with
  | nil => rfl
  | cons adapter rest ih =>
      have behind := ih fun limit member => wraps limit (List.mem_cons_of_mem _ member)
      cases adapter with
      | limit limit => exact wraps limit List.mem_cons_self
      | rename _ | entryHook _ | computeMaxs => exact behind

end Chain

/-! ### Producers -/

theorem Api.number_le_latest (api : Api) : api.number ≤ Api.latest.number := by
  cases api <;> decide

/-- What tells a class: a reader of the class file, asked to leave something out or not, or a tree. -/
inductive Producer where
  | ofImage (image : ClassImage) (options : ReadOptions)
  | ofTree (tree : ClassTree)

namespace Producer

/-- What is told to a listener of the given version. -/
def script (api : Api) : Producer → Script
  | .ofImage image options => image.script { options with api }
  | .ofTree tree => tree.script api api

/-- Whether a class can be told to its end: every tree can, and a class file in which nothing is wrong. -/
def IsSound : Producer → Prop
  | .ofImage image options => AreWhole (image.script { options with api := .latest })
  | .ofTree _ => True

/-- Whether a method with the given head needs a dynamic constant. -/
def NeedsDynamicConstant (producer : Producer) (header : MethodHeader) : Prop :=
  ∃ body instruction, .scope (.method header) body ∈ producer.script .latest ∧
    .event (.methodItem (.instruction instruction)) ∈ body ∧ instruction.usesDynamicConstant = true

/-- Whether what a listener of a version is told is, but for visits of labels that nothing refers to, the
whole story up to dynamic constants that are not known and without what else is newer. -/
def DropsNewer (producer : Producer) (api : Api) : Prop :=
  ∃ told, Alike (producer.script api) told ∧
    told.map settled = ((ReadOptions.upTo api).pruneAll (producer.script .latest)).map settled

/-- A class told to a consumer behind a chain of adapters, with everything taken down that the chain and
the consumer are told. -/
def tellThrough {σ : Type} (producer : Producer) (chain : Chain) (api : Api) (consumer : Consumer σ) :
    Step (Log × chain.State (Log × σ)) Unit :=
  (chain.connect api consumer.logged).logged.tell (producer.script (chain.api api))

variable {producer : Producer}

theorem IsSound.areWhole (sound : producer.IsSound) : AreWhole (producer.script .latest) := by
  cases producer with
  | ofImage image options => exact sound
  | ofTree tree => exact (@ClassTree.gates_script .latest tree).isWhole

/-- No event is told that the listener does not know. -/
theorem keeps_tell {σ : Type} {consumer : Consumer σ} {holds : σ → Prop}
    (keeps : consumer.Keeps (·.IsKnownTo api) holds) (producer : Producer) :
    Step.Keeps holds (consumer.tell (producer.script api)) := by
  cases producer with
  | ofImage image options =>
      exact keeps.tell _ fun event member =>
        ReadOptions.isKnownTo_of_tells (image.tells_script { options with api } event member)
  | ofTree tree =>
      rw [script, tree.gates_script.alike consumer]
      exact keeps.tell _ fun event member =>
        ReadOptions.upTo_tells.mp (ReadOptions.tells_pruneAll _ _ event member)

theorem IsSound.dropsNewer (sound : producer.IsSound) (api : Api) : producer.DropsNewer api := by
  cases producer with
  | ofTree tree => exact ⟨_, tree.gates_script.alike, rfl⟩
  | ofImage image options =>
      have within : ({ options with api } : ReadOptions).Within { options with api := .latest } :=
        ⟨api.number_le_latest, id, id, id, rfl⟩
      have asked (event : Event) (member : event ∈ allEvents (image.script { options with api := .latest })) :
          ({ options with api } : ReadOptions).skips event = false := by
        have told := image.tells_script _ event member
        rw [ReadOptions.tells, Bool.and_eq_true, Bool.not_eq_true'] at told
        exact told.2
      refine ⟨_, Alike.refl _, ?_⟩
      rw [script, image.settled_script within sound, ReadOptions.pruneAll_eq_upTo asked]
      rfl

end Producer

/-- Where a method needs a dynamic constant that is not known, the telling fails for that reason, unless the
consumer failed before or declined the method. -/
theorem Consumer.fails_of_dynamic {σ : Type} {consumer : Consumer σ} {whole told : Script}
    (isWhole : AreWhole whole)
    (same : told.map settled = ((ReadOptions.upTo api).pruneAll whole).map settled)
    {header : MethodHeader} {body : List Item} (member : .scope (.method header) body ∈ whole)
    {instruction : Instruction} (inside : .event (.methodItem (.instruction instruction)) ∈ body)
    (dynamic : instruction.usesDynamicConstant = true) (unknown : api.supports .v7 = false)
    {memory : Log × σ}
    (entered : (.enter (.method header), .ok .declined) ∉
      ((consumer.logged.tell told).run.run memory).2.1) :
    ∃ fault, ((consumer.logged.tell told).run.run memory).1 = .error fault ∧
      (fault = .error api.refusal ∨
        ∃ event, (event, .error fault) ∈ ((consumer.logged.tell told).run.run memory).2.1) := by
  have reports := (consumer.reports_tell told).blames memory
  rcases ran : (consumer.logged.tell told).run.run memory with ⟨fault | value, next⟩
  · rw [ran] at reports
    refine ⟨fault, rfl, ?_⟩
    rcases reports fault rfl with ⟨event, logged⟩ | ⟨cause, isCause, rfl⟩
    · exact .inr ⟨event, logged⟩
    · rw [← allFaults_map_settled, same, allFaults_map_settled] at isCause
      exact .inl (congrArg Fault.error (ReadOptions.eq_refusal_of_mem_faults isWhole cause isCause))
  · rw [ran] at entered
    rcases ReadOptions.refusal_mem_of_dynamic same member inside dynamic unknown with
      stops | ⟨toldBody, isTold, stopsInside⟩
    · exact absurd stops (fault_not_mem_of_tell ran _)
    · exact absurd (declined_of_tell ran isTold stopsInside) entered

/-- Whatever chain of adapters a class is told through, and whoever tells it, no event reaches the consumer
that it does not know, what is newer is left out, and where a method needs a dynamic constant that is not
known the telling fails for that reason, unless somebody failed before or declined the method. -/
theorem Producer.tellThrough_gated {σ : Type} (producer : Producer) (chain : Chain) {api : Api}
    (wraps : ∀ limit, .limit limit ∈ chain → limit = api) (consumer : Consumer σ) (state : σ) :
    let ran := (producer.tellThrough chain api consumer).run.run ([], chain.start ([], state))
    (∀ entry ∈ (chain.inner ran.2.2).1, entry.1.IsKnownTo api) ∧
      (producer.IsSound → producer.DropsNewer (chain.api api) ∧
        ∀ header, producer.NeedsDynamicConstant header → api.supports .v7 = false →
          (.enter (.method header), .ok .declined) ∉ ran.2.1 →
          ∃ fault, ran.1 = .error fault ∧
            (fault = .error api.refusal ∨ ∃ event, (event, .error fault) ∈ ran.2.1)) := by
  intro ran
  have sameApi := Chain.api_eq_of_wraps wraps
  have told : ran = ((chain.connect api consumer.logged).logged.tell (producer.script api)).run.run
      ([], chain.start ([], state)) := by
    simp only [ran, tellThrough, sameApi]
  rw [sameApi, told]
  refine ⟨?_, fun sound => ⟨sound.dropsNewer api, ?_⟩⟩
  · have keeps := (chain.keeps_connect (consumer.keeps_logged (·.IsKnownTo api))).logged
    refine producer.keeps_tell keeps _ ?_
    rw [Chain.inner_start]
    exact List.forall_mem_nil _
  · rintro header ⟨body, instruction, member, inside, dynamic⟩ unknown
    rcases sound.dropsNewer api with ⟨items, alike, same⟩
    rw [alike]
    exact Consumer.fails_of_dynamic sound.areWhole same member inside dynamic unknown

namespace Producer

/-- A class with one method, which loads a dynamic constant. -/
def loader : Producer :=
  .ofTree
    { methods := [
        { header := ⟨0, .empty, .empty, none, []⟩
          instructions := [⟨.loadConstant (.dynamic .empty .empty default []), []⟩] }] }

theorem script_loader (api : Api) : loader.script api =
    [.event (.classItem (.header .untold)),
      .scope (.method ⟨0, .empty, .empty, none, []⟩)
        [.event (.methodItem .code),
          if api.supports .v7 then
            .event (.methodItem (.instruction (.loadConstant (.dynamic .empty .empty default []))))
          else .fault api.refusal,
          .event (.methodItem (.maxs 0 0))],
      .event .finish] := by
  cases supports : api.supports .v7 with
  | _ =>
      simp [script, loader, ClassTree.script, ClassTree.tellAll, ClassTree.sourceEvents, Script.since,
        Attachments.annotationScript, Attachments.typeAnnotationScript, Attachments.attributeScript,
        visibleFirst, TypeAnnotationTree.script, Attribute.script, MethodTree.item, MethodTree.script,
        MethodTree.codeScript, MethodTree.hasCode, HandlerTree.script, ParameterAnnotationTree.script,
        InstructionTree.script_eq, Instruction.usesDynamicConstant, Constant.isDynamic, supports]

theorem tellThrough_gated_loader :
    let chain : Chain := [.computeMaxs, .limit .v6]
    let ran := (loader.tellThrough chain .v6 Consumer.silent).run.run ([], chain.start ([], ()))
    (∀ entry ∈ (chain.inner ran.2.2).1, entry.1.IsKnownTo .v6) ∧
      ∃ fault, ran.1 = .error fault ∧
        (fault = .error (Api.refusal .v6) ∨ ∃ event, (event, .error fault) ∈ ran.2.1) := by
  intro chain ran
  have wraps : ∀ limit, .limit limit ∈ chain → limit = .v6 := by simp [chain]
  have needs : loader.NeedsDynamicConstant ⟨0, .empty, .empty, none, []⟩ := by
    rw [NeedsDynamicConstant, script_loader]
    exact ⟨_, _, List.mem_cons_of_mem _ List.mem_cons_self, List.mem_cons_of_mem _ List.mem_cons_self,
      by rfl⟩
  have log : ran.2.1 = [(.methodItem .code, .ok .entered),
      (.enter (.method ⟨0, .empty, .empty, none, []⟩), .ok .entered),
      (.classItem (.header .untold), .ok .entered)] := by
    simp only [ran, chain, tellThrough, script_loader]
    rfl
  have entered : (Event.enter (.method ⟨0, .empty, .empty, none, []⟩), .ok .declined) ∉ ran.2.1 := by
    rw [log]
    simp
  have gated := @tellThrough_gated Unit loader chain .v6 wraps Consumer.silent ()
  have same : (loader.tellThrough chain .v6 Consumer.silent).run.run ([], chain.start ([], ())) = ran := rfl
  clear_value ran
  simp only [same] at gated
  exact ⟨gated.1, (gated.2 trivial).2 _ needs (by rfl) entered⟩

end Producer

end ClassFile
