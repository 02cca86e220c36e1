import ClassFile.Proofs.Image.Methods
import ClassFile.Proofs.Story.Listening
import ClassFile.Proofs.Tree.Classes

/-!
# Classes that are recorded

A class that is told by its tree is recorded as it is when a reader tells it, but for the order of the
annotations in the groups of its bodies (`ClassTree.recorded_as_decoded`).
-/

namespace ClassFile

open Item

/-! ### The scopes of a class -/

mutual

theorem Element.isClosed_item (element : Element) : element.item.IsClosed := by
  match element with
  | .constant .. | .enumeration .. => trivial
  | .nested name? descriptor elements | .array name? elements =>
      rw [Element.item, Item.IsClosed, areClosed_iff]
      simpa using Element.isClosed_items elements

theorem Element.isClosed_items (elements : List Element) : ∀ element ∈ elements, element.item.IsClosed := by
  match elements with
  | [] => simp
  | element :: rest =>
      rw [List.forall_mem_cons]
      exact ⟨element.isClosed_item, Element.isClosed_items rest⟩

end

theorem Item.IsElement.isClosed {named : Bool} {item : Item} (isElement : item.IsElement named) :
    item.IsClosed := by
  rcases isElement with ⟨element, -, rfl⟩
  exact element.isClosed_item

namespace Item

variable {turns : List Turn} {items : List Item} {item : Item}

theorem Keeps.isClosed (keeps : item.Keeps) (inside : item.turn ∉ [.finish, .other]) : item.IsClosed := by
  have closed {named : Bool} {body : List Item} (elements : ∀ item ∈ body, item.IsElement named) :
      AreClosed body :=
    areClosed_iff.mpr fun item member => (elements item member).isClosed
  rcases item with event | ⟨opening, body⟩ | cause
  · cases event
    case enter | finish | leave => exact absurd (by simp [turn]) inside
    all_goals trivial
  · cases opening
    case annotationDefault =>
      rcases keeps with ⟨element, rfl, isElement⟩
      exact ⟨isElement.isClosed, trivial⟩
    case annotateTryCatch => exact closed keeps.2
    all_goals exact closed keeps
  · trivial

theorem areClosed_of_inTurn (inTurn : InTurn Keeps turns items) (inside : ∀ turn ∈ turns, turn ∉ [.finish, .other]) :
    AreClosed items :=
  areClosed_iff.mpr fun item member =>
    (inTurn.all_good item member).isClosed (inside _ (inTurn.turn_mem item member))

theorem IsTold.isClosed (told : item.IsTold) (whole : item.IsWhole) (inside : item.turn ∉ [.finish, .other]) :
    item.IsClosed := by
  unfold IsTold at told
  split at told
  · exact areClosed_of_inTurn (told.2 whole).keeps (by decide)
  · exact areClosed_of_inTurn (told.2 whole).keeps (by decide)
  · exact areClosed_of_inTurn (told.2 whole).keeps (by decide)
  · exact areClosed_of_inTurn (told.2 whole).wholeInTurn (by decide)
  · exact Keeps.isClosed told.keeps inside

end Item

/-- A class is its head, what comes in its turns, and its end. -/
theorem IsClassStory.exists_eq {items : List Item} (story : IsClassStory items) :
    ∃ header inside, items = .event (.classItem (.header header)) :: (inside ++ [.event .finish]) ∧
      header.Fits ∧ InTurn IsTold Turn.ofClass inside := by
  rcases story with ⟨header, _, rfl, fits, inside, _, rfl, inTurn, rfl⟩
  exact ⟨header, inside, rfl, fits, inTurn.weaken fun _ _ => And.left⟩

theorem Regrouped.areWhole {items others : List Item} (same : Regrouped items others)
    (whole : AreWhole items) : AreWhole others := by
  induction same with
  | nil => trivial
  | cons item _ ih => exact ⟨whole.1, ih whole.2⟩
  | method header _ _ ihInside ih => exact ⟨ihInside whole.1, ih whole.2⟩
  | swap group rest => exact ⟨whole.2.1, whole.1, whole.2.2⟩
  | trans _ _ here behind => exact behind (here whole)

/-- A class that is read into a tree is recorded from there as it is recorded from the reader, but for the
order of the annotations in the groups of its bodies. -/
theorem ClassTree.recorded_as_decoded {input : Input} {image : ClassImage}
    (read : ClassImage.ofInput? input = .ok image) {recording : Recording}
    (decoded : ((Consumer.recorder fun _ => false).decode input {}).run.run {} = (.ok (), recording))
    (named : ∀ header body, .scope (.method header) body ∈ image.script {} → NamesHandlers body) :
    recording = .ofScript (image.script {}) ∧
      ∃ transcript, (Consumer.transcriber.decode input {}).run.run .empty = (.ok (), transcript) ∧
        ((Consumer.recorder fun _ => false).tell
            ((ofScript transcript.script).script .latest .latest)).run.run {} =
          (.ok (), .ofScript ((ofScript transcript.script).script .latest .latest)) ∧
        Regrouped (image.script {}) ((ofScript transcript.script).script .latest .latest) := by
  unfold Consumer.decode at decoded ⊢
  rw [read] at decoded ⊢
  rcases (Consumer.enters_recorder.tell_eq_ok _ _).mp decoded with ⟨whole, recorded⟩
  rcases (ClassImage.isClassStory_script (fun _ _ _ => rfl) whole).exists_eq with
    ⟨header, inside, same, fits, inTurn⟩
  rw [← List.cons_append] at same
  have wholeFront : AreWhole (.event (.classItem (.header header)) :: inside) := by
    rw [areWhole_iff] at whole ⊢
    intro item member
    apply whole item
    rw [same]
    exact List.mem_append_left _ member
  have closed : AreClosed (.event (.classItem (.header header)) :: inside) := by
    refine ⟨trivial, areClosed_iff.mpr fun item member => ?_⟩
    have isTurn := inTurn.turn_mem item member
    apply (inTurn.all_good item member).isClosed (areWhole_iff.mp wholeFront.2 item member)
    intro isEnd
    have apart : ∀ turn ∈ Turn.ofClass, turn ∉ [.finish, .other] := by decide
    exact apart _ isTurn isEnd
  have transcribed := Transcript.script_foldl_note wholeFront closed
  rw [← same] at transcribed
  have regrouped := @ClassTree.regrouped_script header inside fits inTurn wholeFront.2 fun header body member => by
    apply named header body
    rw [same]
    simp [member]
  rw [← List.cons_append, ← same] at regrouped
  refine ⟨recorded.symm, _, (Consumer.enters_transcriber.tell_eq_ok _ _).mpr ⟨whole, rfl⟩, ?_⟩
  rw [transcribed]
  exact ⟨(Consumer.enters_recorder.tell_eq_ok _ _).mpr ⟨regrouped.areWhole whole, rfl⟩, regrouped⟩

theorem ClassImage.areWhole_twoJumps :
    AreWhole [.event (.classItem (.header ⟨.standard, 33, .ofString "A", none, none, []⟩)),
      .scope (.method twoJumpsHeader) twoJumpsBody, .event .finish] := by
  simp [twoJumpsBody, plainScript, instructionItem, AreWhole, IsWhole]

open ClassImage in
theorem ClassTree.recorded_as_decoded_twoJumps :
    ∃ transcript, (Consumer.transcriber.decode twoJumps {}).run.run .empty = (.ok (), transcript) ∧
      Regrouped (twoJumpsImage.script {}) ((ofScript transcript.script).script .latest .latest) := by
  have decoded : ((Consumer.recorder fun _ => false).decode twoJumps {}).run.run {} =
      (.ok (), .ofScript (twoJumpsImage.script {})) := by
    rw [Consumer.decode, ofInput?_twoJumps]
    refine (Consumer.enters_recorder.tell_eq_ok _ _).mpr ⟨?_, rfl⟩
    rw [script_twoJumps]
    exact areWhole_twoJumps
  have named : ∀ header body, .scope (.method header) body ∈ twoJumpsImage.script {} → NamesHandlers body := by
    intro header body member use inside block isNote
    simp only [script_twoJumps, List.mem_cons, List.not_mem_nil, or_false] at member
    rcases member with ⟨⟨⟩⟩ | ⟨⟨⟩⟩ | ⟨⟨⟩⟩
    simp [twoJumpsBody, plainScript, instructionItem] at isNote
  rcases recorded_as_decoded ofInput?_twoJumps decoded named with ⟨-, transcript, read, -, regrouped⟩
  exact ⟨transcript, read, regrouped⟩

open ClassImage in
theorem Consumer.decode_listener_twoJumps :
    (listener.decode twoJumps {}).run.run [] = (.ok (), allEvents (twoJumpsImage.script {})) := by
  rw [Consumer.decode, ofInput?_twoJumps]
  refine tell_listener_eq_ok.mpr ⟨?_, rfl⟩
  rw [script_twoJumps]
  exact areWhole_twoJumps

end ClassFile
