import ClassFile.Proofs.Gating.Bodies

/-!
# The story of a class for less

A reader that is asked for less tells the story of a class without what it is not asked for
(`ClassImage.settled_script`).
-/

namespace ClassFile

open Item

namespace ReadOptions

variable {options : ReadOptions} {labels : LabelSet} {items kept : List Item}

/-- What corresponds to what in the story of a class, as far as that is told whole. -/
def inClass (options : ReadOptions) : Correspondence where
  keeps items kept := AreWhole items → (∀ item ∈ items, options.passes item = true) ∧
    kept.map Item.settled = (items.flatMap options.prune).map Item.settled
  stops _ _ := False
  keeps_nil := fun _ => ⟨by simp, rfl⟩
  keeps_append := by
    intro items kept others more keeps keepsMore whole
    rw [areWhole_iff, List.forall_mem_append, ← areWhole_iff, ← areWhole_iff] at whole
    rcases keeps whole.1 with ⟨passed, same⟩
    rcases keepsMore whole.2 with ⟨passedMore, sameMore⟩
    exact ⟨List.forall_mem_append.mpr ⟨passed, passedMore⟩, by simp [same, sameMore]⟩
  stops_append := fun _ => id
  append_stops := fun _ => id

theorem admits_inClass (options : ReadOptions) : options.inClass.Admits options ∅ where
  kept := fun item kept _ => ⟨by simpa using kept.passes, by simp [kept.same]⟩
  dropped := fun item dropped _ => ⟨by simpa using dropped.passes, by simp [dropped.nothing]⟩

theorem keeps_scope {opening : Opening} {less more : List Item}
    (asked : options.tells (.enter opening) = true)
    (same : AreWhole more → Script.settled less = Script.settled (options.pruneAll more)) :
    options.inClass.keeps [.scope opening more] [.scope opening less] := by
  intro whole
  have inside : AreWhole more := whole.1
  refine ⟨fun item member => ?_, ?_⟩
  · rw [List.mem_singleton] at member
    subst member
    rfl
  · simp [prune, asked, Item.settled, same inside]

end ReadOptions

namespace ClassImage

open Emit ReadOptions

variable {image : ClassImage} {weak strong : ReadOptions} {cause : ClassError}

theorem follows_of_admitted {α : Type} {emit : Emit α} (only : Only (weak.IsKept ∅) emit) :
    Follows weak.inClass cause emit emit :=
  (only.weaken weak.admits_inClass.kept).follows

theorem follows_of_unasked {emit : Emit Unit} (only : Only weak.IsDropped emit) :
    Follows weak.inClass cause (pure ()) emit :=
  (only.weaken weak.admits_inClass.dropped).dropped

/-- An event of the class is left out where the version that it came with is not known. -/
theorem isDropped_of_classItem {item : ClassItem} {required : Api} (came : item.since = required)
    (unknown : weak.api.supports required = false) : weak.IsDropped (.event (.classItem item)) := by
  refine isDropped_event rfl ?_
  rw [tells, Event.since, came, unknown, Bool.false_and]

theorem follows_member {opening : Opening} {less more : Emit Unit}
    (asked : weak.tells (.enter opening) = true)
    (follows : Follows (weak.inMethod ∅) weak.api.refusal less more) :
    Follows weak.inClass cause (member opening less) (member opening more) :=
  Follows.member (keeps_scope asked (settled_of_follows follows))

theorem follows_tellIfPresent {place? : Option Nat} {less more : Nat → Emit Unit}
    (each : ∀ offset, Follows weak.inClass cause (less offset) (more offset)) :
    Follows weak.inClass cause (tellIfPresent place? less) (tellIfPresent place? more) := by
  cases place? with
  | none => exact Follows.pure ()
  | some offset => exact each offset

section Members

variable (within : weak.Within strong)
include within

theorem follows_tellFields (offset count : Nat) :
    Follows weak.inClass cause
      (image.tellFields weak offset count) (image.tellFields strong offset count) := by
  induction count generalizing offset with
  | zero => exact Follows.pure _
  | succ count ih =>
      refine Follows.bind_lift fun access _ => Follows.bind_lift fun name _ => ?_
      refine Follows.bind_lift fun descriptor _ => Follows.bind_lift fun found _ => ?_
      refine Follows.bind_lift fun attributes _ => Follows.bind_lift fun signature? _ => ?_
      have rest (value? : Option FieldValue) : Follows weak.inClass cause
          (do
            let access := access.toUInt32 ||| attributes.common.accessFlags
            Emit.member (.field ⟨access, name, descriptor, signature?, value?⟩)
              (image.tellMemberBody weak attributes.common)
            image.tellFields weak found.2 count)
          (do
            let access := access.toUInt32 ||| attributes.common.accessFlags
            Emit.member (.field ⟨access, name, descriptor, signature?, value?⟩)
              (image.tellMemberBody strong attributes.common)
            image.tellFields strong found.2 count) :=
        (follows_member (tells_first rfl rfl) (follows_tellMemberBody within _)).bind fun _ => ih _
      cases attributes.value? with
      | none => exact rest none
      | some index => exact Follows.bind_lift fun value _ => rest (some value)

theorem follows_tellComponents (known : weak.api.supports .v8 = true) (offset count : Nat) :
    Follows weak.inClass cause
      (image.tellComponents weak offset count) (image.tellComponents strong offset count) := by
  induction count generalizing offset with
  | zero => exact Follows.pure _
  | succ count ih =>
      refine Follows.bind_lift fun name _ => Follows.bind_lift fun descriptor _ => ?_
      refine Follows.bind_lift fun found _ => Follows.bind_lift fun signature? _ => ?_
      exact (follows_member (tells_of_supports known rfl rfl) (follows_tellMemberBody within _)).bind
        fun _ => ih _

theorem follows_tellMethods (offset count : Nat) :
    Follows weak.inClass cause
      (image.tellMethods weak offset count) (image.tellMethods strong offset count) := by
  induction count generalizing offset with
  | zero => exact Follows.pure _
  | succ count ih =>
      refine Follows.bind_lift fun access _ => Follows.bind_lift fun name _ => ?_
      refine Follows.bind_lift fun descriptor _ => Follows.bind_lift fun found _ => ?_
      refine Follows.bind_lift fun signature? _ => ?_
      have rest (exceptions : List Text) : Follows weak.inClass cause
          (do
            let attributes := found.1.foldl MethodAttributes.add {}
            let access := access.toUInt32 ||| attributes.common.accessFlags
            Emit.member (.method ⟨access, name, descriptor, signature?, exceptions⟩)
              (image.tellMethodBody weak attributes)
            image.tellMethods weak found.2 count)
          (do
            let attributes := found.1.foldl MethodAttributes.add {}
            let access := access.toUInt32 ||| attributes.common.accessFlags
            Emit.member (.method ⟨access, name, descriptor, signature?, exceptions⟩)
              (image.tellMethodBody strong attributes)
            image.tellMethods strong found.2 count) :=
        (Follows.member (keeps_scope (tells_first rfl rfl)
          (settled_tellMethodBody within _))).bind fun _ => ih _
      dsimp only
      split
      · exact Follows.bind_lift fun exceptions _ => rest exceptions
      · exact rest []

theorem follows_tellMembers :
    Follows weak.inClass cause (image.tellMembers weak) (image.tellMembers strong) := by
  refine Follows.bind_lift fun interfaces _ => Follows.bind_lift fun fields _ => ?_
  refine (follows_tellFields within _ _).bind fun offset => Follows.bind_lift fun count _ => ?_
  exact follows_tellMethods within _ _

theorem follows_tell : Follows weak.inClass cause (image.tell weak) (image.tell strong) := by
  have kept := allows_isKept weak ∅
  have event {item : ClassItem} (told : weak.tells (.classItem item) = true) :
      Follows weak.inClass cause (tellClassItem item) (tellClassItem item) :=
    follows_of_admitted (Only.tell (kept.plain rfl told))
  refine Follows.bind_lift fun access _ => Follows.bind_lift fun name _ => ?_
  refine Follows.bind_lift fun super? _ => Follows.bind_lift fun found _ => ?_
  refine Follows.bind_lift fun interfaces _ => Follows.bind_lift fun entries _ => ?_
  refine Follows.bind_lift fun signature? _ => (event (tells_first rfl rfl)).bind fun _ => ?_
  have named {item : Text → ClassItem} {required : Api} (known : weak.api.supports required = true)
      (came : ∀ name, (item name).since = required)
      (asked : ∀ name, weak.skips (.classItem (item name)) = false) (name : Text) :
      weak.IsKept ∅ (.event (.classItem (item name))) :=
    kept.plain rfl (tells_of_supports known (came name) (asked name))
  have host {P : Item → Prop} (each : ∀ name, P (.event (.classItem (.nestHost name)))) (offset : Nat) :
      Only P (do tellClassItem (.nestHost (← image.classAt offset))) :=
    (Only.lift _).bind fun _ => Only.tell (each _)
  refine Follows.guarded (fun asked => ?_) (fun asked => ?_) (fun unasked => ?_) ?_
  · rw [Bool.not_eq_true'] at asked ⊢
    exact Bool.eq_false_iff.mpr (mt within.skipDebug (by simp [asked]))
  · rw [Bool.not_eq_true'] at asked
    exact follows_of_admitted (only_tellSource (allows_source kept asked) _)
  · rw [Bool.not_eq_true, Bool.not_eq_false'] at unasked
    refine follows_of_unasked (only_tellSource (fun _ _ => isDropped_event rfl ?_) _)
    rw [tells, skips, unasked, Bool.not_true, Bool.and_false]
  refine Follows.guarded within.supports (fun known => ?_) (fun unknown => ?_) ?_
  · exact follows_of_admitted (only_tellIfPresent (only_tellModule (allows_module kept known) _))
  · rw [Bool.not_eq_true] at unknown
    exact follows_of_unasked (only_tellIfPresent (only_tellModule (fun _ _ _ =>
      isDropped_of_opening rfl unknown _) _))
  refine Follows.guarded within.supports (fun known => ?_) (fun unknown => ?_) ?_
  · exact follows_of_admitted (only_tellIfPresent
      (host (named known (fun _ => by rfl) fun _ => by rfl)))
  · rw [Bool.not_eq_true] at unknown
    exact follows_of_unasked (only_tellIfPresent (host fun _ => isDropped_of_classItem rfl unknown))
  refine (follows_of_admitted (only_tellIfPresent (only_tellOuterClass kept))).bind fun _ => ?_
  refine (follows_tellAnnotations within weak.admits_inClass _).bind fun _ => ?_
  rw [← tellOthers_of_within within]
  refine (follows_of_admitted (only_tellOthers kept false _)).bind fun _ => ?_
  refine Follows.guarded within.supports (fun known => ?_) (fun unknown => ?_) ?_
  · exact follows_of_admitted (only_tellIfPresent
      (only_tellNames (named known (fun _ => by rfl) fun _ => by rfl)))
  · rw [Bool.not_eq_true] at unknown
    exact follows_of_unasked (only_tellIfPresent
      (only_tellNames fun _ => isDropped_of_classItem rfl unknown))
  refine Follows.guarded within.supports (fun known => ?_) (fun unknown => ?_) ?_
  · exact follows_of_admitted (only_tellIfPresent
      (only_tellNames (named known (fun _ => by rfl) fun _ => by rfl)))
  · rw [Bool.not_eq_true] at unknown
    exact follows_of_unasked (only_tellIfPresent
      (only_tellNames fun _ => isDropped_of_classItem rfl unknown))
  refine (follows_of_admitted (only_tellIfPresent fun _ => (Only.lift _).bind fun _ =>
    only_tellInnerClasses kept _ _)).bind fun _ => ?_
  refine Follows.guarded within.supports (fun known => ?_) (fun unknown => ?_) ?_
  · exact follows_tellIfPresent fun _ => Follows.bind_lift fun count _ =>
      follows_tellComponents within known _ _
  · rw [Bool.not_eq_true] at unknown
    exact follows_of_unasked (only_tellIfPresent fun _ => (Only.lift _).bind fun _ =>
      only_tellComponents (fun _ _ => isDropped_of_opening rfl unknown _) _ _)
  refine (follows_tellMembers within).bind fun _ => ?_
  exact follows_of_admitted (Only.tell (kept.plain rfl (tells_first rfl rfl)))

/-- A reader that is asked for less tells the story without what it is not asked for, up to the visits of
labels that nothing refers to. -/
theorem settled_script (whole : AreWhole (image.script strong)) :
    (image.script weak).map Item.settled =
      (weak.pruneAll (image.script strong)).map Item.settled := by
  have told := collect_eq_ok.mp whole.collect
  rcases @follows_tell image weak strong weak.api.refusal within _ _ _ told
    with ⟨items, same, ⟨kept, emits, keeps⟩ | ⟨_, _, ⟨⟩⟩⟩
  obtain rfl : (image.tell strong).script = items := by simpa using same
  rcases keeps whole with ⟨passed, settled⟩
  rw [script, script, pruneAll_eq_flatMap passed, ← settled, Emit.script, emits.collect]

end Members

end ClassImage

end ClassFile
