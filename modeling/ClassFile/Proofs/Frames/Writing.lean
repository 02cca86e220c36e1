import ClassFile.Proofs.Draft.Running
import ClassFile.Proofs.Frames.Places

/-!
# Writing stack map frames

What is written for a frame spells it (`CodeContext.runs_frame`), and what is written for a list of frames
is a table of those that are kept, each with its distance from the one before
(`CodeContext.runs_writeFrames`).
-/

namespace ClassFile

/-- Whether the numbers of values fit the two bytes that they are written in. -/
def Frame.IsCounted : Frame → Prop
  | .full locals stack => locals.length ≤ 65535 ∧ stack.length ≤ 65535
  | _ => True

namespace CodeContext

open Draft

variable {σ : Type} {Before : σ → Pool → Prop} {context : CodeContext}

theorem runs_labelPlace (label : Label) :
    Runs Before (context.labelOffset label) fun offset part pool =>
      Before part pool ∧ ∃ place, context.layout.offsets.place? label = some place ∧
        offset = place.toUInt16 := by
  intro part builder content holds before value next last ran
  cases resolved : context.layout.labelOffset context.method label with
  | error cause =>
      simp only [Draft.on, labelOffset, resolved] at ran
      cases ran
  | ok offset =>
      simp only [Draft.on, labelOffset, resolved] at ran
      cases ran
      rcases map_eq_ok.mp resolved with ⟨place, known, rfl⟩
      exact ⟨content, .refl holds, fun pool has =>
        ⟨before pool has, place, CodeOffsets.resolve_eq_ok.mp known, rfl⟩⟩

theorem runs_writeValue {value : FrameValue} (survives : value.Survives) (output : Output) :
    Runs Before (context.writeValue output value) fun result part pool =>
      Before part pool ∧ ∃ bytes, value.Spells pool context.layout.offsets.place? bytes ∧
        result.toList = output.toList ++ bytes := by
  cases value with
  | object name =>
      refine (Runs.pooled (PoolBuilder.adds_classRef survives)).bind fun index => ?_
      refine (Runs.pure _).weaken (fun _ _ => id) ?_
      rintro _ part pool ⟨rfl, before, named⟩
      exact ⟨before, _, .object named, by simp [FrameValue.code]⟩
  | uninitialized label =>
      refine (runs_labelPlace label).bind fun offset => ?_
      refine (Runs.pure _).weaken (fun _ _ => id) ?_
      rintro _ part pool ⟨rfl, before, place, known, rfl⟩
      exact ⟨before, _, .uninitialized known, by simp [FrameValue.code]⟩
  | _ =>
      refine (Runs.pure _).weaken (fun _ _ => id) ?_
      rintro _ part pool ⟨rfl, before⟩
      exact ⟨before, _, .plain (by decide), by simp⟩

theorem runs_writeValues {values : List FrameValue} (survive : ∀ value ∈ values, value.Survives)
    (output : Output) :
    Runs Before (context.writeValues output values) fun result part pool =>
      Before part pool ∧ ∃ bytes,
        SpellsAll (FrameValue.Spells pool context.layout.offsets.place?) values bytes ∧
          result.toList = output.toList ++ bytes := by
  induction values generalizing output Before with
  | nil =>
      refine (Runs.pure _).weaken (fun _ _ => id) ?_
      rintro _ part pool ⟨rfl, before⟩
      exact ⟨before, [], spellsAll_nil, by simp⟩
  | cons value rest ih =>
      rw [List.forall_mem_cons] at survive
      refine (runs_writeValue survive.1 output).bind fun next => ?_
      refine (ih survive.2 next).weaken (fun _ _ => id) ?_
      rintro result part pool ⟨⟨before, first, spelled, firstBytes⟩, others, spelledRest, restBytes⟩
      refine ⟨before, first ++ others, spellsAll_cons.mpr ⟨_, _, spelled, spelledRest, rfl⟩, ?_⟩
      rw [restBytes, firstBytes, List.append_assoc]

/-- Frame values behind their number. -/
theorem runs_writeCounted {values : List FrameValue} (survive : ∀ value ∈ values, value.Survives)
    (output : Output) :
    Runs Before (context.writeCounted output values) fun result part pool =>
      Before part pool ∧ ∃ bytes,
        SpellsAll (FrameValue.Spells pool context.layout.offsets.place?) values bytes ∧
          result.toList = output.toList ++ (bigEndian16 values.length.toUInt16 ++ bytes) := by
  refine (runs_writeValues survive _).weaken (fun _ _ => id) ?_
  rintro result part pool ⟨before, bytes, spelled, same⟩
  exact ⟨before, bytes, spelled, by simp [same]⟩

/-- What is written for a frame spells it. -/
theorem runs_frame {told : Frame} (survives : told.Survives) (counted : told.IsCounted)
    (distance : UInt16) :
    Runs Before (context.frame distance told) fun output part pool =>
      Before part pool ∧ told.Spells pool context.layout.offsets.place? distance output.toList := by
  cases told with
  | same =>
      refine (Runs.pure _).weaken (fun _ _ => id) ?_
      rintro _ part pool ⟨rfl, before⟩
      refine ⟨before, ?_⟩
      split
      · rename_i near
        simpa using Frame.Spells.same near
      · simpa using Frame.Spells.sameFar
  | same1 value =>
      refine (runs_writeValue (survives value (by simp [Frame.values])) _).weaken (fun _ _ => id) ?_
      rintro output part pool ⟨before, bytes, spelled, same⟩
      refine ⟨before, ?_⟩
      rw [same]
      split
      · rename_i near
        simpa using Frame.Spells.same1 near spelled
      · simpa using Frame.Spells.same1Far spelled
  | chop count =>
      rw [CodeContext.frame]
      split
      · exact Runs.throw _
      · rename_i few
        rw [not_or, UInt8.not_lt, UInt8.not_lt] at few
        refine (Runs.pure _).weaken (fun _ _ => id) ?_
        rintro _ part pool ⟨rfl, before⟩
        exact ⟨before, by simpa using Frame.Spells.chop few.1 few.2⟩
  | append locals =>
      rw [CodeContext.frame]
      dsimp only
      split
      · exact Runs.throw _
      · rename_i few
        refine (runs_writeValues (fun value member =>
          survives value (by simpa [Frame.values] using member)) _).weaken (fun _ _ => id) ?_
        rintro output part pool ⟨before, bytes, spelled, same⟩
        refine ⟨before, ?_⟩
        rw [same]
        simpa using Frame.Spells.append (by omega) (by omega) spelled
  | full locals stack =>
      refine (runs_writeCounted (fun value member =>
        survives value (by simp [Frame.values, member])) _).bind fun output => ?_
      refine (runs_writeCounted (fun value member =>
        survives value (by simp [Frame.values, member])) output).weaken (fun _ _ => id) ?_
      rintro result part pool ⟨⟨before, localBytes, spelledLocals, first⟩, stackBytes, spelledStack,
        second⟩
      refine ⟨before, ?_⟩
      rw [second, first]
      simpa using Frame.Spells.full counted.1 counted.2 spelledLocals spelledStack

/-- The frames with the places that they stand in front of. -/
def placed (context : CodeContext) (frames : List (Nat × Frame)) : List (Nat × Frame) :=
  frames.map fun entry => (context.layout.position entry.1, entry.2)

theorem writeFrames_cons (previous? : Option Nat) (item : Nat) (told : Frame)
    (rest : List (Nat × Frame)) :
    context.writeFrames previous? ((item, told) :: rest) =
      if ∀ previous ∈ previous?, previous < context.layout.position item then do
        Draft.tryChange (Table.raise "stack map frames")
        let bytes ← context.frame (Frame.gap previous? (context.layout.position item)).toUInt16 told
        Draft.change (Table.put bytes)
        context.writeFrames (some (context.layout.position item)) rest
      else context.writeFrames previous? rest := by
  rw [writeFrames.eq_def]
  dsimp only
  cases previous? with
  | none =>
      rw [if_pos (by simp)]
      rfl
  | some previous =>
      by_cases behind : previous < context.layout.position item
      · simp only [behind, if_true]
        rw [if_pos (by simpa using behind)]
        rfl
      · simp only [behind, if_false]
        rw [if_neg (by simpa using behind)]

/-- What is written for frames is a table of those that are kept, with their distances. -/
theorem runs_writeFrames {frames : List (Nat × Frame)}
    (survive : ∀ entry ∈ frames, entry.2.Survives) (counted : ∀ entry ∈ frames, entry.2.IsCounted)
    (previous? : Option Nat) (front : List (Nat × Frame)) :
    Runs
      (fun table pool =>
        table.Spells (Frame.SpellsWithGap pool context.layout.offsets.place?) front)
      (context.writeFrames previous? frames)
      fun _ table pool => table.Spells (Frame.SpellsWithGap pool context.layout.offsets.place?)
        (front ++ Frame.withGaps previous? (Frame.keptBehind previous? (context.placed frames))) := by
  induction frames generalizing previous? front with
  | nil =>
      refine (Runs.pure _).weaken (fun _ _ => id) ?_
      rintro _ table pool ⟨-, spelled⟩
      simpa [placed, Frame.keptBehind, Frame.withGaps] using spelled
  | cons entry rest ih =>
      rcases entry with ⟨item, told⟩
      rw [List.forall_mem_cons] at survive counted
      rw [writeFrames_cons, placed, List.map_cons, Frame.keptBehind]
      split
      · refine (Runs.tryChange fun table next pool spelled raised => spelled.raise raised).bind
          fun _ => ?_
        refine (runs_frame survive.1 counted.1 _).bind fun bytes => ?_
        have put : Runs
            (fun table pool =>
              table.Starts (Frame.SpellsWithGap pool context.layout.offsets.place?) front [] ∧
                told.Spells pool context.layout.offsets.place?
                  (Frame.gap previous? (context.layout.position item)).toUInt16 bytes.toList)
            (Draft.change (Table.put bytes)) fun _ table pool =>
              table.Spells (Frame.SpellsWithGap pool context.layout.offsets.place?)
                (front ++ [(Frame.gap previous? (context.layout.position item), told)]) :=
          Runs.change fun table pool before => (before.1.put bytes).complete before.2
        refine put.bind fun _ => ?_
        refine (ih survive.2 counted.2 _ _).weaken (fun _ _ => id) ?_
        rintro _ table pool spelled
        simpa [Frame.withGaps, placed] using spelled
      · exact ih survive.2 counted.2 previous? front

end CodeContext

end ClassFile
