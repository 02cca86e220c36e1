import ClassFile.Proofs.Code.Widths
import Mathlib.Algebra.Ring.Nat

/-!
# Rounds of sizing

Offsets do not grow or shrink steadily from round to round: a jump that is narrowed can move the padding
of a switch and put another target out of reach.  The widths do: a round takes a jump one step along
wide, narrow, wide for good (`JumpWidth.Advances`), or leaves it alone.  So what counts is the number of
steps that all jumps have taken (`CodeLayout.steps`).  A round that changes anything adds to it, and no
jump takes more than two steps.
-/

namespace ClassFile

namespace JumpWidth

/-- A step of a jump: it is narrowed, or made wide for good. -/
inductive Advances : JumpWidth → JumpWidth → Prop where
  | narrowed : Advances .wide .narrow
  | pinned : Advances .narrow .pinned

/-- The number of steps that lead a jump to a width. -/
def steps : JumpWidth → Nat
  | .wide => 0
  | .narrow => 1
  | .pinned => 2

theorem steps_le_two (width : JumpWidth) : width.steps ≤ 2 := by
  cases width <;> decide

theorem Advances.steps_eq {width next : JumpWidth} (advances : width.Advances next) :
    next.steps = width.steps + 1 := by
  cases advances <;> rfl

theorem next_eq_or_advances (width : JumpWidth) (opcode : Opcode) (distance : Int) :
    width.next opcode distance = width ∨ width.Advances (width.next opcode distance) := by
  cases width with
  | narrow =>
      rw [next]
      split
      · exact .inl rfl
      · exact .inr .pinned
  | wide =>
      rw [next]
      split
      · exact .inr .narrowed
      · exact .inl rfl
  | pinned => exact .inl rfl

end JumpWidth

namespace SizedItem

/-- A jump that takes a step. -/
def Advances (part resized : SizedItem) : Prop :=
  part.1.isJump = true ∧ resized.1 = part.1 ∧ part.2.Advances resized.2

/-- What a round does with a part: it leaves it alone, or lets a jump take a step. -/
def Moves (part resized : SizedItem) : Prop :=
  resized = part ∨ Advances part resized

/-- The number of steps that a part has taken. -/
def steps (part : SizedItem) : Nat :=
  if part.1.isJump then part.2.steps else 0

theorem steps_le (part : SizedItem) : steps part ≤ 2 * if part.1.isJump then 1 else 0 := by
  unfold steps
  split
  · exact JumpWidth.steps_le_two part.2
  · exact Nat.le_refl 0

theorem Advances.steps_eq {part resized : SizedItem} (advances : Advances part resized) :
    steps resized = steps part + 1 := by
  rcases advances with ⟨isJump, same, widths⟩
  rw [steps, steps, same, if_pos isJump, if_pos isJump, widths.steps_eq]

theorem Moves.steps_le {part resized : SizedItem} (moves : Moves part resized) :
    steps part ≤ steps resized := by
  rcases moves with rfl | advances
  · exact Nat.le_refl _
  · rw [advances.steps_eq]
    exact Nat.le_succ _

end SizedItem

namespace CodeOffsets

theorem moves_of_resize {offsets : CodeOffsets} {method : Text} {part resized : SizedItem}
    {position : Nat} (sized : offsets.resize method part position = .ok resized) :
    SizedItem.Moves part resized := by
  rcases part with ⟨item, width⟩
  cases item with
  | jump opcode target =>
      simp only [resize, map_eq_ok] at sized
      rcases sized with ⟨distance, -, rfl⟩
      rcases width.next_eq_or_advances opcode distance with same | advances
      · left
        rw [same]
      · right
        exact ⟨rfl, rfl, advances⟩
  | _ =>
      simp only [resize, Except.ok.injEq] at sized
      exact .inl sized.symm

end CodeOffsets

namespace CodeLayout

open CodeOffsets

/-- The number of steps that all jumps have taken. -/
def steps (entries : List SizedItem) : Nat :=
  (entries.map SizedItem.steps).sum

/-- The number of jumps. -/
abbrev jumps (items : List CodeItem) : Nat :=
  items.countP CodeItem.isJump

theorem steps_start (items : List CodeItem) : steps (items.map fun item => (item, .wide)) = 0 := by
  simp [steps, SizedItem.steps, JumpWidth.steps, Function.comp_def]

theorem steps_le (entries : List SizedItem) : steps entries ≤ 2 * jumps (entries.map Prod.fst) := by
  induction entries with
  | nil => exact Nat.le_refl 0
  | cons part rest ih =>
      have here := part.steps_le
      rw [steps] at ih ⊢
      rw [List.map_cons, List.sum_cons, List.map_cons, jumps, List.countP_cons, Nat.mul_add,
        Nat.add_comm]
      exact Nat.add_le_add ih here

/-- A round leaves each part alone or lets it take a step. -/
theorem moves_of_round {method : Text} {entries next : List SizedItem}
    (rounded : round method entries = .ok next) : List.Forall₂ SizedItem.Moves entries next := by
  have parts : (entries.zip (ofSized entries).positions.toList).map Prod.fst = entries :=
    List.map_fst_zip (by simp)
  rw [← parts, List.forall₂_map_left_iff]
  exact (round_eq_ok.mp rounded).imp fun _ _ => moves_of_resize

/-- Of parts of which any changes, one takes a step. -/
theorem exists_advances {entries next : List SizedItem}
    (moves : List.Forall₂ SizedItem.Moves entries next) (changed : next ≠ entries) :
    ∃ pair ∈ entries.zip next, SizedItem.Advances pair.1 pair.2 := by
  induction moves with
  | nil => exact absurd rfl changed
  | @cons part resized rest restResized here _ ih =>
      rcases here with rfl | advances
      · have changedBehind : restResized ≠ rest := fun same => changed (by rw [same])
        rcases ih changedBehind with ⟨pair, member, advances⟩
        exact ⟨pair, List.mem_cons_of_mem _ member, advances⟩
      · exact ⟨(part, resized), List.mem_cons_self, advances⟩

theorem steps_mono {entries next : List SizedItem}
    (moves : List.Forall₂ SizedItem.Moves entries next) : steps entries ≤ steps next := by
  induction moves with
  | nil => exact Nat.le_refl _
  | cons here _ ih => exact Nat.add_le_add here.steps_le ih

/-- A round that changes anything adds a step. -/
theorem steps_lt_of_round {method : Text} {entries next : List SizedItem}
    (rounded : round method entries = .ok next) (changed : next ≠ entries) :
    steps entries < steps next := by
  have moves := moves_of_round rounded
  clear rounded
  induction moves with
  | nil => exact absurd rfl changed
  | @cons part resized rest restResized here behind ih =>
      rcases here with rfl | advances
      · have less := ih fun same => changed (by rw [same])
        exact Nat.add_lt_add_left less _
      · have less := steps_mono behind
        rw [steps] at less ⊢
        rw [steps] at less ⊢
        rw [List.map_cons, List.sum_cons, List.map_cons, List.sum_cons, advances.steps_eq]
        omega

/-- A number of rounds in a row, each of which changes something. -/
inductive ChangingRounds (method : Text) (entries : List SizedItem) : Nat → List SizedItem → Prop where
  | none : ChangingRounds method entries 0 entries
  | more {rounds : Nat} {last next : List SizedItem} (front : ChangingRounds method entries rounds last)
      (rounded : round method last = .ok next) (changed : next ≠ last) :
      ChangingRounds method entries (rounds + 1) next

namespace ChangingRounds

variable {method : Text} {entries last : List SizedItem} {rounds : Nat}

theorem map_fst (changing : ChangingRounds method entries rounds last) :
    last.map Prod.fst = entries.map Prod.fst := by
  induction changing with
  | none => rfl
  | more _ rounded _ ih => rw [map_fst_round rounded, ih]

theorem add_le_steps (changing : ChangingRounds method entries rounds last) :
    steps entries + rounds ≤ steps last := by
  induction changing with
  | none => exact Nat.le_refl _
  | @more rounds last next _ rounded changed ih =>
      have more := steps_lt_of_round rounded changed
      omega

/-- No more rounds change anything than there are steps left to take. -/
theorem le_of_start {items : List CodeItem}
    (changing : ChangingRounds method (items.map fun item => (item, .wide)) rounds last) :
    rounds ≤ 2 * jumps items := by
  have parts : last.map Prod.fst = items := by
    rw [changing.map_fst, List.map_map]
    exact List.map_id items
  calc rounds ≤ steps last := by
        have reached := changing.add_le_steps
        rw [steps_start] at reached
        omega
    _ ≤ 2 * jumps (last.map Prod.fst) := steps_le last
    _ = 2 * jumps items := by rw [parts]

end ChangingRounds

/-! ### Failures -/

/-- Whether a computation can fail only on a label of the method that has no place. -/
def Resolving {α : Type} (method : Text) (result : Except ClassError α) : Prop :=
  ∀ cause, result = .error cause → ∃ label, cause = .unresolvedLabel method label

namespace Resolving

variable {α β : Type} {method : Text}

theorem ok (value : α) : Resolving method (.ok value) := by
  rintro cause ⟨⟩

theorem bind {first : Except ClassError α} {second : α → Except ClassError β}
    (resolving : Resolving method first)
    (next : ∀ value, first = .ok value → Resolving method (second value)) :
    Resolving method (first >>= second) := by
  cases first with
  | ok value => exact next value rfl
  | error cause =>
      rintro _ ⟨⟩
      exact resolving cause rfl

theorem map {result : Except ClassError α} (change : α → β) (resolving : Resolving method result) :
    Resolving method (result.map change) := by
  cases result with
  | ok value => exact ok _
  | error cause =>
      rintro _ ⟨⟩
      exact resolving cause rfl

theorem mapM {change : α → Except ClassError β} {values : List α}
    (each : ∀ value ∈ values, Resolving method (change value)) :
    Resolving method (values.mapM change) := by
  induction values with
  | nil => exact ok []
  | cons value rest ih =>
      rw [List.forall_mem_cons] at each
      rw [List.mapM_cons]
      exact each.1.bind fun _ _ => (ih each.2).bind fun _ _ => ok _

theorem foldlM {step : β → α → Except ClassError β} {values : List α} {state : β}
    (each : ∀ state value, Resolving method (step state value)) :
    Resolving method (values.foldlM step state) := by
  induction values generalizing state with
  | nil => exact ok state
  | cons value rest ih =>
      rw [List.foldlM_cons]
      exact (each state value).bind fun _ _ => ih

theorem distance (offsets : CodeOffsets) (position : Nat) (label : Label) :
    Resolving method (offsets.distance method position label) := by
  rw [CodeOffsets.distance, resolve]
  cases offsets.labels[label]? with
  | some place => exact ok _
  | none =>
      rintro _ ⟨⟩
      exact ⟨label, rfl⟩

theorem resize (offsets : CodeOffsets) (part : SizedItem) (position : Nat) :
    Resolving method (offsets.resize method part position) := by
  rcases part with ⟨item, width⟩
  cases item with
  | jump opcode target => exact (distance offsets position target).map _
  | _ => exact ok _

theorem round (entries : List SizedItem) : Resolving method (round method entries) :=
  mapM fun part _ => resize _ part.1 part.2

theorem putItem (offsets : CodeOffsets) (output : Output) (part : SizedItem) (position : Nat) :
    Resolving method (putItem offsets method output part position) := by
  rcases part with ⟨item, width⟩
  cases item with
  | fixed bytes => exact ok _
  | label place => exact ok _
  | jump opcode target => exact (distance offsets position target).bind fun _ _ => ok _
  | tableSwitch low high default targets =>
      refine (distance offsets position default).bind fun _ _ => foldlM fun _ target => ?_
      exact (distance offsets position target).bind fun _ _ => ok _
  | lookupSwitch default cases =>
      refine (distance offsets position default).bind fun _ _ => foldlM fun _ target => ?_
      exact (distance offsets position target.2).bind fun _ _ => ok _

end Resolving

/-! ### The end of the rounds -/

theorem settle_of_error {method : Text} {entries : List SizedItem} {cause : ClassError}
    (rounded : round method entries = .error cause) (allowed : Nat) :
    settle method entries allowed = .error cause := by
  cases allowed <;> rw [settle, rounded] <;> rfl

theorem settle_of_settled {method : Text} {entries : List SizedItem} (settled : Settled method entries)
    (allowed : Nat) : settle method entries allowed = .ok entries := by
  cases allowed <;> rw [settle, settled, ok_bind, if_pos rfl] <;> rfl

/-- The rounds find settled widths, or a label without a place, as long as more rounds are allowed than
there are steps left to take. -/
theorem settle_ends {method : Text} {start entries : List SizedItem} {rounds allowed : Nat}
    (changing : ChangingRounds method start rounds entries)
    (enough : 2 * jumps (entries.map Prod.fst) ≤ steps entries + allowed) :
    ∃ more last, ChangingRounds method start more last ∧
      ((Settled method last ∧ settle method entries allowed = .ok last) ∨
        ∃ label, round method last = .error (.unresolvedLabel method label) ∧
          settle method entries allowed = .error (.unresolvedLabel method label)) := by
  cases rounded : round method entries with
  | error cause =>
      rcases Resolving.round entries cause rounded with ⟨label, rfl⟩
      exact ⟨rounds, entries, changing, .inr ⟨label, rounded, settle_of_error rounded allowed⟩⟩
  | ok next =>
      by_cases unchanged : next = entries
      · rw [unchanged] at rounded
        exact ⟨rounds, entries, changing, .inl ⟨rounded, settle_of_settled rounded allowed⟩⟩
      · have more := steps_lt_of_round rounded unchanged
        have same := map_fst_round rounded
        cases allowed with
        | zero =>
            -- All steps are taken, so that no round changes anything.
            have most := steps_le next
            rw [same] at most
            omega
        | succ allowed =>
            rw [settle, rounded, ok_bind, if_neg unchanged]
            refine settle_ends (changing.more rounded unchanged) ?_
            rw [same]
            omega

/-- The rounds from wide jumps on come to an end in front of the limit. -/
theorem settle_start_ends (method : Text) (items : List CodeItem) :
    ∃ rounds last, ChangingRounds method (items.map fun item => (item, .wide)) rounds last ∧
      ((Settled method last ∧
          settle method (items.map fun item => (item, .wide)) (maxRounds items) = .ok last) ∨
        ∃ label, round method last = .error (.unresolvedLabel method label) ∧
          settle method (items.map fun item => (item, .wide)) (maxRounds items) =
            .error (.unresolvedLabel method label)) := by
  refine settle_ends .none ?_
  have parts : (items.map fun item => (item, JumpWidth.wide)).map Prod.fst = items := by
    rw [List.map_map]
    exact List.map_id items
  rw [parts, steps_start, maxRounds, jumps]
  omega

theorem ofItems_ne_layoutDiverged (method : Text) (items : List CodeItem) (other : Text) :
    ofItems method items ≠ .error (.layoutDiverged other) := by
  rcases settle_start_ends method items with ⟨_, last, -, ⟨-, ends⟩ | ⟨label, -, ends⟩⟩
  · rw [ofItems, ends, ok_bind]
    dsimp only
    split
    · rintro ⟨⟩
    · intro diverged
      have written : Resolving method ((last.zip (ofSized last).positions.toList).foldlM
          (fun output part => putItem (ofSized last) method output part.1 part.2) .empty) :=
        .foldlM fun output part => .putItem _ output part.1 part.2
      rcases (written.bind fun _ _ => .ok _) _ diverged with ⟨label, ⟨⟩⟩
  · rw [ofItems, ends]
    rintro ⟨⟩

/-- Sizing jumps comes to an end within its limit, for any parts at any distances.  A round leaves each
part alone or takes a jump one step along wide, narrow, wide for good, and if it changes anything then it
does so to some jump.  So from wide jumps on at most twice as many rounds as there are jumps change
anything: so many rounds lead to settled widths, or to a label that has no place.  Writing the parts does
not give up on the rounds. -/
theorem rounds_end (method : Text) (items : List CodeItem) :
    (∀ entries next, round method entries = .ok next →
      List.Forall₂ SizedItem.Moves entries next ∧
        (next ≠ entries → ∃ pair ∈ entries.zip next, SizedItem.Advances pair.1 pair.2)) ∧
    (∀ rounds last, ChangingRounds method (items.map fun item => (item, .wide)) rounds last →
      rounds ≤ 2 * jumps items) ∧
    (∃ rounds last, ChangingRounds method (items.map fun item => (item, .wide)) rounds last ∧
      rounds ≤ 2 * jumps items ∧
      ((Settled method last ∧
          settle method (items.map fun item => (item, .wide)) (maxRounds items) = .ok last) ∨
        ∃ label, round method last = .error (.unresolvedLabel method label) ∧
          settle method (items.map fun item => (item, .wide)) (maxRounds items) =
            .error (.unresolvedLabel method label))) ∧
    ∀ other, ofItems method items ≠ .error (.layoutDiverged other) := by
  refine ⟨fun entries next rounded => ?_, fun rounds last changing => changing.le_of_start, ?_,
    ofItems_ne_layoutDiverged method items⟩
  · have moves := moves_of_round rounded
    exact ⟨moves, exists_advances moves⟩
  · rcases settle_start_ends method items with ⟨rounds, last, changing, ends⟩
    exact ⟨rounds, last, changing, changing.le_of_start, ends⟩

end CodeLayout

end ClassFile
