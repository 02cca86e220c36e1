import Mathlib.Data.List.Forall2
import Mathlib.Tactic.Common

/-!
# Results of computations that may fail

A computation in `Except` succeeds exactly if each of its steps does.  The lemmas here take such a
computation apart, so that a proof about it names the results of its steps and never unfolds a
bind.
-/

namespace ClassFile

universe u v w

variable {ε : Type u} {α β : Type v} {γ : Type w}

theorem bind_eq_ok {step : Except ε α} {next : α → Except ε β} {result : β} :
    (step >>= next) = .ok result ↔ ∃ value, step = .ok value ∧ next value = .ok result := by
  cases step <;> simp [bind, Except.bind]

@[simp]
theorem ok_bind (value : α) (next : α → Except ε β) :
    ((.ok value : Except ε α) >>= next) = next value :=
  rfl

@[simp]
theorem error_bind (cause : ε) (next : α → Except ε β) :
    ((.error cause : Except ε α) >>= next) = .error cause :=
  rfl

theorem map_eq_ok {step : Except ε α} {change : α → β} {result : β} :
    step.map change = .ok result ↔ ∃ value, step = .ok value ∧ change value = result := by
  cases step <;> simp [Except.map]

@[simp]
theorem pure_eq_ok {value result : α} :
    (pure value : Except ε α) = .ok result ↔ value = result := by
  simp [pure, Except.pure]

@[simp]
theorem throw_eq_error (cause : ε) : (throw cause : Except ε α) = .error cause :=
  rfl

/-- A list is mapped if each of its elements is. -/
theorem mapM_eq_ok {ε α β : Type} {change : α → Except ε β} {list : List α} {results : List β} :
    list.mapM change = .ok results ↔
      List.Forall₂ (fun value result => change value = .ok result) list results := by
  induction list generalizing results with
  | nil => cases results <;> simp [pure, Except.pure]
  | cons value rest ih =>
      simp only [List.mapM_cons, bind_eq_ok, pure_eq_ok]
      cases results with
      | nil => simp
      | cons result results =>
          simp only [List.forall₂_cons, ← ih, List.cons.injEq]
          constructor
          · rintro ⟨first, changed, others, othersChanged, rfl, rfl⟩
            exact ⟨changed, othersChanged⟩
          · rintro ⟨changed, othersChanged⟩
            exact ⟨result, changed, results, othersChanged, rfl, rfl⟩

/-- Related lists have related elements at each place. -/
theorem getElem?_of_forall₂ {related : α → γ → Prop} {first : List α} {second : List γ}
    (all : List.Forall₂ related first second) (place : Nat) :
    (first[place]? = none ∧ second[place]? = none) ∨
      ∃ left right, first[place]? = some left ∧ second[place]? = some right ∧
        related left right := by
  induction all generalizing place with
  | nil => exact .inl ⟨rfl, rfl⟩
  | cons here _ ih =>
      cases place with
      | zero => exact .inr ⟨_, _, rfl, rfl, here⟩
      | succ place => simpa using ih place

end ClassFile
