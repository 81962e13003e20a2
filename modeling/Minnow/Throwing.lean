import Minnow.Transition

/-!
Computations that return or throw, and runs of a machine whose steps may throw. A throw
ends the run: `attempt` gives the state a run has come to, or what was thrown.
-/

namespace Throwing

universe u v w
variable {ε : Type u} {α β σ : Type v} {ι : Type w}

@[simp] theorem ok_bind (a : α) (f : α → Except ε β) : (Except.ok a >>= f) = f a := rfl

@[simp] theorem error_bind (e : ε) (f : α → Except ε β) :
    ((Except.error e : Except ε α) >>= f) = .error e := rfl

@[simp] theorem pure_eq_ok (a : α) : (pure a : Except ε α) = .ok a := rfl

@[simp] theorem throw_eq_error (e : ε) : (throw e : Except ε α) = .error e := rfl

/-- A computation returns when its first part does and the rest does. -/
theorem bind_eq_ok {x : Except ε α} {f : α → Except ε β} {b : β} :
    (x >>= f) = .ok b ↔ ∃ a, x = .ok a ∧ f a = .ok b := by
  cases x with
  | error e =>
      rw [error_bind]
      constructor
      · intro h
        cases h
      · rintro ⟨a, ha, -⟩
        cases ha
  | ok a =>
      rw [ok_bind]
      constructor
      · exact fun h => ⟨a, rfl, h⟩
      · rintro ⟨a', ha, hf⟩
        cases ha
        exact hf

/-- A guard that throws has been passed when the computation returns. -/
theorem guard_eq_ok {p : Prop} [Decidable p] {e : ε} {x : Except ε α} {a : α} :
    (if p then .error e else x) = .ok a ↔ ¬ p ∧ x = .ok a := by
  by_cases hp : p
  · rw [if_pos hp]
    exact ⟨fun h => (by cases h), fun h => absurd hp h.1⟩
  · rw [if_neg hp]
    exact (and_iff_right hp).symm

/-- The state a run has come to, unless one of its steps has thrown. -/
def attempt (step : σ → ι → Except ε σ) : σ → List ι → Except ε σ
  | s, [] => .ok s
  | s, i :: is => step s i >>= fun s => attempt step s is

variable {step : σ → ι → Except ε σ} {P : σ → Prop}

@[simp] theorem attempt_nil (s : σ) : attempt step s ([] : List ι) = .ok s := rfl

theorem attempt_cons {s t : σ} {i : ι} {is : List ι} :
    attempt step s (i :: is) = .ok t ↔ ∃ s', step s i = .ok s' ∧ attempt step s' is = .ok t :=
  bind_eq_ok

/-- The invariant rule: what each step preserves when it does not throw holds where the run
has come to. -/
theorem attempt_invariant {s t : σ} {is : List ι} (start : P s)
    (preserved : ∀ s, ∀ i ∈ is, ∀ s', P s → step s i = .ok s' → P s')
    (h : attempt step s is = .ok t) : P t := by
  induction is generalizing s with
  | nil =>
      cases h
      exact start
  | cons i is ih =>
      obtain ⟨s', hi, his⟩ := attempt_cons.mp h
      exact ih (preserved s i List.mem_cons_self s' start hi)
        (fun s j hj => preserved s j (List.mem_cons_of_mem i hj)) his

end Throwing
