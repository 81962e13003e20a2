import Mathlib.Data.List.Infix

/-!
Runs of a machine over a finite list of inputs. A machine is a total step
function: an environment that may choose among several moves is modelled by the
input it offers next, so "for every run" is "for every list of inputs".

A property of a run is stated of the state reached by each prefix of its inputs.
A condition on steps is `Along`: it holds of each input in the state that input
meets. Histories that the machine itself does not keep are attached by `observe`.
-/

namespace Transition

universe u v w
variable {σ : Type u} {ι : Type v} {γ : Type w}

/-- The state a run ends in. -/
def run (step : σ → ι → σ) : σ → List ι → σ
  | s, [] => s
  | s, i :: is => run step (step s i) is

/-- Every step of the run meets `ok` in the state before the step. -/
def Along (step : σ → ι → σ) (ok : σ → ι → Prop) : σ → List ι → Prop
  | _, [] => True
  | s, i :: is => ok s i ∧ Along step ok (step s i) is

instance decidableAlong (step : σ → ι → σ) (ok : σ → ι → Prop)
    [∀ s i, Decidable (ok s i)] : ∀ s is, Decidable (Along step ok s is)
  | _, [] => inferInstanceAs (Decidable True)
  | s, i :: is =>
      have := decidableAlong step ok (step s i) is
      inferInstanceAs (Decidable (ok s i ∧ Along step ok (step s i) is))

variable {step : σ → ι → σ} {ok good : σ → ι → Prop} {P Q : σ → Prop}

@[simp] theorem along_nil (s : σ) : Along step ok s [] := True.intro

@[simp] theorem along_cons (s : σ) (i : ι) (is : List ι) :
    Along step ok s (i :: is) ↔ ok s i ∧ Along step ok (step s i) is := Iff.rfl

theorem run_append (s : σ) (is js : List ι) :
    run step s (is ++ js) = run step (run step s is) js := by
  induction is generalizing s with
  | nil => rfl
  | cons i is ih => exact ih (step s i)

theorem along_append (s : σ) (is js : List ι) :
    Along step ok s (is ++ js) ↔ Along step ok s is ∧ Along step ok (run step s is) js := by
  induction is generalizing s with
  | nil => exact (and_iff_right True.intro).symm
  | cons i is ih =>
      rw [List.cons_append, along_cons, along_cons, ih, and_assoc]
      rfl

theorem along_and {s : σ} {is : List ι} (h : Along step ok s is)
    (k : Along step good s is) : Along step (fun s i => ok s i ∧ good s i) s is := by
  induction is generalizing s with
  | nil => trivial
  | cons i is ih => exact ⟨⟨h.1, k.1⟩, ih h.2 k.2⟩

/-- A condition on the inputs alone. -/
theorem along_of_forall {admitted : ι → Prop} (s : σ) {is : List ι}
    (h : ∀ i ∈ is, admitted i) : Along step (fun _ i => admitted i) s is := by
  induction is generalizing s with
  | nil => trivial
  | cons i is ih =>
      exact ⟨h i List.mem_cons_self, ih _ fun j hj => h j (List.mem_cons_of_mem _ hj)⟩

/-- The invariant rule: what each admitted step preserves holds where the run ends. -/
theorem run_invariant (step : σ → ι → σ) {s : σ} {is : List ι} (start : P s)
    (preserved : ∀ s i, P s → ok s i → P (step s i))
    (h : Along step ok s is) : P (run step s is) := by
  induction is generalizing s with
  | nil => exact start
  | cons i is ih => exact ih (preserved s i start h.1) h.2

theorem along_true (s : σ) (is : List ι) :
    Along step (fun _ _ => True) s is := by
  induction is generalizing s with
  | nil => trivial
  | cons i is ih => exact ⟨True.intro, ih _⟩

/-- The invariant rule for a machine whose every step is admitted. -/
theorem run_invariant_always (step : σ → ι → σ) {s : σ} (start : P s)
    (preserved : ∀ s i, P s → P (step s i)) (is : List ι) :
    P (run step s is) :=
  run_invariant step start (fun s i hs _ => preserved s i hs) (along_true s is)

/-- A property of single steps that follows from an invariant of the states. -/
theorem along_of_invariant {s : σ} {is : List ι} (start : P s)
    (preserved : ∀ s i, P s → ok s i → P (step s i))
    (step_good : ∀ s i, P s → ok s i → good s i)
    (h : Along step ok s is) : Along step good s is := by
  induction is generalizing s with
  | nil => trivial
  | cons i is ih =>
      exact ⟨step_good s i start h.1, ih (preserved s i start h.1) h.2⟩

/-- When, from states in the invariant and under a side condition of the run, a step
keeps `Q` exactly if it is admitted, a run keeps `Q` throughout exactly if all its
steps are admitted. -/
theorem throughout_iff_along {side : σ → ι → Prop} {s : σ} {is : List ι}
    (start : P s) (startQ : Q s) (hside : Along step side s is)
    (preserved : ∀ s i, P s → side s i → ok s i → P (step s i))
    (exact_step : ∀ s i, P s → side s i → (Q (step s i) ↔ ok s i)) :
    (∀ pre, pre <+: is → Q (run step s pre)) ↔ Along step ok s is := by
  induction is generalizing s with
  | nil =>
      simp only [List.prefix_nil, along_nil, iff_true]
      rintro pre rfl
      exact startQ
  | cons i is ih =>
      constructor
      · intro h
        have hi : ok s i := (exact_step s i start hside.1).mp (h [i] ⟨is, rfl⟩)
        refine ⟨hi, (ih (preserved s i start hside.1 hi) (h [i] ⟨is, rfl⟩) hside.2).mp ?_⟩
        intro pre hpre
        exact h (i :: pre) (List.cons_prefix_cons.mpr ⟨rfl, hpre⟩)
      · rintro ⟨hi, his⟩ pre hpre
        cases pre with
        | nil => exact startQ
        | cons j pre =>
            obtain ⟨rfl, hrest⟩ := List.cons_prefix_cons.mp hpre
            exact (ih (preserved s j start hside.1 hi)
              ((exact_step s j start hside.1).mpr hi) hside.2).mpr his pre hrest

/-- The same for a property of steps. -/
theorem along_iff_along {side : σ → ι → Prop} {s : σ} {is : List ι}
    (start : P s) (hside : Along step side s is)
    (preserved : ∀ s i, P s → side s i → ok s i → P (step s i))
    (exact_step : ∀ s i, P s → side s i → (good s i ↔ ok s i)) :
    Along step good s is ↔ Along step ok s is := by
  induction is generalizing s with
  | nil => exact Iff.rfl
  | cons i is ih =>
      rw [along_cons, along_cons, exact_step s i start hside.1]
      exact and_congr_right fun hi => ih (preserved s i start hside.1 hi) hside.2

/-- Some run of admitted steps ends in `t`. -/
def Leads (step : σ → ι → σ) (ok : σ → ι → Prop) (s t : σ) : Prop :=
  ∃ is, Along step ok s is ∧ run step s is = t

theorem Leads.refl (s : σ) : Leads step ok s s := ⟨[], True.intro, rfl⟩

theorem Leads.trans {s t u : σ} (h : Leads step ok s t) (k : Leads step ok t u) :
    Leads step ok s u := by
  obtain ⟨is, his, rfl⟩ := h
  obtain ⟨js, hjs, rfl⟩ := k
  exact ⟨is ++ js, (along_append s is js).mpr ⟨his, hjs⟩, run_append s is js⟩

theorem Leads.snoc {s t : σ} (h : Leads step ok s t) {i : ι} (hi : ok t i) :
    Leads step ok s (step t i) := h.trans ⟨[i], ⟨hi, True.intro⟩, rfl⟩

theorem Leads.invariant {s t : σ} (h : Leads step ok s t) (start : P s)
    (preserved : ∀ s i, P s → ok s i → P (step s i)) : P t := by
  obtain ⟨is, his, rfl⟩ := h
  exact run_invariant step start preserved his

/-- The machine together with a history computed from each state and input. -/
def observe (step : σ → ι → σ) (note : σ → ι → γ → γ) : σ × γ → ι → σ × γ :=
  fun c i => (step c.1 i, note c.1 i c.2)

variable {note : σ → ι → γ → γ}

@[simp] theorem observe_fst (c : σ × γ) (i : ι) :
    (observe step note c i).1 = step c.1 i := rfl

@[simp] theorem observe_snd (c : σ × γ) (i : ι) :
    (observe step note c i).2 = note c.1 i c.2 := rfl

end Transition
