import Mathlib.Data.List.Infix
import Mathlib.Tactic.Common

/-!
Lists read as histories that grow at the end: properties of each entry relative to
the entries before it.
-/

namespace Histories

universe u
variable {α : Type u}

/-- Each entry of the history stands in `R` to the entries before it. -/
def Each (R : List α → α → Prop) (l : List α) : Prop :=
  ∀ pre x post, l = pre ++ x :: post → R pre x

theorem concat_eq_split {l pre post : List α} {x y : α} :
    l ++ [y] = pre ++ x :: post ↔
      post = [] ∧ l = pre ∧ y = x ∨ ∃ post', post = post' ++ [y] ∧ l = pre ++ x :: post' := by
  cases List.eq_nil_or_concat post with
  | inl hnil =>
      subst hnil
      rw [List.append_singleton_inj]
      constructor
      · rintro ⟨hl, hx⟩
        exact Or.inl ⟨rfl, hl, hx⟩
      · rintro (⟨-, hl, hx⟩ | ⟨post', hnil, -⟩)
        · exact ⟨hl, hx⟩
        · simp at hnil
  | inr hlast =>
      obtain ⟨post', z, rfl⟩ := hlast
      rw [List.concat_eq_append, ← List.cons_append, ← List.append_assoc,
        List.append_singleton_inj]
      constructor
      · rintro ⟨rfl, rfl⟩
        exact Or.inr ⟨post', rfl, rfl⟩
      · rintro (⟨hnil, -⟩ | ⟨post'', hpost, hl⟩)
        · simp at hnil
        · obtain ⟨rfl, rfl⟩ := List.append_singleton_inj.mp hpost
          exact ⟨hl, rfl⟩

theorem each_nil (R : List α → α → Prop) : Each R [] := by
  intro pre x post h
  simp at h

theorem each_concat {R : List α → α → Prop} {l : List α} {y : α} :
    Each R (l ++ [y]) ↔ Each R l ∧ R l y := by
  constructor
  · intro h
    refine ⟨fun pre x post hl => h pre x (post ++ [y]) ?_, h l y [] rfl⟩
    rw [hl, List.append_assoc, List.cons_append]
  · rintro ⟨hl, hy⟩ pre x post hsplit
    cases concat_eq_split.mp hsplit with
    | inl hempty =>
        obtain ⟨-, rfl, rfl⟩ := hempty
        exact hy
    | inr hlonger =>
        obtain ⟨post', -, hl'⟩ := hlonger
        exact hl pre x post' hl'

theorem Each.of_append {R : List α → α → Prop} {l m : List α} (h : Each R (l ++ m)) :
    Each R l := by
  rintro pre x post rfl
  exact h pre x (post ++ m) (by rw [List.append_assoc, List.cons_append])

theorem Each.of_mem {R : List α → α → Prop} {l : List α} (h : Each R l) {x : α}
    (hx : x ∈ l) : ∃ pre post, l = pre ++ x :: post ∧ R pre x := by
  obtain ⟨pre, post, hl⟩ := List.append_of_mem hx
  exact ⟨pre, post, hl, h pre x post hl⟩

/-- What follows a history is taken relative to it. -/
theorem each_append {R : List α → α → Prop} {l m : List α} :
    Each R (l ++ m) ↔ Each R l ∧ Each (fun pre x => R (l ++ pre) x) m := by
  constructor
  · intro h
    refine ⟨h.of_append, ?_⟩
    rintro pre x post rfl
    exact h (l ++ pre) x post (List.append_assoc ..).symm
  · rintro ⟨hl, hm⟩
    induction m using List.reverseRecOn with
    | nil => rwa [List.append_nil]
    | append_singleton m y ih =>
        rw [each_concat] at hm
        rw [← List.append_assoc, each_concat]
        exact ⟨ih hm.1, hm.2⟩

theorem Each.mono {R S : List α → α → Prop} {l : List α} (h : Each R l)
    (himp : ∀ pre x, x ∈ l → pre <+: l → R pre x → S pre x) : Each S l := by
  rintro pre x post rfl
  exact himp pre x (by simp) (List.prefix_append _ _) (h pre x post rfl)

end Histories
