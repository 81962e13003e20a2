import Mathlib.Data.List.Basic
import Mathlib.Tactic.Common

/-!
Lists of views read from the front, as a cursor over a chain of buffers reads them.
`drop` removes entries and with them each view that is used up; `Filled n` says that no
empty view stands in the way of the first `n` entries.
-/

namespace Views

universe u
variable {α : Type u}

def drop : Nat → List (List α) → List (List α)
  | _, [] => []
  | 0, views => views
  | len + 1, view :: views =>
      if view.length ≤ len + 1 then drop (len + 1 - view.length) views
      else view.drop (len + 1) :: views

@[simp] theorem drop_nil (len : Nat) : drop len ([] : List (List α)) = [] := by
  cases len <;> rfl

@[simp] theorem drop_zero (views : List (List α)) : drop 0 views = views := by
  cases views <;> rfl

theorem drop_cons_of_le {len : Nat} {view : List α} (views : List (List α)) (hpos : 0 < len)
    (hle : view.length ≤ len) : drop len (view :: views) = drop (len - view.length) views := by
  obtain ⟨n, rfl⟩ : ∃ n, len = n + 1 := ⟨len - 1, by omega⟩
  rw [drop, if_pos hle]

theorem drop_cons_of_lt {len : Nat} {view : List α} (views : List (List α))
    (hlt : len < view.length) : drop len (view :: views) = view.drop len :: views := by
  cases len with
  | zero => simp
  | succ n => rw [drop, if_neg (by omega)]

theorem flatten_drop (len : Nat) (views : List (List α)) :
    (drop len views).flatten = views.flatten.drop len := by
  induction views generalizing len with
  | nil => simp
  | cons view views ih =>
      rcases Nat.eq_zero_or_pos len with rfl | hpos
      · simp
      cases Nat.lt_or_ge len view.length with
      | inl hlt =>
          rw [drop_cons_of_lt views hlt, List.flatten_cons, List.flatten_cons,
            List.drop_append_of_le_length (Nat.le_of_lt hlt)]
      | inr hle =>
          rw [drop_cons_of_le views hpos hle, ih, List.flatten_cons, List.drop_append,
            List.drop_of_length_le hle, List.nil_append]

theorem drop_add (a b : Nat) (views : List (List α)) :
    drop (a + b) views = drop b (drop a views) := by
  induction views generalizing a with
  | nil => simp
  | cons view views ih =>
      rcases Nat.eq_zero_or_pos a with rfl | hpos
      · simp
      cases Nat.lt_or_ge a view.length with
      | inl hlt =>
          rw [drop_cons_of_lt views hlt]
          rcases Nat.eq_zero_or_pos b with rfl | hb
          · rw [Nat.add_zero, drop_zero, drop_cons_of_lt views hlt]
          cases Nat.lt_or_ge (a + b) view.length with
          | inl hlt' =>
              rw [drop_cons_of_lt views hlt',
                drop_cons_of_lt views (by rw [List.length_drop]; omega), List.drop_drop]
          | inr hle' =>
              rw [drop_cons_of_le views (by omega) hle',
                drop_cons_of_le views hb (by rw [List.length_drop]; omega), List.length_drop,
                show a + b - view.length = b - (view.length - a) by omega]
      | inr hle =>
          rw [drop_cons_of_le views hpos hle, drop_cons_of_le views (by omega) (by omega), ← ih,
            show a + b - view.length = a - view.length + b by omega]

theorem length_drop_le (len : Nat) (views : List (List α)) :
    (drop len views).length ≤ views.length := by
  induction views generalizing len with
  | nil => simp
  | cons view views ih =>
      rcases Nat.lt_or_ge len view.length with hlt | hle
      · rw [drop_cons_of_lt views hlt]
        simp
      cases Nat.eq_zero_or_pos len with
      | inl hzero =>
          subst hzero
          simp
      | inr hpos =>
          rw [drop_cons_of_le views hpos hle]
          exact Nat.le_succ_of_le (ih _)

/-- Each of the first `n` entries stands at the front when its turn comes. -/
def Filled : Nat → List (List α) → Prop
  | 0, _ => True
  | n + 1, views => views.headD [] ≠ [] ∧ Filled n (drop 1 views)

instance decidableFilled [DecidableEq α] : ∀ n (views : List (List α)), Decidable (Filled n views)
  | 0, _ => inferInstanceAs (Decidable True)
  | n + 1, views =>
      have := decidableFilled n (drop 1 views)
      inferInstanceAs (Decidable (views.headD [] ≠ [] ∧ Filled n (drop 1 views)))

theorem filled_add {a b : Nat} {views : List (List α)} :
    Filled (a + b) views ↔ Filled a views ∧ Filled b (drop a views) := by
  induction a generalizing views with
  | zero => simp [Filled]
  | succ a ih =>
      rw [show a + 1 + b = a + b + 1 by omega, Filled, Filled, ih, ← drop_add,
        Nat.add_comm 1 a, and_assoc]

/-- Within the front view there is nothing in the way. -/
theorem filled_of_le_head {n : Nat} {view : List α} (views : List (List α))
    (h : n ≤ view.length) : Filled n (view :: views) := by
  induction n generalizing view with
  | zero => trivial
  | succ n ih =>
      refine ⟨List.ne_nil_of_length_pos (by simp only [List.headD_cons]; omega), ?_⟩
      cases Nat.lt_or_ge 1 view.length with
      | inl hlt =>
          rw [drop_cons_of_lt views hlt]
          exact ih (by rw [List.length_drop]; omega)
      | inr hle =>
          obtain rfl : n = 0 := by omega
          trivial

theorem Filled.le_length {n : Nat} {views : List (List α)} (h : Filled n views) :
    n ≤ views.flatten.length := by
  induction n generalizing views with
  | zero => exact Nat.zero_le _
  | succ n ih =>
      have hrest := ih h.2
      rw [flatten_drop, List.length_drop] at hrest
      cases views with
      | nil => exact absurd rfl h.1
      | cons view views =>
          have hview : 0 < view.length := List.length_pos_iff.mpr h.1
          simp only [List.flatten_cons, List.length_append] at hrest ⊢
          omega

/-- The first entries of filled views are the first of their concatenation. -/
theorem Filled.head {n : Nat} {views : List (List α)} (h : Filled (n + 1) views) :
    ∃ x view rest, views = (x :: view) :: rest := by
  cases views with
  | nil => exact absurd rfl h.1
  | cons view rest =>
      cases view with
      | nil => exact absurd rfl h.1
      | cons x view => exact ⟨x, view, rest, rfl⟩

theorem filled_of_nonempty {n : Nat} {views : List (List α)} (hne : ∀ view ∈ views, view ≠ [])
    (h : n ≤ views.flatten.length) : Filled n views := by
  induction views generalizing n with
  | nil =>
      obtain rfl : n = 0 := by simpa using h
      trivial
  | cons view views ih =>
      cases Nat.le_total n view.length with
      | inl hle => exact filled_of_le_head views hle
      | inr hle =>
          rw [List.flatten_cons, List.length_append] at h
          have hpos : 0 < view.length := List.length_pos_iff.mpr (hne view List.mem_cons_self)
          rw [show n = view.length + (n - view.length) by omega, filled_add]
          refine ⟨filled_of_le_head views (Nat.le_refl _), ?_⟩
          rw [drop_cons_of_le views (by omega) (Nat.le_refl _), Nat.sub_self, drop_zero]
          exact ih (fun v hv => hne v (List.mem_cons_of_mem _ hv)) (by omega)

end Views
