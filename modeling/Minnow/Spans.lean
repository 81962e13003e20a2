import Mathlib.Algebra.Ring.Nat
import Mathlib.Data.Finset.Card
import Mathlib.Order.Interval.Finset.Nat
import Mathlib.Data.List.Infix
import Mathlib.Tactic.Common

/-!
Lists of spans: runs of consecutive positions of an indexed sequence, each with
the elements at these positions. A separated list is ordered, without empty spans
and without overlaps, so it is a finite partial map from positions to elements in
which every position is held at most once, and its total size counts the
positions it covers.
-/

namespace Spans

universe u
variable {α : Type u}

structure Span (α : Type u) where
  starti : Nat
  data : List α
  deriving Repr, DecidableEq

def Span.stop (p : Span α) : Nat := p.starti + p.data.length

def Span.Holds (p : Span α) (j : Nat) : Prop := p.starti ≤ j ∧ j < p.stop

/-- Some span of the list holds position `j`. -/
def Covers (l : List (Span α)) (j : Nat) : Prop := ∃ p ∈ l, p.Holds j

def size (l : List (Span α)) : Nat := (l.map fun p => p.data.length).sum

/-- Ordered, disjoint, non-empty spans, all from `lo` on. -/
def Separated : Nat → List (Span α) → Prop
  | _, [] => True
  | lo, p :: l => lo ≤ p.starti ∧ p.data ≠ [] ∧ Separated p.stop l

/-- The span agrees with the sequence `S`. -/
def Span.SliceOf (S : List α) (p : Span α) : Prop := p.data <+: S.drop p.starti

@[simp] theorem covers_nil (j : Nat) : ¬ Covers ([] : List (Span α)) j := by
  simp [Covers]

@[simp] theorem covers_cons (p : Span α) (l : List (Span α)) (j : Nat) :
    Covers (p :: l) j ↔ p.Holds j ∨ Covers l j := by
  simp [Covers]

@[simp] theorem covers_append (l m : List (Span α)) (j : Nat) :
    Covers (l ++ m) j ↔ Covers l j ∨ Covers m j := by
  simp only [Covers, List.mem_append, or_and_right, exists_or]

@[simp] theorem size_nil : size ([] : List (Span α)) = 0 := rfl

@[simp] theorem size_cons (p : Span α) (l : List (Span α)) :
    size (p :: l) = p.data.length + size l := by
  simp [size]

@[simp] theorem size_append (l m : List (Span α)) : size (l ++ m) = size l + size m := by
  simp [size]

theorem starti_lt_stop {p : Span α} (h : p.data ≠ []) : p.starti < p.stop :=
  Nat.lt_add_of_pos_right (List.length_pos_iff.mpr h)

theorem separated_mono {lo lo' : Nat} {l : List (Span α)} (h : Separated lo l)
    (hle : lo' ≤ lo) : Separated lo' l := by
  cases l with
  | nil => trivial
  | cons p l => exact ⟨hle.trans h.1, h.2⟩

theorem separated_le {lo : Nat} {l : List (Span α)} (h : Separated lo l) :
    ∀ p ∈ l, lo ≤ p.starti := by
  induction l generalizing lo with
  | nil => simp
  | cons q l ih =>
      intro p hp
      cases List.mem_cons.mp hp with
      | inl hhead =>
          subst hhead
          exact h.1
      | inr hp =>
          have := ih h.2.2 p hp
          have := starti_lt_stop h.2.1
          have := h.1
          omega

theorem separated_starts {lo : Nat} {l m : List (Span α)} (h : Separated lo (l ++ m)) :
    ∀ p ∈ l, ∀ q ∈ m, p.starti ≤ q.starti := by
  induction l generalizing lo with
  | nil => simp
  | cons r l ih =>
      intro p hp q hq
      cases List.mem_cons.mp hp with
      | inl hhead =>
          subst hhead
          have := separated_le h.2.2 q (List.mem_append_right _ hq)
          have := starti_lt_stop h.2.1
          omega
      | inr hp => exact ih h.2.2 p hp q hq

theorem separated_data_ne {lo : Nat} {l : List (Span α)} (h : Separated lo l) :
    ∀ p ∈ l, p.data ≠ [] := by
  induction l generalizing lo with
  | nil => simp
  | cons q l ih =>
      intro p hp
      cases List.mem_cons.mp hp with
      | inl hhead =>
          subst hhead
          exact h.2.1
      | inr hp => exact ih h.2.2 p hp

/-- Every span ends before the next begins. -/
theorem separated_pairwise {lo : Nat} {l : List (Span α)} (h : Separated lo l) :
    l.Pairwise fun p q => p.stop ≤ q.starti := by
  induction l generalizing lo with
  | nil => exact List.Pairwise.nil
  | cons p l ih => exact List.pairwise_cons.mpr ⟨separated_le h.2.2, ih h.2.2⟩

theorem stop_le_of_covers {hi : Nat} {l : List (Span α)} (h : ∀ j, Covers l j → j < hi)
    {p : Span α} (hp : p ∈ l) (hne : p.data ≠ []) : p.stop ≤ hi := by
  have hpos := starti_lt_stop hne
  have hlast := h (p.stop - 1) ⟨p, hp, by omega, by omega⟩
  omega

/-- The spans between two bounds fit there. -/
theorem separated_size_le {lo hi : Nat} {l : List (Span α)} (h : Separated lo l)
    (hle : lo ≤ hi) (hstop : ∀ p ∈ l, p.stop ≤ hi) : lo + size l ≤ hi := by
  induction l generalizing lo with
  | nil => exact hle
  | cons p l ih =>
      have hrest := ih h.2.2 (hstop p List.mem_cons_self)
        fun q hq => hstop q (List.mem_cons_of_mem _ hq)
      have hstart := h.1
      rw [Span.stop] at hrest
      rw [size_cons]
      omega

theorem covers_ge {lo j : Nat} {l : List (Span α)} (h : Separated lo l)
    (hj : Covers l j) : lo ≤ j := by
  obtain ⟨p, hp, hle, _⟩ := hj
  exact (separated_le h p hp).trans hle

/-- The bound of a non-empty separated list may be raised to its first position. -/
theorem separated_of_le {lo lo' : Nat} {l : List (Span α)} (h : Separated lo l)
    (hle : ∀ p ∈ l, lo' ≤ p.starti) : Separated lo' l := by
  cases l with
  | nil => trivial
  | cons p l => exact ⟨hle p List.mem_cons_self, h.2⟩

theorem eq_nil_of_size {lo : Nat} {l : List (Span α)} (h : Separated lo l)
    (hsize : size l = 0) : l = [] := by
  cases l with
  | nil => rfl
  | cons p l =>
      have := List.length_pos_iff.mpr h.2.1
      rw [size_cons] at hsize
      omega

/-- A finite set of positions with the coverage of a separated list has as many
elements as the list has data. -/
theorem card_of_covers {lo : Nat} {l : List (Span α)} (h : Separated lo l)
    (A : Finset Nat) (hA : ∀ j, j ∈ A ↔ Covers l j) : A.card = size l := by
  induction l generalizing lo A with
  | nil =>
      have : A = ∅ := Finset.eq_empty_of_forall_notMem fun j hj => covers_nil j ((hA j).mp hj)
      rw [this, Finset.card_empty, size_nil]
  | cons p l ih =>
      have hrest : (A.filter fun j => ¬ j < p.stop).card = size l := by
        apply ih h.2.2
        intro j
        rw [Finset.mem_filter, hA, covers_cons]
        constructor
        · rintro ⟨hp | hl, hj⟩
          · exact absurd hp.2 hj
          · exact hl
        · intro hl
          exact ⟨Or.inr hl, Nat.not_lt.mpr (covers_ge h.2.2 hl)⟩
      have hfirst : A.filter (fun j => j < p.stop) = Finset.Ico p.starti p.stop := by
        ext j
        rw [Finset.mem_filter, hA, covers_cons, Finset.mem_Ico]
        constructor
        · rintro ⟨hp | hl, hj⟩
          · exact hp
          · exact absurd hj (Nat.not_lt.mpr (covers_ge h.2.2 hl))
        · intro hj
          exact ⟨Or.inl hj, hj.2⟩
      have hsplit := Finset.card_filter_add_card_filter_not (s := A) (fun j => j < p.stop)
      rw [hfirst, Nat.card_Ico, hrest] at hsplit
      rw [← hsplit, size_cons, Span.stop, Nat.add_sub_cancel_left]

theorem sliceOf_drop {S : List α} {p : Span α} (h : p.SliceOf S) (n : Nat) :
    Span.SliceOf S ⟨p.starti + n, p.data.drop n⟩ := by
  have := List.IsPrefix.drop h n
  rwa [List.drop_drop] at this

theorem sliceOf_mono {S T : List α} {p : Span α} (h : p.SliceOf S) (hST : S <+: T) :
    p.SliceOf T :=
  h.trans (hST.drop p.starti)

/-- Extending a prefix by the elements that follow it gives a prefix again. -/
theorem prefix_extend {S d e : List α} (hd : d <+: S) (he : e <+: S.drop d.length) :
    d ++ e <+: S := by
  obtain ⟨t, rfl⟩ := hd
  rw [List.drop_left] at he
  exact (List.prefix_append_right_inj d).mpr he

end Spans
