import Minnow.Reassembler

/-!
The first pass of `insert`. A separated list with one new node in its place comes
out separated, covering what it covered with the new node, and the byte counter
loses exactly the overlap. The pass compares a node with its predecessor only; that
is enough because the nodes before the new one are disjoint and the nodes behind it
start at or behind its start.
-/

namespace Minnow
open Spans
namespace Reassembler

/-- The part of `nodes` from `lo` on, as the first pass leaves it. -/
structure Trimmed (lo : Nat) (nodes left : List Substring) : Prop where
  separated : Separated lo left
  covers : ∀ j, Covers left j ↔ Covers nodes j ∧ lo ≤ j
  slices : ∀ S, (∀ p ∈ nodes, p.SliceOf S) → ∀ p ∈ left, p.SliceOf S

/-- Where the node before the iterator ends. -/
def prevStop : Option Substring → Nat
  | none => 0
  | some p => p.stop

@[simp] theorem prevStop_some (p : Substring) : prevStop (some p) = p.stop := rfl

theorem trim_of_le {prev : Option Substring} {it : Substring}
    (h : prevStop prev ≤ it.starti) : trim prev it = (some it, 0) := by
  cases prev with
  | none => rfl
  | some p =>
      have : ¬ (p.starti ≤ it.starti ∧ it.starti < p.starti + p.data.length) := by
        change p.starti + p.data.length ≤ it.starti at h
        omega
      simp only [trim, this, if_false]

/-- A node inside its predecessor is erased. -/
theorem trim_inside {p it : Substring} (hle : p.starti ≤ it.starti)
    (hlt : it.starti < p.stop) (hin : it.stop ≤ p.stop) :
    trim (some p) it = (none, it.data.length) := by
  have hn : min (p.starti + p.data.length - it.starti) it.data.length = it.data.length := by
    simp only [Span.stop] at hin
    omega
  have hif : p.starti ≤ it.starti ∧ it.starti < p.starti + p.data.length := ⟨hle, hlt⟩
  simp only [trim, hif, and_self, if_true, hn, List.drop_length, List.isEmpty_nil]

/-- A node that reaches beyond its predecessor keeps the part beyond. -/
theorem trim_across {p it : Substring} (hle : p.starti ≤ it.starti)
    (hlt : it.starti < p.stop) (hout : p.stop < it.stop) :
    trim (some p) it =
      (some ⟨p.stop, it.data.drop (p.stop - it.starti)⟩, p.stop - it.starti) := by
  have hn : min (p.starti + p.data.length - it.starti) it.data.length =
      p.stop - it.starti := by
    simp only [Span.stop] at hout ⊢
    omega
  have hif : p.starti ≤ it.starti ∧ it.starti < p.starti + p.data.length := ⟨hle, hlt⟩
  have hne : (it.data.drop (p.stop - it.starti)).isEmpty = false := by
    rw [List.isEmpty_eq_false_iff, ne_eq, List.drop_eq_nil_iff]
    simp only [Span.stop] at hout ⊢
    omega
  have hstart : it.starti + (p.stop - it.starti) = p.stop := by omega
  simp only [trim, hif, and_self, if_true, hn, hne, hstart]
  simp

theorem across_stop {lo : Nat} {it : Substring} (hlt : it.starti < lo) (hout : lo < it.stop) :
    Span.stop ⟨lo, it.data.drop (lo - it.starti)⟩ = it.stop := by
  simp only [Span.stop, List.length_drop] at *
  omega

theorem Trimmed.refl {lo : Nat} {nodes : List Substring} (h : Separated lo nodes) :
    Trimmed lo nodes nodes :=
  ⟨h, fun _ => ⟨fun hj => ⟨hj, covers_ge h hj⟩, And.left⟩, fun _ => id⟩

/-- A node that ends before the bound leaves nothing. -/
theorem Trimmed.inside {lo : Nat} {it : Substring} {nodes left : List Substring}
    (h : Trimmed lo nodes left) (hin : it.stop ≤ lo) : Trimmed lo (it :: nodes) left := by
  refine ⟨h.separated, ?_, fun S hS => h.slices S fun p hp => hS p (List.mem_cons_of_mem _ hp)⟩
  intro j
  rw [h.covers, covers_cons]
  constructor
  · rintro ⟨hj, hle⟩
    exact ⟨Or.inr hj, hle⟩
  · rintro ⟨hj | hj, hle⟩
    · exact absurd (hj.2.trans_le hin) (Nat.not_lt.mpr hle)
    · exact ⟨hj, hle⟩

/-- A node that reaches beyond the bound leaves its part beyond. -/
theorem Trimmed.across {lo : Nat} {it : Substring} {nodes left : List Substring}
    (h : Trimmed it.stop nodes left) (hlt : it.starti < lo) (hout : lo < it.stop) :
    Trimmed lo (it :: nodes) (⟨lo, it.data.drop (lo - it.starti)⟩ :: left) := by
  have hstop := across_stop hlt hout
  have hend : it.stop = it.starti + it.data.length := rfl
  have hne : it.data.drop (lo - it.starti) ≠ [] := by
    rw [ne_eq, List.drop_eq_nil_iff]
    omega
  refine ⟨⟨Nat.le_refl _, hne, by rw [hstop]; exact h.separated⟩, ?_, ?_⟩
  · intro j
    simp only [covers_cons, h.covers, Span.Holds, hstop]
    constructor
    · rintro (hj | hj)
      · exact ⟨Or.inl ⟨by omega, hj.2⟩, hj.1⟩
      · exact ⟨Or.inr hj.1, by omega⟩
    · rintro ⟨hj | hj, hle⟩
      · exact Or.inl ⟨hle, hj.2⟩
      · by_cases hjs : j < it.stop
        · exact Or.inl ⟨hle, hjs⟩
        · exact Or.inr ⟨hj, Nat.not_lt.mp hjs⟩
  · intro S hS p hp
    cases List.mem_cons.mp hp with
    | inl hhead =>
        subst hhead
        have := sliceOf_drop (hS it List.mem_cons_self) (lo - it.starti)
        rwa [Nat.add_sub_cancel' hlt.le] at this
    | inr hp => exact h.slices S (fun q hq => hS q (List.mem_cons_of_mem _ hq)) p hp

/-- A node behind the bound stays as it is, and no node behind it starts before it. -/
theorem Trimmed.kept {lo : Nat} {it : Substring} {nodes left : List Substring}
    (h : Trimmed it.stop nodes left) (hle : lo ≤ it.starti) (hne : it.data ≠ [])
    (hnodes : ∀ p ∈ nodes, it.starti ≤ p.starti) :
    Trimmed lo (it :: nodes) (it :: left) := by
  have hpos := starti_lt_stop hne
  refine ⟨⟨hle, hne, h.separated⟩, ?_, ?_⟩
  · intro j
    simp only [covers_cons, h.covers, Span.Holds]
    constructor
    · rintro (hj | hj)
      · exact ⟨Or.inl hj, hle.trans hj.1⟩
      · exact ⟨Or.inr hj.1, by omega⟩
    · rintro ⟨hj | hj, _⟩
      · exact Or.inl hj
      · by_cases hjs : j < it.stop
        · obtain ⟨p, hp, hpj⟩ := hj
          exact Or.inl ⟨(hnodes p hp).trans hpj.1, hjs⟩
        · exact Or.inr ⟨hj, Nat.not_lt.mp hjs⟩
  · intro S hS p hp
    cases List.mem_cons.mp hp with
    | inl hhead =>
        subst hhead
        exact hS _ List.mem_cons_self
    | inr hp => exact h.slices S (fun q hq => hS q (List.mem_cons_of_mem _ hq)) p hp

/-- Where nothing overlaps the first pass changes nothing. -/
theorem trimLoop_separated (prev : Option Substring) (nodes : List Substring)
    (h : Separated (prevStop prev) nodes) (nbytes : Nat) :
    trimLoop prev nodes nbytes = (nodes, nbytes) := by
  induction nodes generalizing prev with
  | nil => rfl
  | cons it rest ih =>
      simp only [trimLoop, trim_of_le h.1, Nat.sub_zero]
      rw [ih (some it) h.2.2]

/-- Behind a new node `q` the pass removes what `q` already holds. The induction is
on the nodes; `lo` bounds the starts of those not yet seen, which stay at or behind
the start of `q`. -/
theorem trimLoop_behind (nodes : List Substring) {q : Substring} {lo : Nat}
    (hq : q.starti ≤ lo) (h : Separated lo nodes) {nbytes : Nat}
    (hn : size nodes ≤ nbytes) :
    Trimmed q.stop nodes (trimLoop (some q) nodes nbytes).1 ∧
      (trimLoop (some q) nodes nbytes).2 + size nodes =
        nbytes + size (trimLoop (some q) nodes nbytes).1 := by
  induction nodes generalizing lo nbytes with
  | nil => exact ⟨Trimmed.refl trivial, rfl⟩
  | cons it rest ih =>
      have hstart : q.starti ≤ it.starti := hq.trans h.1
      have hpos := starti_lt_stop h.2.1
      rw [size_cons] at hn
      by_cases hlt : it.starti < q.stop
      · by_cases hin : it.stop ≤ q.stop
        · simp only [trimLoop, trim_inside hstart hlt hin]
          obtain ⟨htrim, hcount⟩ :=
            ih (hstart.trans hpos.le) h.2.2 (by omega : size rest ≤ nbytes - it.data.length)
          exact ⟨htrim.inside hin, by rw [size_cons]; omega⟩
        · have hout : q.stop < it.stop := Nat.not_le.mp hin
          have hend : it.stop = it.starti + it.data.length := rfl
          have hrest : Separated
              (prevStop (some ⟨q.stop, it.data.drop (q.stop - it.starti)⟩)) rest := by
            simpa only [prevStop, across_stop hlt hout] using h.2.2
          simp only [trimLoop, trim_across hstart hlt hout, trimLoop_separated _ rest hrest]
          refine ⟨(Trimmed.refl h.2.2).across hlt hout, ?_⟩
          simp only [size_cons, List.length_drop]
          omega
      · have hsep : Separated q.stop (it :: rest) := ⟨Nat.not_lt.mp hlt, h.2⟩
        rw [trimLoop_separated (some q) (it :: rest) hsep]
        exact ⟨Trimmed.refl hsep, rfl⟩

/-- The pass from a new node on: the node gives way to its predecessor, and the nodes
behind it give way to what is left of it. -/
theorem trimLoop_new {prev : Option Substring} {new : Substring} {nodes : List Substring}
    (hprev : ∀ p, prev = some p → p.starti ≤ new.starti) (hne : new.data ≠ [])
    (h : Separated (prevStop prev) nodes) (hnew : ∀ p ∈ nodes, new.starti ≤ p.starti)
    {nbytes : Nat} (hn : size (new :: nodes) ≤ nbytes) :
    Trimmed (prevStop prev) (new :: nodes) (trimLoop prev (new :: nodes) nbytes).1 ∧
      (trimLoop prev (new :: nodes) nbytes).2 + size (new :: nodes) =
        nbytes + size (trimLoop prev (new :: nodes) nbytes).1 := by
  rw [size_cons] at hn
  by_cases hlt : new.starti < prevStop prev
  · obtain ⟨p, rfl⟩ : ∃ p, prev = some p := by
      cases prev with
      | none => exact absurd hlt (Nat.not_lt_zero _)
      | some p => exact ⟨p, rfl⟩
    rw [prevStop_some] at hlt h ⊢
    have hstart := hprev p rfl
    by_cases hin : new.stop ≤ p.stop
    · simp only [trimLoop, trim_inside hstart hlt hin,
        trimLoop_separated (some p) nodes h]
      exact ⟨(Trimmed.refl h).inside hin, by rw [size_cons]; omega⟩
    · have hout : p.stop < new.stop := Nat.not_le.mp hin
      have hend : new.stop = new.starti + new.data.length := rfl
      simp only [trimLoop, trim_across hstart hlt hout]
      obtain ⟨htrim, hcount⟩ := trimLoop_behind nodes
        (q := ⟨p.stop, new.data.drop (p.stop - new.starti)⟩) (Nat.le_refl p.stop) h
        (by omega : size nodes ≤ nbytes - (p.stop - new.starti))
      rw [across_stop hlt hout] at htrim
      refine ⟨htrim.across hlt hout, ?_⟩
      simp only [size_cons, List.length_drop]
      omega
  · have hle : prevStop prev ≤ new.starti := Nat.not_lt.mp hlt
    simp only [trimLoop, trim_of_le hle, Nat.sub_zero]
    obtain ⟨htrim, hcount⟩ := trimLoop_behind nodes
      (Nat.le_refl new.starti) (separated_of_le h hnew) (by omega : size nodes ≤ nbytes)
    refine ⟨htrim.kept hle hne hnew, ?_⟩
    rw [size_cons, size_cons]
    omega

/-- The whole pass over a separated list with one new node in its place. -/
theorem trimLoop_inserted (prev : Option Substring) (front : List Substring)
    {new : Substring} {back : List Substring}
    (hprev : ∀ p, prev = some p → p.starti ≤ new.starti) (hne : new.data ≠ [])
    (h : Separated (prevStop prev) (front ++ back))
    (hfront : ∀ p ∈ front, p.starti ≤ new.starti)
    (hback : ∀ p ∈ back, new.starti ≤ p.starti)
    {nbytes : Nat} (hn : size (front ++ new :: back) ≤ nbytes) :
    Trimmed (prevStop prev) (front ++ new :: back)
        (trimLoop prev (front ++ new :: back) nbytes).1 ∧
      (trimLoop prev (front ++ new :: back) nbytes).2 + size (front ++ new :: back) =
        nbytes + size (trimLoop prev (front ++ new :: back) nbytes).1 := by
  induction front generalizing prev nbytes with
  | nil => exact trimLoop_new hprev hne h hback hn
  | cons it front ih =>
      obtain ⟨hle, hit, hsep⟩ := h
      simp only [List.cons_append, size_cons] at hn ⊢
      simp only [trimLoop, trim_of_le hle, Nat.sub_zero]
      have hpos := starti_lt_stop hit
      have hitnew := hfront it List.mem_cons_self
      have hbehind : ∀ p ∈ front ++ new :: back, it.starti ≤ p.starti := by
        intro p hp
        cases List.mem_append.mp hp with
        | inl hp => exact hpos.le.trans (separated_le hsep p (List.mem_append_left _ hp))
        | inr hp =>
            cases List.mem_cons.mp hp with
            | inl hhead =>
                subst hhead
                exact hitnew
            | inr hp => exact hitnew.trans (hback p hp)
      obtain ⟨htrim, hcount⟩ := ih (some it)
        (by rintro p ⟨rfl⟩; exact hitnew) hsep
        (fun p hp => hfront p (List.mem_cons_of_mem _ hp))
        (by omega : size (front ++ new :: back) ≤ nbytes)
      refine ⟨htrim.kept hle hit hbehind, ?_⟩
      rw [size_cons]
      omega

end Reassembler
end Minnow
