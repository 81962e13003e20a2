import Minnow.EventLoop
import Minnow.Histories

/-!
Which hooks a call of `wait_next_event` calls. A pass over rules calls hooks of these rules
only, keeps some of them, and calls nothing of a rule after its `cancel` hook. Passes are
joined, over lists that have no rule in common and one after the other.
-/

namespace Minnow
open Throwing Histories
namespace EventLoop

variable {σ : Type}

def ids (rules : List (BasicRule σ)) : List RuleId := rules.map BasicRule.id

def fdIds (rules : List (FDRule σ)) : List RuleId := rules.map fun r => r.id

/-- Nothing of a rule is called after its `cancel` hook. -/
def CancelLast (calls : List Call) : Prop :=
  Each (fun pre c => ⟨c.rule, .cancel⟩ ∉ pre) calls

/-- A pass over rules that keeps some of them and calls `new` on the way. -/
structure Passes (rules kept : List RuleId) (m : Memory σ) (new : List Call) (m' : Memory σ) :
    Prop where
  calls : m'.calls = m.calls ++ new
  flags : m.cancelRequested ⊆ m'.cancelRequested
  sub : kept.Sublist rules
  called : ∀ c ∈ new, c.rule ∈ rules
  dropped : ∀ r ∈ rules, r ∉ kept → r ∈ m'.cancelRequested ∨ ⟨r, .cancel⟩ ∈ new
  uncancelled : ∀ r ∈ kept, ⟨r, .cancel⟩ ∉ new
  cancelLast : CancelLast new

variable {rules rules' kept kept' : List RuleId} {m m' m'' : Memory σ} {new new' : List Call}

theorem cancelLast_append (h : CancelLast new) (k : CancelLast new')
    (hnot : ∀ c ∈ new', ⟨c.rule, .cancel⟩ ∉ new) : CancelLast (new ++ new') := by
  refine each_append.mpr ⟨h, k.mono fun pre c hc _ hpre => ?_⟩
  rw [List.mem_append, not_or]
  exact ⟨hnot c hc, hpre⟩

theorem cancelLast_single (c : Call) : CancelLast [c] := by
  rw [← List.nil_append [c]]
  exact each_concat.mpr ⟨each_nil _, List.not_mem_nil⟩

/-- Nothing is done about rules that are not reached. -/
theorem Passes.refl (rules : List RuleId) (m : Memory σ) : Passes rules rules m [] m where
  calls := (List.append_nil _).symm
  flags := fun _ h => h
  sub := List.Sublist.refl rules
  called := fun _ hc => absurd hc List.not_mem_nil
  dropped := fun _ hr hnot => absurd hr hnot
  uncancelled := fun _ _ => List.not_mem_nil
  cancelLast := each_nil _

/-- One pass after another, over the rules that the first one keeps. -/
theorem Passes.trans (h : Passes rules kept m new m') (k : Passes kept kept' m' new' m'') :
    Passes rules kept' m (new ++ new') m'' where
  calls := by rw [k.calls, h.calls, List.append_assoc]
  flags := fun _ hr => k.flags (h.flags hr)
  sub := k.sub.trans h.sub
  called c hc := by
    cases List.mem_append.mp hc with
    | inl hc => exact h.called c hc
    | inr hc => exact h.sub.subset (k.called c hc)
  dropped r hr hnot := by
    by_cases hkept : r ∈ kept
    · cases k.dropped r hkept hnot with
      | inl hflag => exact Or.inl hflag
      | inr hcancel => exact Or.inr (List.mem_append_right _ hcancel)
    · cases h.dropped r hr hkept with
      | inl hflag => exact Or.inl (k.flags hflag)
      | inr hcancel => exact Or.inr (List.mem_append_left _ hcancel)
  uncancelled r hr := by
    rw [List.mem_append, not_or]
    exact ⟨h.uncancelled r (k.sub.subset hr), k.uncancelled r hr⟩
  cancelLast :=
    cancelLast_append h.cancelLast k.cancelLast fun c hc => h.uncancelled c.rule (k.called c hc)

/-- A pass over some rules and then over others. -/
theorem Passes.append (h : Passes rules kept m new m') (k : Passes rules' kept' m' new' m'')
    (hapart : rules.Disjoint rules') :
    Passes (rules ++ rules') (kept ++ kept') m (new ++ new') m'' where
  calls := by rw [k.calls, h.calls, List.append_assoc]
  flags := fun _ hr => k.flags (h.flags hr)
  sub := h.sub.append k.sub
  called c hc := by
    cases List.mem_append.mp hc with
    | inl hc => exact List.mem_append_left _ (h.called c hc)
    | inr hc => exact List.mem_append_right _ (k.called c hc)
  dropped r hr hnot := by
    rw [List.mem_append, not_or] at hnot
    cases List.mem_append.mp hr with
    | inl hr =>
        cases h.dropped r hr hnot.1 with
        | inl hflag => exact Or.inl (k.flags hflag)
        | inr hcancel => exact Or.inr (List.mem_append_left _ hcancel)
    | inr hr =>
        cases k.dropped r hr hnot.2 with
        | inl hflag => exact Or.inl hflag
        | inr hcancel => exact Or.inr (List.mem_append_right _ hcancel)
  uncancelled r hr := by
    rw [List.mem_append, not_or]
    cases List.mem_append.mp hr with
    | inl hr =>
        refine ⟨h.uncancelled r hr, fun hcancel => ?_⟩
        exact hapart (h.sub.subset hr) (k.called _ hcancel)
    | inr hr =>
        refine ⟨fun hcancel => ?_, k.uncancelled r hr⟩
        exact hapart (h.called _ hcancel) (k.sub.subset hr)
  cancelLast := by
    refine cancelLast_append h.cancelLast k.cancelLast fun c hc hcancel => ?_
    exact hapart (h.called _ hcancel) (k.called c hc)

/-- A hook of a rule that stays. -/
theorem passes_hook {r : RuleId} {hook : Hook} (hhook : hook ≠ .cancel)
    (hcalls : m'.calls = m.calls ++ [⟨r, hook⟩]) (hflags : m.cancelRequested ⊆ m'.cancelRequested) :
    Passes [r] [r] m [⟨r, hook⟩] m' where
  calls := hcalls
  flags := hflags
  sub := List.Sublist.refl _
  called c hc := by
    rw [List.mem_singleton] at hc ⊢
    rw [hc]
  dropped := fun _ hr hnot => absurd hr hnot
  uncancelled r _ hcancel := by
    have hsame := List.mem_singleton.mp hcancel
    exact hhook (congrArg Call.hook hsame).symm
  cancelLast := cancelLast_single _

theorem passes_ask (r : BasicRule σ) :
    Passes [r.id] [r.id] m [⟨r.id, .interest (r.interest m.world)⟩] (m.ask r) :=
  passes_hook (by simp) rfl fun _ h => h

theorem passes_cancelled {r : RuleId} {action : Action σ}
    (h : m.call r .cancel action = .ok m') : Passes [r] [] m [⟨r, .cancel⟩] m' := by
  obtain ⟨left, -, hleft⟩ := bind_eq_ok.mp h
  cases hleft
  refine ⟨rfl, List.subset_append_left _ _, List.nil_sublist _, ?_, ?_, ?_, cancelLast_single _⟩
  · intro c hc
    rw [List.mem_singleton] at hc ⊢
    rw [hc]
  · intro r' hr' _
    rw [List.mem_singleton] at hr'
    exact Or.inr (by rw [hr']; exact List.mem_singleton_self _)
  · intro r' hr'
    exact absurd hr' List.not_mem_nil

theorem passes_callback {r : RuleId} {action : Action σ}
    (h : m.call r .callback action = .ok m') : Passes [r] [r] m [⟨r, .callback⟩] m' := by
  obtain ⟨left, -, hleft⟩ := bind_eq_ok.mp h
  cases hleft
  exact passes_hook (by simp) rfl (List.subset_append_left _ _)

theorem passes_flagged {r : RuleId} (h : r ∈ m.cancelRequested) : Passes [r] [] m [] m where
  calls := (List.append_nil _).symm
  flags := fun _ h => h
  sub := List.nil_sublist _
  called := fun _ hc => absurd hc List.not_mem_nil
  dropped r' hr' _ := by
    rw [List.mem_singleton] at hr'
    exact Or.inl (hr' ▸ h)
  uncancelled := fun _ hr => absurd hr List.not_mem_nil
  cancelLast := each_nil _

/-- Each callback comes after its rule has said that it is interested. -/
def Asked (calls : List Call) : Prop :=
  Each (fun pre c => c.hook = .callback → ⟨c.rule, .interest true⟩ ∈ pre) calls

/-- How often the callback of a rule is called. -/
def callbacks (r : RuleId) (calls : List Call) : Nat := calls.count ⟨r, .callback⟩

def Quiet (calls : List Call) : Prop := ∀ c ∈ calls, c.hook ≠ .callback

theorem asked_append (h : Asked new) (k : Asked new') : Asked (new ++ new') :=
  each_append.mpr ⟨h, k.mono fun _ _ _ _ himp hcall => List.mem_append_right _ (himp hcall)⟩

theorem Quiet.asked (h : Quiet new) : Asked new :=
  fun pre c post hnew hcall => absurd hcall (h c (by simp [hnew]))

theorem asked_pair (r : RuleId) : Asked [⟨r, .interest true⟩, ⟨r, .callback⟩] := by
  have hfirst : Asked [⟨r, .interest true⟩] := Quiet.asked (by simp [Quiet])
  rw [← List.singleton_append]
  exact each_concat.mpr ⟨hfirst, fun _ => List.mem_singleton_self _⟩

theorem Quiet.callbacks_eq_zero (h : Quiet new) (r : RuleId) : callbacks r new = 0 :=
  List.count_eq_zero.mpr fun hmem => h _ hmem rfl

theorem callbacks_append (r : RuleId) :
    callbacks r (new ++ new') = callbacks r new + callbacks r new' := List.count_append

/-- A rule without a descriptor is called while it is interested, and in the end it is not. -/
structure Fires (r : RuleId) (left : Nat) (m : Memory σ) (new : List Call) (m' : Memory σ) :
    Prop where
  passes : Passes [r] [r] m new m'
  asked : Asked new
  count : callbacks r new ≤ left
  satisfied : ⟨r, .interest false⟩ ∈ new

theorem fires_idle {r : BasicRule σ} (hidle : r.interest m.world = false) (left : Nat) :
    Fires r.id left m [⟨r.id, .interest false⟩] (m.ask r) := by
  have hquiet : Quiet [⟨r.id, .interest false⟩] := by simp [Quiet]
  refine ⟨hidle ▸ passes_ask r, hquiet.asked, ?_, List.mem_singleton_self _⟩
  rw [hquiet.callbacks_eq_zero]
  exact Nat.zero_le left

theorem fire_spec {names : List String} {r : BasicRule σ} {left : Nat} {fired : Bool}
    (h : fire names r left m = .ok (m', fired)) :
    ∃ new, Fires r.id left m new m' ∧ (fired = false → new = [⟨r.id, .interest false⟩]) ∧
      (fired = true → ⟨r.id, .interest true⟩ ∈ new) := by
  have hidle (left : Nat) (m : Memory σ) (hnot : ¬ r.interest m.world = true) :=
    fires_idle (Bool.eq_false_iff.mpr hnot) left
  induction left generalizing m fired with
  | zero =>
      rw [fire] at h
      split at h
      · cases h
      · next hnot =>
          cases h
          exact ⟨_, hidle 0 m hnot, fun _ => rfl, fun hfired => by cases hfired⟩
  | succ left ih =>
      rw [fire] at h
      split at h
      · next hyes =>
          obtain ⟨m₁, hcall, h⟩ := bind_eq_ok.mp h
          obtain ⟨⟨m₂, again⟩, hrest, h⟩ := bind_eq_ok.mp h
          cases h
          obtain ⟨new, hnew, -⟩ := ih hrest
          have hask := passes_ask (m := m) r
          rw [hyes] at hask
          refine ⟨[⟨r.id, .interest true⟩, ⟨r.id, .callback⟩] ++ new,
            ⟨(hask.trans (passes_callback hcall)).trans hnew.passes,
              asked_append (asked_pair r.id) hnew.asked, ?_,
              List.mem_append_right _ hnew.satisfied⟩, (fun hfired => by cases hfired), by simp⟩
          have hone : callbacks r.id [⟨r.id, .interest true⟩, ⟨r.id, .callback⟩] = 1 := by
            simp [callbacks]
          rw [callbacks_append, hone]
          have := hnew.count
          omega
      · next hnot =>
          cases h
          exact ⟨_, hidle _ m hnot, fun _ => rfl, fun hfired => by cases hfired⟩

/-- What the rules without a descriptor come to: one of them fires, or all have been asked
and none is interested. -/
structure ServesNonFd (rules kept : List RuleId) (m : Memory σ) (new : List Call)
    (m' : Memory σ) (fired : Bool) : Prop where
  passes : Passes rules kept m new m'
  unflagged : ∀ c ∈ new, c.rule ∉ m.cancelRequested
  asked : Asked new
  idle : fired = false → (∀ c ∈ new, c.hook = .interest false) ∧
    ∀ r ∈ kept, ⟨r, .interest false⟩ ∈ new
  busy : fired = true → ∃ r ∈ kept, (∀ c ∈ new, c.hook = .callback → c.rule = r) ∧
    callbacks r new ≤ maxIterations ∧ ⟨r, .interest true⟩ ∈ new ∧ ⟨r, .interest false⟩ ∈ new

theorem servesNonFd_fired {r : RuleId} {rest : List RuleId} (hr : r ∉ rest)
    (hflag : r ∉ m.cancelRequested) (h : Fires r maxIterations m new m')
    (hyes : ⟨r, .interest true⟩ ∈ new) : ServesNonFd (r :: rest) (r :: rest) m new m' true := by
  have hown (c : Call) (hc : c ∈ new) : c.rule = r := List.mem_singleton.mp (h.passes.called c hc)
  have hpass := h.passes.append (Passes.refl rest m') (List.singleton_disjoint.mpr hr)
  rw [List.append_nil] at hpass
  refine ⟨hpass, ?_, h.asked, (fun hfired => by cases hfired), fun _ => ?_⟩
  · intro c hc
    rw [hown c hc]
    exact hflag
  · exact ⟨r, List.mem_cons_self, fun c hc _ => hown c hc, h.count, hyes, h.satisfied⟩

theorem ServesNonFd.cons_idle {r : RuleId} {fired : Bool} (hr : r ∉ rules)
    (hflag : r ∉ m.cancelRequested) (hfirst : Fires r maxIterations m [⟨r, .interest false⟩] m')
    (h : ServesNonFd rules kept m' new m'' fired) :
    ServesNonFd (r :: rules) (r :: kept) m (⟨r, .interest false⟩ :: new) m'' fired where
  passes := hfirst.passes.append h.passes (List.singleton_disjoint.mpr hr)
  unflagged c hc := by
    cases List.mem_cons.mp hc with
    | inl hc => rw [hc]; exact hflag
    | inr hc => exact fun hmem => h.unflagged c hc (hfirst.passes.flags hmem)
  asked := asked_append hfirst.asked h.asked
  idle hfired := by
    obtain ⟨hall, hkept⟩ := h.idle hfired
    refine ⟨List.forall_mem_cons.mpr ⟨rfl, hall⟩, fun r' hr' => ?_⟩
    cases List.mem_cons.mp hr' with
    | inl hsame => rw [hsame]; exact List.mem_cons_self
    | inr hr' => exact List.mem_cons_of_mem _ (hkept r' hr')
  busy hfired := by
    obtain ⟨r', hr', hall, hcount, hyes, hno⟩ := h.busy hfired
    refine ⟨r', List.mem_cons_of_mem _ hr', ?_, ?_, List.mem_cons_of_mem _ hyes,
      List.mem_cons_of_mem _ hno⟩
    · intro c hc hcall
      cases List.mem_cons.mp hc with
      | inl hc => rw [hc] at hcall; cases hcall
      | inr hc => exact hall c hc hcall
    · have hquiet : Quiet [⟨r, .interest false⟩] := by simp [Quiet]
      rw [← List.singleton_append, callbacks_append, hquiet.callbacks_eq_zero, Nat.zero_add]
      exact hcount

theorem serveNonFd_spec {names : List String} {rules kept : List (BasicRule σ)} {fired : Bool}
    (hnodup : (ids rules).Nodup) (h : serveNonFd names rules m = .ok (kept, m', fired)) :
    ∃ new, ServesNonFd (ids rules) (ids kept) m new m' fired := by
  induction rules generalizing m kept with
  | nil =>
      cases h
      exact ⟨[], Passes.refl _ _, (by simp), each_nil _, (fun _ => by simp [ids]), by simp⟩
  | cons r rest ih =>
      obtain ⟨hr, hnodup⟩ := List.nodup_cons.mp hnodup
      rw [serveNonFd] at h
      split at h
      · next hflag =>
          obtain ⟨new, hnew⟩ := ih hnodup h
          have hpass := passes_flagged (List.contains_iff_mem.mp hflag)
          exact ⟨new, hpass.append hnew.passes (List.singleton_disjoint.mpr hr), hnew.unflagged,
            hnew.asked, hnew.idle, hnew.busy⟩
      · next hflag =>
          have hflag : r.id ∉ m.cancelRequested := fun hmem =>
            hflag (List.contains_iff_mem.mpr hmem)
          obtain ⟨⟨m₁, ran⟩, hfire, h⟩ := bind_eq_ok.mp h
          obtain ⟨first, hfirst, hidle, hbusy⟩ := fire_spec hfire
          cases ran with
          | true =>
              cases h
              exact ⟨first, servesNonFd_fired hr hflag hfirst (hbusy rfl)⟩
          | false =>
              obtain ⟨⟨kept', m₂, fired'⟩, hrest, h⟩ := bind_eq_ok.mp h
              cases h
              obtain ⟨new, hnew⟩ := ih hnodup hrest
              rw [hidle rfl] at hfirst
              exact ⟨_, hnew.cons_idle hr hflag hfirst⟩

def polledIds (polled : List (FDRule σ × Events)) : List RuleId := polled.map fun p => p.1.id

theorem fdIds_polled (polled : List (FDRule σ × Events)) :
    fdIds (polled.map Prod.fst) = polledIds polled := by
  rw [fdIds, polledIds, List.map_map]
  rfl

/-- What setting up the descriptors comes to: every rule that is kept has been asked, and what
is polled for it is what it has answered. -/
structure SetsUp (rules : List RuleId) (polled : List (FDRule σ × Events)) (m : Memory σ)
    (new : List Call) (m' : Memory σ) : Prop where
  passes : Passes rules (polledIds polled) m new m'
  unflagged : ∀ c ∈ new, c.rule ∉ m.cancelRequested
  keptUnflagged : ∀ r ∈ polledIds polled, r ∉ m.cancelRequested
  quiet : Quiet new
  answered : ∀ p ∈ polled, ⟨p.1.id, .interest p.2.isSome⟩ ∈ new
  interested : ∀ c ∈ new, c.hook = .interest true → ∃ p ∈ polled, p.2.isSome = true

variable {polled : List (FDRule σ × Events)}

/-- A rule that is dropped before the others are set up. -/
theorem SetsUp.cons_dropped {r : RuleId} {first : List Call} (hr : r ∉ rules)
    (hpass : Passes [r] [] m first m') (hflag : ∀ c ∈ first, c.rule ∉ m.cancelRequested)
    (hquiet : ∀ c ∈ first, c.hook = .cancel) (h : SetsUp rules polled m' new m'') :
    SetsUp (r :: rules) polled m (first ++ new) m'' where
  passes := hpass.append h.passes (List.singleton_disjoint.mpr hr)
  unflagged c hc := by
    cases List.mem_append.mp hc with
    | inl hc => exact hflag c hc
    | inr hc => exact fun hmem => h.unflagged c hc (hpass.flags hmem)
  keptUnflagged r' hr' hmem := h.keptUnflagged r' hr' (hpass.flags hmem)
  quiet c hc := by
    cases List.mem_append.mp hc with
    | inl hc => rw [hquiet c hc]; simp
    | inr hc => exact h.quiet c hc
  answered p hp := List.mem_append_right _ (h.answered p hp)
  interested c hc hyes := by
    cases List.mem_append.mp hc with
    | inl hc => rw [hquiet c hc] at hyes; cases hyes
    | inr hc => exact h.interested c hc hyes

theorem SetsUp.cons_asked {r : FDRule σ} {events : Events} (hr : r.id ∉ rules)
    (hflag : r.id ∉ m.cancelRequested) (hevents : events.isSome = r.interest m.world)
    (h : SetsUp rules polled (m.ask r.toBasicRule) new m') :
    SetsUp (r.id :: rules) ((r, events) :: polled) m
      (⟨r.id, .interest (r.interest m.world)⟩ :: new) m' where
  passes := (passes_ask r.toBasicRule).append h.passes (List.singleton_disjoint.mpr hr)
  unflagged := List.forall_mem_cons.mpr ⟨hflag, h.unflagged⟩
  keptUnflagged := List.forall_mem_cons.mpr ⟨hflag, h.keptUnflagged⟩
  quiet := List.forall_mem_cons.mpr ⟨(by simp), h.quiet⟩
  answered := List.forall_mem_cons.mpr ⟨(by rw [hevents]; exact List.mem_cons_self),
    fun p hp => List.mem_cons_of_mem _ (h.answered p hp)⟩
  interested c hc hyes := by
    cases List.mem_cons.mp hc with
    | inl hc =>
        rw [hc] at hyes
        exact ⟨_, List.mem_cons_self, hevents.trans (by simpa using hyes)⟩
    | inr hc =>
        obtain ⟨p, hp, hsome⟩ := h.interested c hc hyes
        exact ⟨p, List.mem_cons_of_mem _ hp, hsome⟩

theorem setUp_spec {rules : List (FDRule σ)} (hnodup : (fdIds rules).Nodup)
    (h : setUp rules m = .ok (polled, m')) : ∃ new, SetsUp (fdIds rules) polled m new m' := by
  induction rules generalizing m polled with
  | nil =>
      cases h
      exact ⟨[], Passes.refl _ _, (by simp), (by simp [polledIds]), (by simp [Quiet]), (by simp),
        by simp⟩
  | cons r rest ih =>
      obtain ⟨hr, hnodup⟩ := List.nodup_cons.mp hnodup
      rw [setUp] at h
      split at h
      · next hflag =>
          obtain ⟨new, hnew⟩ := ih hnodup h
          have hpass := passes_flagged (List.contains_iff_mem.mp hflag)
          exact ⟨new, hnew.cons_dropped hr hpass (by simp) (by simp)⟩
      · next hflag =>
          have hflag : r.id ∉ m.cancelRequested := fun hmem =>
            hflag (List.contains_iff_mem.mpr hmem)
          split at h
          · obtain ⟨m₁, hcancel, h⟩ := bind_eq_ok.mp h
            obtain ⟨new, hnew⟩ := ih hnodup h
            exact ⟨_, hnew.cons_dropped hr (passes_cancelled hcancel) (by simpa using hflag)
              (by simp)⟩
          · obtain ⟨⟨polled', m₁⟩, hrest, h⟩ := bind_eq_ok.mp h
            cases h
            obtain ⟨new, hnew⟩ := ih hnodup hrest
            refine ⟨_, hnew.cons_asked hr hflag ?_⟩
            cases r.interest m.world <;> rfl

theorem passes_recovered {r : FDRule σ} {answer : Bool} (h : m.tryRecover r = .ok (m', answer)) :
    Passes [r.id] [r.id] m [⟨r.id, .recover answer⟩] m' := by
  obtain ⟨left, -, hleft⟩ := bind_eq_ok.mp h
  cases hleft
  exact passes_hook (by simp) rfl (List.subset_append_left _ _)

/-- An error asks the rule to recover, where it may, and ends it where it does not. -/
theorem handleError_spec {socketError : SocketError} {revents : Revents} {r : FDRule σ}
    {kept : Bool} (h : handleError socketError revents r m = .ok (m', kept)) :
    ∃ new, Passes [r.id] (if kept then [r.id] else []) m new m' ∧ Quiet new := by
  obtain ⟨⟨m₁, recovered⟩, htry, h⟩ := bind_eq_ok.mp h
  have hfirst : ∃ first, Passes [r.id] [r.id] m first m₁ ∧ Quiet first := by
    rw [recovers] at htry
    split at htry
    · cases htry
      exact ⟨[], Passes.refl _ _, by simp [Quiet]⟩
    · exact ⟨_, passes_recovered htry, by simp [Quiet]⟩
  obtain ⟨first, hpass, hquiet⟩ := hfirst
  have hended (hend : m₁.call r.id .cancel r.cancel = .ok m') :
      ∃ new, Passes [r.id] [] m new m' ∧ Quiet new := by
    refine ⟨_, hpass.trans (passes_cancelled hend), ?_⟩
    intro c hc
    cases List.mem_append.mp hc with
    | inl hc => exact hquiet c hc
    | inr hc => rw [List.mem_singleton.mp hc]; simp
  cases recovered with
  | true =>
      cases h
      exact ⟨first, hpass, hquiet⟩
  | false =>
      cases socketError with
      | failed errno => cases h
      | unexpectedLength optlen => cases h
      | notSocket | pending error =>
          obtain ⟨m₂, hcancel, h⟩ := bind_eq_ok.mp h
          cases h
          exact hended hcancel

theorem serve_spec {names : List String} {r : FDRule σ} (h : serve names r m = .ok m') :
    ∃ new, Passes [r.id] [r.id] m new m' ∧ callbacks r.id new = 1 := by
  obtain ⟨m₁, hcall, h⟩ := bind_eq_ok.mp h
  have hpass := passes_callback hcall
  split at h
  · split at h
    · cases h
    · cases h
      refine ⟨_, hpass.trans (passes_ask r.toBasicRule), ?_⟩
      simp [callbacks]
  · cases h
    exact ⟨_, hpass, by simp [callbacks]⟩

/-- What going through the polled rules comes to: one callback at most, of a rule that was
polled for its event. -/
structure ServesPolled (polled : List (FDRule σ × Events)) (kept : List RuleId) (m : Memory σ)
    (new : List Call) (m' : Memory σ) : Prop where
  passes : Passes (polledIds polled) kept m new m'
  served : Quiet new ∨ ∃ p ∈ polled, p.2.isSome = true ∧ callbacks p.1.id new = 1 ∧
    ∀ c ∈ new, c.hook = .callback → c.rule = p.1.id

theorem servesPolled_served {r : FDRule σ} {events : Events} (hr : r.id ∉ polledIds polled)
    (hsome : events.isSome = true) (hpass : Passes [r.id] [r.id] m new m')
    (hone : callbacks r.id new = 1) :
    ServesPolled ((r, events) :: polled) (r.id :: polledIds polled) m new m' := by
  have hall := hpass.append (Passes.refl (polledIds polled) m') (List.singleton_disjoint.mpr hr)
  rw [List.append_nil] at hall
  refine ⟨hall, Or.inr ⟨_, List.mem_cons_self, hsome, hone, fun c hc _ => ?_⟩⟩
  exact List.mem_singleton.mp (hpass.called c hc)

theorem ServesPolled.cons_quiet {r : FDRule σ} {events : Events} {one : List RuleId}
    {first : List Call} (hr : r.id ∉ polledIds polled) (hpass : Passes [r.id] one m first m')
    (hquiet : Quiet first) (h : ServesPolled polled kept m' new m'') :
    ServesPolled ((r, events) :: polled) (one ++ kept) m (first ++ new) m'' where
  passes := hpass.append h.passes (List.singleton_disjoint.mpr hr)
  served := by
    cases h.served with
    | inl hall =>
        left
        intro c hc
        cases List.mem_append.mp hc with
        | inl hc => exact hquiet c hc
        | inr hc => exact hall c hc
    | inr hone =>
        obtain ⟨p, hp, hsome, hcount, hown⟩ := hone
        refine Or.inr ⟨p, List.mem_cons_of_mem _ hp, hsome, ?_, fun c hc hcall => ?_⟩
        · rw [callbacks_append, hquiet.callbacks_eq_zero, Nat.zero_add, hcount]
        · cases List.mem_append.mp hc with
          | inl hc => exact absurd hcall (hquiet c hc)
          | inr hc => exact hown c hc hcall

theorem servePolled_spec {names : List String} {getsockopt : Nat → SocketError}
    {revents : Nat → Revents} {idx : Nat} {rules : List (FDRule σ)}
    (hnodup : (polledIds polled).Nodup)
    (h : servePolled names getsockopt revents idx polled m = .ok (rules, m')) :
    ∃ new, ServesPolled polled (fdIds rules) m new m' := by
  induction polled generalizing m rules idx with
  | nil =>
      cases h
      exact ⟨[], Passes.refl _ _, Or.inl (by simp [Quiet])⟩
  | cons p rest ih =>
      obtain ⟨r, events⟩ := p
      obtain ⟨hr, hnodup⟩ := List.nodup_cons.mp hnodup
      rw [servePolled] at h
      split at h
      · obtain ⟨⟨m₁, kept⟩, herror, h⟩ := bind_eq_ok.mp h
        obtain ⟨⟨rules', m₂⟩, hrest, h⟩ := bind_eq_ok.mp h
        cases h
        obtain ⟨first, hpass, hquiet⟩ := handleError_spec herror
        obtain ⟨new, hnew⟩ := ih hnodup hrest
        have hall : ServesPolled ((r, events) :: rest) _ m _ _ := hnew.cons_quiet hr hpass hquiet
        cases kept with
        | true => exact ⟨_, hall⟩
        | false => exact ⟨_, hall⟩
      · split at h
        · obtain ⟨m₁, hcancel, h⟩ := bind_eq_ok.mp h
          obtain ⟨new, hnew⟩ := ih hnodup h
          exact ⟨_, hnew.cons_quiet hr (passes_cancelled hcancel) (by simp [Quiet])⟩
        · split at h
          · next hready =>
              obtain ⟨m₁, hserve, h⟩ := bind_eq_ok.mp h
              cases h
              obtain ⟨new, hpass, hone⟩ := serve_spec hserve
              have hsome : events.isSome = true := by
                cases events with
                | none => cases hready
                | some direction => rfl
              have hall := servesPolled_served hr hsome hpass hone
              rw [← fdIds_polled] at hall
              exact ⟨_, hall⟩
          · obtain ⟨⟨rules', m₁⟩, hrest, h⟩ := bind_eq_ok.mp h
            cases h
            obtain ⟨new, hnew⟩ := ih hnodup hrest
            exact ⟨_, hnew.cons_quiet hr (Passes.refl [r.id] m) (by simp [Quiet])⟩

end EventLoop
end Minnow
