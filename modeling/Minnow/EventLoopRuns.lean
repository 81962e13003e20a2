import Minnow.EventLoopCalls
import Mathlib.Data.List.Nodup

/-!
Runs of an event loop: rules are added, handles cancel them, other parts of the program
change its data, and `wait_next_event` is called, with any hooks on the data and the handles,
and whatever the kernel answers. A throw ends the run.
-/

namespace Minnow
open Throwing Histories
namespace EventLoop

variable {σ : Type} {e e' : EventLoop σ} {new new' : List Call}

/-- The rules of the loop. -/
def registered (e : EventLoop σ) : List RuleId := ids e.nonFdRules ++ fdIds e.fdRules

/-- The callbacks of one call: they are of one rule, which has said before that it is
interested. -/
structure Serves (e : EventLoop σ) (new : List Call) : Prop where
  asked : Asked new
  one : ∃ r, ∀ c ∈ new, c.hook = .callback → c.rule = r
  nonFd : ∀ r ∈ ids e.nonFdRules, callbacks r new ≤ maxIterations
  fd : ∀ r ∈ fdIds e.fdRules, callbacks r new ≤ 1

theorem Quiet.serves (h : Quiet new) (e : EventLoop σ) : Serves e new where
  asked := h.asked
  one := ⟨0, fun c hc hcall => absurd hcall (h c hc)⟩
  nonFd r _ := (h.callbacks_eq_zero r).trans_le (Nat.zero_le _)
  fd r _ := (h.callbacks_eq_zero r).trans_le (Nat.zero_le _)

theorem Quiet.append (h : Quiet new) (k : Quiet new') : Quiet (new ++ new') := by
  intro c hc
  cases List.mem_append.mp hc with
  | inl hc => exact h c hc
  | inr hc => exact k c hc

/-- A rule that has not been called has no callbacks. -/
theorem callbacks_eq_zero {r : RuleId} (h : ∀ c ∈ new, c.hook = .callback → c.rule ≠ r) :
    callbacks r new = 0 := List.count_eq_zero.mpr fun hmem => h _ hmem rfl rfl

/-- A call of `wait_next_event` that returns, by the hooks it calls. -/
structure Waits (e : EventLoop σ) (result : Result) (e' : EventLoop σ) (new : List Call) :
    Prop where
  passes : Passes e.registered e'.registered e.memory new e'.memory
  sub : (fdIds e'.fdRules).Sublist (fdIds e.fdRules)
  unflagged : ∀ c ∈ new, c.rule ∉ e.memory.cancelRequested
  serves : Serves e new
  exit : result = .Exit ↔ ∀ c ∈ new, c.hook ≠ .interest true
  declined : result = .Exit → ∀ r ∈ e'.registered, ⟨r, .interest false⟩ ∈ new
  nextRule : e'.nextRule = e.nextRule

variable {kept : List (BasicRule σ)} {memory memory' memory'' : Memory σ}
  {polled : List (FDRule σ × Events)} {rules : List (FDRule σ)}

theorem waits_fired (hnodup : e.registered.Nodup)
    (h : ServesNonFd (ids e.nonFdRules) (ids kept) e.memory new memory true) :
    Waits e .Success { e with nonFdRules := kept, memory } new := by
  obtain ⟨-, -, hapart⟩ := List.nodup_append'.mp hnodup
  obtain ⟨r, hr, hown, hcount, hyes, -⟩ := h.busy rfl
  have hpass := h.passes.append (Passes.refl (fdIds e.fdRules) memory) hapart
  rw [List.append_nil] at hpass
  have hmem := h.passes.sub.subset hr
  refine ⟨hpass, List.Sublist.refl _, h.unflagged, ⟨h.asked, ⟨r, hown⟩, ?_, ?_⟩, ?_,
    (fun hexit => by cases hexit), rfl⟩
  · intro r' _
    by_cases hsame : r' = r
    · rw [hsame]
      exact hcount
    · refine (callbacks_eq_zero fun c hc hcall => ?_).trans_le (Nat.zero_le _)
      rw [hown c hc hcall]
      exact Ne.symm hsame
  · intro r' hr'
    refine (callbacks_eq_zero fun c hc hcall hsame => ?_).trans_le (Nat.zero_le _)
    rw [hown c hc hcall] at hsame
    exact hapart hmem (hsame ▸ hr')
  · constructor
    · exact fun hexit => by cases hexit
    · exact fun hnone => absurd rfl (hnone _ hyes)

/-- The rules without a descriptor have been asked for nothing, and the others set up. -/
structure Polls (e : EventLoop σ) (kept : List (BasicRule σ)) (polled : List (FDRule σ × Events))
    (new : List Call) (memory : Memory σ) : Prop where
  passes : Passes e.registered (ids kept ++ polledIds polled) e.memory new memory
  unflagged : ∀ c ∈ new, c.rule ∉ e.memory.cancelRequested
  fdUnflagged : ∀ r ∈ polledIds polled, r ∉ e.memory.cancelRequested
  sub : (polledIds polled).Sublist (fdIds e.fdRules)
  quiet : Quiet new
  idle : ∀ r ∈ ids kept, ⟨r, .interest false⟩ ∈ new
  answered : ∀ p ∈ polled, ⟨p.1.id, .interest p.2.isSome⟩ ∈ new
  interested : ∀ c ∈ new, c.hook = .interest true → ∃ p ∈ polled, p.2.isSome = true

theorem polls_setUp (hnodup : e.registered.Nodup)
    (h : ServesNonFd (ids e.nonFdRules) (ids kept) e.memory new memory false)
    (k : SetsUp (fdIds e.fdRules) polled memory new' memory') :
    Polls e kept polled (new ++ new') memory' := by
  obtain ⟨-, -, hapart⟩ := List.nodup_append'.mp hnodup
  obtain ⟨hall, hkept⟩ := h.idle rfl
  refine ⟨h.passes.append k.passes hapart, ?_, ?_, k.passes.sub, Quiet.append ?_ k.quiet, ?_, ?_,
    ?_⟩
  · intro c hc
    cases List.mem_append.mp hc with
    | inl hc => exact h.unflagged c hc
    | inr hc => exact fun hmem => k.unflagged c hc (h.passes.flags hmem)
  · exact fun r hr hmem => k.keptUnflagged r hr (h.passes.flags hmem)
  · intro c hc
    rw [hall c hc]
    simp
  · exact fun r hr => List.mem_append_left _ (hkept r hr)
  · exact fun p hp => List.mem_append_right _ (k.answered p hp)
  · intro c hc hyes
    cases List.mem_append.mp hc with
    | inl hc =>
        rw [hall c hc] at hyes
        cases hyes
    | inr hc => exact k.interested c hc hyes

/-- The loop once its rules have been set up. -/
def setUpWith (e : EventLoop σ) (kept : List (BasicRule σ)) (polled : List (FDRule σ × Events))
    (memory : Memory σ) : EventLoop σ :=
  { e with nonFdRules := kept, fdRules := polled.map Prod.fst, memory }

theorem fdIds_setUpWith : fdIds (e.setUpWith kept polled memory).fdRules = polledIds polled :=
  fdIds_polled polled

theorem registered_setUpWith : (e.setUpWith kept polled memory).registered =
    ids kept ++ polledIds polled := congrArg (ids kept ++ ·) fdIds_setUpWith

theorem Polls.exits (h : Polls e kept polled new memory)
    (hnone : ∀ p ∈ polled, p.2.isSome = false) :
    Waits e .Exit (e.setUpWith kept polled memory) new := by
  refine ⟨registered_setUpWith ▸ h.passes, fdIds_setUpWith ▸ h.sub, h.unflagged,
    h.quiet.serves e, ?_, ?_, rfl⟩
  · refine ⟨fun _ c hc hyes => ?_, fun _ => rfl⟩
    obtain ⟨p, hp, hsome⟩ := h.interested c hc hyes
    rw [hnone p hp] at hsome
    cases hsome
  · intro _ r hr
    rw [registered_setUpWith] at hr
    cases List.mem_append.mp hr with
    | inl hr => exact h.idle r hr
    | inr hr =>
        obtain ⟨p, hp, rfl⟩ := List.mem_map.mp hr
        rw [← hnone p hp]
        exact h.answered p hp

theorem Polls.timesOut (h : Polls e kept polled new memory) {p : FDRule σ × Events}
    (hp : p ∈ polled) (hsome : p.2.isSome = true) :
    Waits e .Timeout (e.setUpWith kept polled memory) new := by
  refine ⟨registered_setUpWith ▸ h.passes, fdIds_setUpWith ▸ h.sub, h.unflagged,
    h.quiet.serves e, ?_, (fun hexit => by cases hexit), rfl⟩
  exact ⟨(fun hexit => by cases hexit),
    fun hnone => absurd (congrArg Hook.interest hsome) (hnone _ (h.answered p hp))⟩

theorem ServesPolled.callbacks_le {kept : List RuleId} {memory memory' : Memory σ}
    (h : ServesPolled polled kept memory new memory') (r : RuleId) : callbacks r new ≤ 1 := by
  cases h.served with
  | inl hquiet => exact (hquiet.callbacks_eq_zero r).trans_le (Nat.zero_le _)
  | inr hserved =>
      obtain ⟨p, -, -, hcount, hown⟩ := hserved
      by_cases hsame : r = p.1.id
      · rw [hsame, hcount]
      · refine (callbacks_eq_zero fun c hc hcall => ?_).trans_le (Nat.zero_le _)
        rw [hown c hc hcall]
        exact Ne.symm hsame

theorem Polls.serves {kept' : List RuleId} (h : Polls e kept polled new memory)
    (k : ServesPolled polled kept' memory new' memory') : Serves e (new ++ new') := by
  have hone (r : RuleId) : callbacks r (new ++ new') ≤ 1 := by
    rw [callbacks_append, h.quiet.callbacks_eq_zero, Nat.zero_add]
    exact k.callbacks_le r
  cases k.served with
  | inl hquiet => exact (h.quiet.append hquiet).serves e
  | inr hserved =>
      obtain ⟨p, hp, hsome, -, hown⟩ := hserved
      refine ⟨each_append.mpr ⟨h.quiet.asked, ?_⟩, ⟨p.1.id, ?_⟩,
        fun r _ => (hone r).trans (by decide), fun r _ => hone r⟩
      · rintro pre c post rfl hcall
        have hanswered := h.answered p hp
        rw [hsome, ← hown c (by simp) hcall] at hanswered
        exact List.mem_append_left _ hanswered
      · intro c hc hcall
        cases List.mem_append.mp hc with
        | inl hc => exact absurd hcall (h.quiet c hc)
        | inr hc => exact hown c hc hcall

theorem Polls.waits (hnodup : e.registered.Nodup) (h : Polls e kept polled new memory)
    {p : FDRule σ × Events} (hp : p ∈ polled) (hsome : p.2.isSome = true)
    (k : ServesPolled polled (fdIds rules) memory new' memory') :
    Waits e .Success { e with nonFdRules := kept, fdRules := rules, memory := memory' }
      (new ++ new') := by
  obtain ⟨-, -, hapart⟩ := List.nodup_append'.mp (h.passes.sub.nodup hnodup)
  have hstay := (Passes.refl (ids kept) memory).append k.passes hapart
  refine ⟨h.passes.trans hstay, k.passes.sub.trans h.sub, ?_, h.serves k, ?_,
    (fun hexit => by cases hexit), rfl⟩
  · intro c hc
    cases List.mem_append.mp hc with
    | inl hc => exact h.unflagged c hc
    | inr hc => exact h.fdUnflagged c.rule (k.passes.called c hc)
  · exact ⟨(fun hexit => by cases hexit), fun hnone => absurd (congrArg Hook.interest hsome)
      (hnone _ (List.mem_append_left _ (h.answered p hp)))⟩

theorem waitNextEvent_spec {kernel : Kernel} {result : Result} (hnodup : e.registered.Nodup)
    (h : e.waitNextEvent kernel = .ok (result, e')) : ∃ new, Waits e result e' new := by
  obtain ⟨hnonFd, hfd, -⟩ := List.nodup_append'.mp hnodup
  obtain ⟨⟨kept, memory, fired⟩, hserve, h⟩ := bind_eq_ok.mp h
  obtain ⟨new, hnew⟩ := serveNonFd_spec hnonFd hserve
  cases fired with
  | true =>
      cases h
      exact ⟨new, waits_fired hnodup hnew⟩
  | false =>
      obtain ⟨⟨polled, memory'⟩, hsetUp, h⟩ := bind_eq_ok.mp h
      obtain ⟨more, hmore⟩ := setUp_spec hfd hsetUp
      have hpolls := polls_setUp hnodup hnew hmore
      dsimp only at h
      split at h
      · next hnone =>
          cases h
          refine ⟨_, hpolls.exits fun p hp => ?_⟩
          have := List.all_eq_true.mp hnone p hp
          cases hevents : p.2 with
          | none => rfl
          | some direction => rw [hevents] at this; cases this
      · next hsome =>
          simp only [List.all_eq_true, not_forall] at hsome
          obtain ⟨p, hp, hsome⟩ := hsome
          have hsome : p.2.isSome = true := by
            cases hevents : p.2 with
            | none => rw [hevents] at hsome; exact absurd rfl hsome
            | some direction => rfl
          split at h
          · cases h
          · split at h
            · cases h
              exact ⟨_, hpolls.timesOut hp hsome⟩
            · obtain ⟨⟨rules, memory''⟩, hpolled, h⟩ := bind_eq_ok.mp h
              cases h
              have hpolledNodup := (hpolls.sub.nodup hfd)
              obtain ⟨last, hlast⟩ := servePolled_spec hpolledNodup hpolled
              exact ⟨_, hpolls.waits hnodup hp hsome hlast⟩

inductive Input (σ : Type) where
  | addCategory (name : String)
  | addFDRule (categoryId : Nat) (rule : RuleId → FDRule σ)
  | addRule (categoryId : Nat) (rule : RuleId → BasicRule σ)
  | cancel (rule : RuleId)
  | change (f : σ → σ)
  | wait (kernel : Kernel)

def step (e : EventLoop σ) : Input σ → Except Exception (EventLoop σ)
  | .addCategory name => do return (← e.addCategory name).2
  | .addFDRule categoryId rule => do return (← e.addFDRule categoryId rule).2
  | .addRule categoryId rule => do return (← e.addRule categoryId rule).2
  | .cancel rule => .ok (e.cancelRule rule)
  | .change f => .ok { e with memory := { e.memory with world := f e.memory.world } }
  | .wait kernel => do return (← e.waitNextEvent kernel).2

def start (world : σ) : EventLoop σ := { memory := { world } }

/-- What holds of a loop after every run. -/
structure Tidy (e : EventLoop σ) : Prop where
  nodup : e.registered.Nodup
  sorted : (fdIds e.fdRules).Pairwise (· < ·)
  fresh : ∀ r ∈ e.registered, r < e.nextRule
  known : ∀ c ∈ e.memory.calls, c.rule < e.nextRule
  uncancelled : ∀ r ∈ e.registered, ⟨r, .cancel⟩ ∉ e.memory.calls
  ended : ∀ r < e.nextRule, r ∉ e.registered →
    r ∈ e.memory.cancelRequested ∨ ⟨r, .cancel⟩ ∈ e.memory.calls
  cancelLast : CancelLast e.memory.calls

theorem tidy_start (world : σ) : Tidy (start world) where
  nodup := List.nodup_nil
  sorted := List.Pairwise.nil
  fresh := fun _ hr => absurd hr List.not_mem_nil
  known := fun _ hc => absurd hc List.not_mem_nil
  uncancelled := fun _ _ => List.not_mem_nil
  ended := fun r hr => absurd hr (Nat.not_lt_zero r)
  cancelLast := each_nil _

/-- A rule with a new number joins the others. -/
theorem Tidy.add (h : Tidy e) (hmemory : e'.memory = e.memory)
    (hnext : e'.nextRule = e.nextRule + 1) (hsorted : (fdIds e'.fdRules).Pairwise (· < ·))
    (hrules : e'.registered.Perm (e.nextRule :: e.registered)) : Tidy e' where
  sorted := hsorted
  nodup := by
    rw [hrules.nodup_iff, List.nodup_cons]
    exact ⟨fun hmem => Nat.lt_irrefl _ (h.fresh _ hmem), h.nodup⟩
  fresh r hr := by
    rw [hnext]
    cases List.mem_cons.mp (hrules.subset hr) with
    | inl hsame => exact hsame ▸ Nat.lt_succ_self e.nextRule
    | inr hr => exact Nat.lt_succ_of_lt (h.fresh r hr)
  known c hc := by
    rw [hnext]
    exact Nat.lt_succ_of_lt (h.known c (hmemory ▸ hc))
  uncancelled r hr := by
    rw [hmemory]
    cases List.mem_cons.mp (hrules.subset hr) with
    | inl hsame =>
        rw [hsame]
        exact fun hmem => Nat.lt_irrefl _ (h.known _ hmem)
    | inr hr => exact h.uncancelled r hr
  ended r hr hnot := by
    rw [hmemory]
    rw [hrules.mem_iff, List.mem_cons, not_or] at hnot
    exact h.ended r (Nat.lt_of_le_of_ne (Nat.lt_succ_iff.mp (hr.trans_eq hnext)) hnot.1) hnot.2
  cancelLast := by
    rw [hmemory]
    exact h.cancelLast

theorem Tidy.wait {result : Result} (h : Tidy e) (k : Waits e result e' new) : Tidy e' where
  sorted := h.sorted.sublist k.sub
  nodup := k.passes.sub.nodup h.nodup
  fresh r hr := by
    rw [k.nextRule]
    exact h.fresh r (k.passes.sub.subset hr)
  known c hc := by
    rw [k.nextRule]
    rw [k.passes.calls] at hc
    cases List.mem_append.mp hc with
    | inl hc => exact h.known c hc
    | inr hc => exact h.fresh c.rule (k.passes.called c hc)
  uncancelled r hr := by
    rw [k.passes.calls, List.mem_append, not_or]
    exact ⟨h.uncancelled r (k.passes.sub.subset hr), k.passes.uncancelled r hr⟩
  ended r hr hnot := by
    rw [k.passes.calls, List.mem_append]
    rw [k.nextRule] at hr
    by_cases hbefore : r ∈ e.registered
    · exact (k.passes.dropped r hbefore hnot).imp_right Or.inr
    · exact (h.ended r hr hbefore).imp (fun hflag => k.passes.flags hflag) Or.inl
  cancelLast := by
    rw [k.passes.calls]
    exact cancelLast_append h.cancelLast k.passes.cancelLast fun c hc =>
      h.uncancelled c.rule (k.passes.called c hc)

theorem addFDRule_ok {categoryId rule' : Nat} {rule : RuleId → FDRule σ}
    (h : e.addFDRule categoryId rule = .ok (rule', e')) : e'.memory = e.memory ∧
      e'.nextRule = e.nextRule + 1 ∧ e'.nonFdRules = e.nonFdRules ∧
      fdIds e'.fdRules = fdIds e.fdRules ++ [e.nextRule] := by
  rw [addFDRule, guard_eq_ok] at h
  cases h.2
  exact ⟨rfl, rfl, rfl, List.map_append⟩

theorem addRule_ok {categoryId rule' : Nat} {rule : RuleId → BasicRule σ}
    (h : e.addRule categoryId rule = .ok (rule', e')) : e'.memory = e.memory ∧
      e'.nextRule = e.nextRule + 1 ∧ e'.fdRules = e.fdRules ∧
      ids e'.nonFdRules = ids e.nonFdRules ++ [e.nextRule] := by
  rw [addRule, guard_eq_ok] at h
  cases h.2
  exact ⟨rfl, rfl, rfl, List.map_append⟩

theorem Tidy.addFDRule {categoryId rule' : Nat} {rule : RuleId → FDRule σ} (htidy : Tidy e)
    (h : e.addFDRule categoryId rule = .ok (rule', e')) : Tidy e' := by
  obtain ⟨hmemory, hnext, hnonFd, hfd⟩ := addFDRule_ok h
  refine htidy.add hmemory hnext ?_ ?_
  · rw [hfd, List.pairwise_append]
    refine ⟨htidy.sorted, List.pairwise_singleton _ _, fun r hr r' hr' => ?_⟩
    rw [List.mem_singleton.mp hr']
    exact htidy.fresh r (List.mem_append_right _ hr)
  · rw [registered, hnonFd, hfd, ← List.append_assoc]
    exact List.perm_append_singleton _ _

theorem Tidy.addRule {categoryId rule' : Nat} {rule : RuleId → BasicRule σ} (htidy : Tidy e)
    (h : e.addRule categoryId rule = .ok (rule', e')) : Tidy e' := by
  obtain ⟨hmemory, hnext, hfd, hnonFd⟩ := addRule_ok h
  refine htidy.add hmemory hnext (hfd ▸ htidy.sorted) ?_
  rw [registered, hnonFd, hfd, List.append_assoc, List.singleton_append]
  exact List.perm_middle

theorem Tidy.addCategory {categoryId : Nat} {name : String} (htidy : Tidy e)
    (h : e.addCategory name = .ok (categoryId, e')) : Tidy e' := by
  rw [EventLoop.addCategory, guard_eq_ok] at h
  cases h.2
  exact ⟨htidy.nodup, htidy.sorted, htidy.fresh, htidy.known, htidy.uncancelled, htidy.ended,
    htidy.cancelLast⟩

theorem Tidy.addNamedFDRule {name : String} {rule : RuleId → FDRule σ} (htidy : Tidy e)
    (h : e.addNamedFDRule name rule = .ok e') : Tidy e' := by
  obtain ⟨⟨categoryId, e₁⟩, hcategory, h⟩ := bind_eq_ok.mp h
  obtain ⟨⟨rule', e₂⟩, hrule, h⟩ := bind_eq_ok.mp h
  cases h
  exact (htidy.addCategory hcategory).addFDRule hrule

theorem Tidy.change (htidy : Tidy e) (world : σ) :
    Tidy { e with memory := { e.memory with world } } :=
  ⟨htidy.nodup, htidy.sorted, htidy.fresh, htidy.known, htidy.uncancelled, htidy.ended,
    htidy.cancelLast⟩

theorem tidy_step (h : Tidy e) {input : Input σ} (hstep : e.step input = .ok e') : Tidy e' := by
  cases input with
  | addCategory name =>
      obtain ⟨⟨categoryId, e₁⟩, hadd, hstep⟩ := bind_eq_ok.mp hstep
      cases hstep
      exact h.addCategory hadd
  | addFDRule categoryId rule =>
      obtain ⟨⟨rule', e₁⟩, hadd, hstep⟩ := bind_eq_ok.mp hstep
      cases hstep
      exact h.addFDRule hadd
  | addRule categoryId rule =>
      obtain ⟨⟨rule', e₁⟩, hadd, hstep⟩ := bind_eq_ok.mp hstep
      cases hstep
      exact h.addRule hadd
  | cancel rule =>
      cases hstep
      refine ⟨h.nodup, h.sorted, h.fresh, h.known, h.uncancelled, fun r hr hnot => ?_,
        h.cancelLast⟩
      exact (h.ended r hr hnot).imp_left (List.mem_append_left _)
  | change f =>
      cases hstep
      exact h.change _
  | wait kernel =>
      obtain ⟨⟨result, e₁⟩, hwait, hstep⟩ := bind_eq_ok.mp hstep
      cases hstep
      obtain ⟨new, hnew⟩ := waitNextEvent_spec h.nodup hwait
      exact h.wait hnew

theorem tidy_run {world : σ} {inputs : List (Input σ)}
    (h : attempt step (start world) inputs = .ok e) : Tidy e :=
  attempt_invariant (tidy_start world) (fun _ _ _ _ hs hstep => tidy_step hs hstep) h

theorem CancelLast.count_le {calls : List Call} (h : CancelLast calls) (r : RuleId) :
    calls.count ⟨r, .cancel⟩ ≤ 1 := by
  induction calls using List.reverseRecOn with
  | nil => exact Nat.zero_le 1
  | append_singleton calls c ih =>
      obtain ⟨hcalls, hlast⟩ := each_concat.mp h
      rw [List.count_append, List.count_singleton]
      split
      · next hsame =>
          rw [eq_of_beq hsame] at hlast
          rw [List.count_eq_zero.mpr hlast]
      · exact ih hcalls

/-- Whatever the hooks do to the data and the handles, and whatever the kernel answers: a rule
that is still registered has not had its `cancel` hook called; one that is not had its handle
cancelled, or `cancel` called, once, and nothing of it since. -/
theorem rules_end_once {world : σ} {inputs : List (Input σ)}
    (h : attempt step (start world) inputs = .ok e) :
    (∀ r < e.nextRule, if r ∈ e.registered then ⟨r, .cancel⟩ ∉ e.memory.calls
      else r ∈ e.memory.cancelRequested ∨ e.memory.calls.count ⟨r, .cancel⟩ = 1) ∧
    ∀ pre c post, e.memory.calls = pre ++ c :: post → ⟨c.rule, .cancel⟩ ∉ pre := by
  have htidy := tidy_run h
  refine ⟨fun r hr => ?_, htidy.cancelLast⟩
  split
  · next hmem => exact htidy.uncancelled r hmem
  · next hnot =>
      refine (htidy.ended r hr hnot).imp_right fun hcancel => ?_
      have hpos := List.count_pos_iff.mpr hcancel
      have := htidy.cancelLast.count_le r
      omega

/-- A rule that reads until the count is zero. -/
def countdown (id : RuleId) : FDRule Nat where
  id
  categoryId := 0
  fd n := { readCount := UInt32.ofNat n }
  direction := .In
  callback n := .ok (n - 1, [])
  interest n := n != 0
  cancel := FDRule.cancelNothing
  recover := FDRule.neverRecover

/-- A kernel that has everything ready. -/
def allReady : Kernel where
  poll := .ok fun _ => { pollin := true, pollout := true }
  getsockopt _ := .pending 0

theorem rules_end_once_hangup :
    let inputs : List (Input Nat) := [.addCategory "count", .addFDRule 0 countdown, .wait allReady,
      .wait { allReady with poll := .ok fun _ => { pollerr := true } }]
    ∃ e, attempt step (start 2) inputs = .ok e ∧ 0 ∉ e.registered ∧
      (0 ∈ e.memory.cancelRequested ∨ e.memory.calls.count ⟨0, .cancel⟩ = 1) := by
  intro inputs
  refine ⟨_, rfl, by decide, ?_⟩
  have hend := (@rules_end_once Nat _ 2 inputs rfl).1 0 (by decide)
  rwa [if_neg (by decide)] at hend

/-- What a step calls is of rules that have not been cancelled before it. -/
theorem step_calls (h : Tidy e) {input : Input σ} (hstep : e.step input = .ok e') :
    e.memory.cancelRequested ⊆ e'.memory.cancelRequested ∧
      ∃ new, e'.memory.calls = e.memory.calls ++ new ∧
        ∀ c ∈ new, c.rule ∉ e.memory.cancelRequested := by
  have hquiet (hmemory : e'.memory = e.memory) : e.memory.cancelRequested ⊆
      e'.memory.cancelRequested ∧ ∃ new, e'.memory.calls = e.memory.calls ++ new ∧
        ∀ c ∈ new, c.rule ∉ e.memory.cancelRequested := by
    rw [hmemory]
    exact ⟨fun _ hr => hr, [], (List.append_nil _).symm, by simp⟩
  cases input with
  | addCategory name =>
      obtain ⟨⟨categoryId, e₁⟩, hadd, hstep⟩ := bind_eq_ok.mp hstep
      cases hstep
      rw [addCategory, guard_eq_ok] at hadd
      cases hadd.2
      exact hquiet rfl
  | addFDRule categoryId rule =>
      obtain ⟨⟨rule', e₁⟩, hadd, hstep⟩ := bind_eq_ok.mp hstep
      cases hstep
      exact hquiet (addFDRule_ok hadd).1
  | addRule categoryId rule =>
      obtain ⟨⟨rule', e₁⟩, hadd, hstep⟩ := bind_eq_ok.mp hstep
      cases hstep
      exact hquiet (addRule_ok hadd).1
  | cancel rule =>
      cases hstep
      exact ⟨List.subset_append_left _ _, [], (List.append_nil _).symm, by simp⟩
  | change f =>
      cases hstep
      exact ⟨fun _ hr => hr, [], (List.append_nil _).symm, by simp⟩
  | wait kernel =>
      obtain ⟨⟨result, e₁⟩, hwait, hstep⟩ := bind_eq_ok.mp hstep
      cases hstep
      obtain ⟨new, hnew⟩ := waitNextEvent_spec h.nodup hwait
      exact ⟨hnew.passes.flags, new, hnew.passes.calls, hnew.unflagged⟩

/-- Once its handle has been cancelled nothing of a rule is called, not even `cancel`. -/
theorem cancelled_rule_is_silent {world : σ} {before after : List (Input σ)} {rule : RuleId}
    (h : attempt step (start world) before = .ok e)
    (k : attempt step (e.cancelRule rule) after = .ok e') :
    ∃ new, e'.memory.calls = e.memory.calls ++ new ∧ ∀ c ∈ new, c.rule ≠ rule := by
  have hstart : Tidy (e.cancelRule rule) :=
    @tidy_step _ e _ (tidy_run h) (.cancel rule) rfl
  have hend := attempt_invariant
    (P := fun s : EventLoop σ => Tidy s ∧ rule ∈ s.memory.cancelRequested ∧
      ∃ new, s.memory.calls = e.memory.calls ++ new ∧ ∀ c ∈ new, c.rule ≠ rule)
    ⟨hstart, List.mem_append_right _ (List.mem_singleton_self rule), [],
      (List.append_nil _).symm, by simp⟩ ?_ k
  · exact hend.2.2
  · rintro s input - s' ⟨htidy, hflag, new, hnew, hsilent⟩ hstep
    obtain ⟨hflags, more, hmore, hunflagged⟩ := step_calls htidy hstep
    refine ⟨tidy_step htidy hstep, hflags hflag, new ++ more, ?_, fun c hc hsame => ?_⟩
    · rw [hmore, hnew, List.append_assoc]
    · cases List.mem_append.mp hc with
      | inl hc => exact hsilent c hc hsame
      | inr hc => exact hunflagged c hc (hsame ▸ hflag)

theorem cancelled_rule_is_silent_countdown :
    let before : List (Input Nat) := [.addCategory "count", .addFDRule 0 countdown, .wait allReady]
    ∃ e e' : EventLoop Nat, attempt step (start 2) before = .ok e ∧
      attempt step (e.cancelRule 0) [.wait allReady] = .ok e' ∧ e.memory.calls.length = 2 ∧
      ∃ new, e'.memory.calls = e.memory.calls ++ new ∧ ∀ c ∈ new, c.rule ≠ 0 := by
  intro before
  refine ⟨_, _, rfl, rfl, rfl, ?_⟩
  exact @cancelled_rule_is_silent Nat _ _ 2 before [.wait allReady] 0 rfl rfl

/-- A call of `wait_next_event` serves one rule at most, once if it waits for a descriptor,
and only after the rule has said in this call that it is interested. -/
theorem one_rule_is_served {world : σ} {inputs : List (Input σ)} {kernel : Kernel}
    {result : Result} (h : attempt step (start world) inputs = .ok e)
    (hwait : e.waitNextEvent kernel = .ok (result, e')) :
    ∃ new, e'.memory.calls = e.memory.calls ++ new ∧
      (∃ r, ∀ c ∈ new, c.hook = .callback → c.rule = r) ∧
      (∀ r ∈ fdIds e.fdRules, new.count ⟨r, .callback⟩ ≤ 1) ∧
      (∀ r ∈ ids e.nonFdRules, new.count ⟨r, .callback⟩ ≤ 128) ∧
      ∀ pre c post, new = pre ++ c :: post → c.hook = .callback →
        ⟨c.rule, .interest true⟩ ∈ pre := by
  obtain ⟨new, hnew⟩ := waitNextEvent_spec (tidy_run h).nodup hwait
  exact ⟨new, hnew.passes.calls, hnew.serves.one, hnew.serves.fd, hnew.serves.nonFd,
    hnew.serves.asked⟩

theorem one_rule_is_served_of_two :
    let inputs : List (Input Nat) :=
      [.addCategory "count", .addFDRule 0 countdown, .addFDRule 0 countdown]
    ∃ e e' : EventLoop Nat, attempt step (start 2) inputs = .ok e ∧
      e.waitNextEvent allReady = .ok (.Success, e') ∧ e'.memory.world = 1 ∧
      ∃ new, e'.memory.calls = e.memory.calls ++ new ∧
        ∃ r, ∀ c ∈ new, c.hook = .callback → c.rule = r := by
  intro inputs
  refine ⟨_, _, rfl, rfl, rfl, ?_⟩
  obtain ⟨new, hnew, hone, -⟩ := @one_rule_is_served Nat _ _ 2 inputs allReady .Success rfl rfl
  exact ⟨new, hnew, hone⟩

/-- The loop exits exactly when it has found no rule interested: then every rule left has said
that it is not, and no callback has been called. -/
theorem exits_iff_none_interested {world : σ} {inputs : List (Input σ)} {kernel : Kernel}
    {result : Result} (h : attempt step (start world) inputs = .ok e)
    (hwait : e.waitNextEvent kernel = .ok (result, e')) :
    ∃ new, e'.memory.calls = e.memory.calls ++ new ∧
      (result = .Exit ↔ ∀ c ∈ new, c.hook ≠ .interest true) ∧
      (result = .Exit → (∀ r ∈ e'.registered, ⟨r, .interest false⟩ ∈ new) ∧
        ∀ c ∈ new, c.hook ≠ .callback) := by
  obtain ⟨new, hnew⟩ := waitNextEvent_spec (tidy_run h).nodup hwait
  refine ⟨new, hnew.passes.calls, hnew.exit, fun hexit => ⟨hnew.declined hexit, ?_⟩⟩
  intro c hc hcall
  obtain ⟨pre, post, hsplit, hasked⟩ := hnew.serves.asked.of_mem hc
  have hmem : ⟨c.rule, .interest true⟩ ∈ new := by
    rw [hsplit]
    exact List.mem_append_left _ (hasked hcall)
  exact hnew.exit.mp hexit _ hmem rfl

theorem exits_iff_none_interested_countdown :
    let inputs : List (Input Nat) := [.addCategory "count", .addFDRule 0 countdown]
    ∃ e e' : EventLoop Nat, attempt step (start 0) inputs = .ok e ∧
      e.waitNextEvent allReady = .ok (.Exit, e') ∧
      ∃ new, e'.memory.calls = e.memory.calls ++ new ∧ ∀ r ∈ e'.registered,
        ⟨r, .interest false⟩ ∈ new := by
  intro inputs
  refine ⟨_, _, rfl, rfl, ?_⟩
  obtain ⟨new, hnew, -, hexit⟩ :=
    @exits_iff_none_interested Nat _ _ 0 inputs allReady .Exit rfl rfl
  exact ⟨new, hnew, (hexit rfl).1⟩

end EventLoop
end Minnow
