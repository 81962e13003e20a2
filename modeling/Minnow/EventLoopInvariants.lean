import Minnow.EventLoopRuns

/-!
The invariant rule of the event loop. What every hook preserves, `wait_next_event` preserves.
A callback may rely on what its rule has been told when it was asked, for as long as the hooks
that can be called in between keep it.
-/

namespace Minnow
open Throwing

/-- The kernel reports an error or a hangup of some descriptor. -/
def Kernel.Faulty (kernel : Kernel) : Prop :=
  ∃ revents idx, kernel.poll = .ok revents ∧
    ((revents idx).error = true ∨ (revents idx).pollhup = true)

namespace Memory

variable {σ : Type} {m m' : Memory σ}

/-- The rules whose `cancel` hook has been called. -/
def cancelled (m : Memory σ) (rule : RuleId) : Prop := ⟨rule, .cancel⟩ ∈ m.calls

theorem cancelled_note (m : Memory σ) (rule : RuleId) {hook : Hook} (hhook : hook ≠ .cancel) :
    (m.note rule hook).cancelled = m.cancelled := by
  funext r
  rw [cancelled, note, List.mem_append, List.mem_singleton, Call.mk.injEq]
  exact propext ⟨fun h => h.resolve_right fun hsame => hhook hsame.2.symm, Or.inl⟩

theorem cancelled_cancel (rule : RuleId) :
    (m.note rule .cancel).cancelled = fun r => m.cancelled r ∨ r = rule := by
  funext r
  rw [cancelled, note, List.mem_append, List.mem_singleton, Call.mk.injEq, and_iff_left rfl]
  rfl

/-- How many callbacks have been called. -/
def served (m : Memory σ) : Nat := m.calls.countP (·.hook = .callback)

theorem served_note (m : Memory σ) (rule : RuleId) (hook : Hook) :
    (m.note rule hook).served = m.served + if hook = .callback then 1 else 0 := by
  rw [served, note, List.countP_append, List.countP_singleton, served]
  simp only [decide_eq_true_eq]

/-- A hook that returns has been noted. -/
theorem call_ok {rule : RuleId} {hook : Hook} {action : Action σ} :
    m.call rule hook action = .ok m' ↔
      ∃ left, action m.world = .ok left ∧ m' = m.after rule hook left := by
  rw [call, bind_eq_ok]
  simp only [pure_eq_ok, Except.ok.injEq, Eq.comm]

end Memory

namespace EventLoop

variable {σ : Type} {m m' : Memory σ}

/-- A rule whose `cancel` hook has not been called. -/
def Live (r : FDRule σ) (m : Memory σ) : Prop := ⟨r.id, .cancel⟩ ∉ m.calls

/-- What has been told is not taken back; for a rule that has declined, as long as it comes
before. -/
def Keeps (Told : RuleId → Bool → Memory σ → Prop) (before : RuleId → Prop) (m m' : Memory σ) :
    Prop :=
  (∀ r, Told r true m → Told r true m') ∧ ∀ r, before r → Told r false m → Told r false m'

/-- The obligations of the hooks: `J` is kept, and `Told r answer` holds from the moment that a
rule has answered until its callback, whichever hooks are called in between. A rule that has
declined has no callback: it only matters what the rules set up after it do. A rule that has not
ended is cancelled only if the kernel may report errors and hangups. -/
structure Preserves (nonFdRules : List (BasicRule σ)) (fdRules : List (FDRule σ)) (faulty : Prop)
    (J : Memory σ → Prop) (Told : RuleId → Bool → Memory σ → Prop) : Prop where
  asked : ∀ m rule answer, J m → J (m.note rule (.interest answer))
  kept : ∀ m r told rule answer, Told r told m → Told r told (m.note rule (.interest answer))
  fires : ∀ r ∈ nonFdRules, ∀ m m', J m → r.interest m.world = true →
    m.call r.id .callback r.callback = .ok m' → J m'
  tells : ∀ r ∈ fdRules, ∀ m, J m → Live r m → r.ended m.world = false →
    Told r.id (r.interest m.world) m
  cancels : ∀ r ∈ fdRules, ∀ m m', J m → Live r m → r.ended m.world = true ∨ faulty →
    m.call r.id .cancel r.cancel = .ok m' → J m' ∧ Keeps Told (· < r.id) m m'
  recovers : ∀ r ∈ fdRules, ∀ m m' answer, J m → Live r m → m.tryRecover r = .ok (m', answer) →
    J m' ∧ ∀ r', Told r' true m → Told r' true m'
  serves : ∀ r ∈ fdRules, ∀ m m', J m → Live r m → Told r.id true m →
    m.call r.id .callback r.callback = .ok m' → J m'

variable {nonFdRules : List (BasicRule σ)} {fdRules : List (FDRule σ)} {faulty : Prop}
  {J : Memory σ → Prop} {Told : RuleId → Bool → Memory σ → Prop} {polled : List (FDRule σ × Events)}

theorem Preserves.subset {fewer : List (BasicRule σ)} {fewerFd : List (FDRule σ)}
    (h : Preserves nonFdRules fdRules faulty J Told) (hsub : fewer ⊆ nonFdRules)
    (hsubFd : fewerFd ⊆ fdRules) : Preserves fewer fewerFd faulty J Told where
  asked := h.asked
  kept := h.kept
  fires r hr := h.fires r (hsub hr)
  tells r hr := h.tells r (hsubFd hr)
  cancels r hr := h.cancels r (hsubFd hr)
  recovers r hr := h.recovers r (hsubFd hr)
  serves r hr := h.serves r (hsubFd hr)

theorem Preserves.fire {names : List String} {r : BasicRule σ} {left : Nat} {fired : Bool}
    (h : Preserves nonFdRules fdRules faulty J Told) (hr : r ∈ nonFdRules) (hJ : J m)
    (hfire : fire names r left m = .ok (m', fired)) : J m' := by
  induction left generalizing m fired with
  | zero =>
      rw [EventLoop.fire] at hfire
      split at hfire
      · cases hfire
      · cases hfire
        exact h.asked m r.id _ hJ
  | succ left ih =>
      rw [EventLoop.fire] at hfire
      split at hfire
      · next hyes =>
          obtain ⟨m₁, hcall, hfire⟩ := bind_eq_ok.mp hfire
          obtain ⟨⟨m₂, again⟩, hrest, hfire⟩ := bind_eq_ok.mp hfire
          cases hfire
          exact ih (h.fires r hr _ m₁ (h.asked m r.id _ hJ) hyes hcall) hrest
      · cases hfire
        exact h.asked m r.id _ hJ

theorem Preserves.serveNonFd {names : List String} {rules kept : List (BasicRule σ)} {fired : Bool}
    (h : Preserves nonFdRules fdRules faulty J Told) (hrules : rules ⊆ nonFdRules) (hJ : J m)
    (hserve : serveNonFd names rules m = .ok (kept, m', fired)) : J m' ∧ kept ⊆ rules := by
  induction rules generalizing m kept with
  | nil =>
      cases hserve
      exact ⟨hJ, List.Subset.refl _⟩
  | cons r rest ih =>
      obtain ⟨hr, hrest⟩ := List.cons_subset.mp hrules
      rw [EventLoop.serveNonFd] at hserve
      split at hserve
      · obtain ⟨hJ', hkept⟩ := ih hrest hJ hserve
        exact ⟨hJ', List.subset_cons_of_subset r hkept⟩
      · obtain ⟨⟨m₁, ran⟩, hfire, hserve⟩ := bind_eq_ok.mp hserve
        have hJ₁ := h.fire hr hJ hfire
        cases ran with
        | true =>
            cases hserve
            exact ⟨hJ₁, List.Subset.refl _⟩
        | false =>
            obtain ⟨⟨kept', m₂, fired'⟩, hmore, hserve⟩ := bind_eq_ok.mp hserve
            cases hserve
            obtain ⟨hJ', hkept⟩ := ih hrest hJ₁ hmore
            exact ⟨hJ', List.cons_subset_cons r hkept⟩

theorem live_of_passes {rules kept : List RuleId} {new : List Call} {r : FDRule σ}
    (h : Passes rules kept m new m') (hr : r.id ∉ rules) (hlive : Live r m) : Live r m' := by
  rw [Live, h.calls, List.mem_append, not_or]
  exact ⟨hlive, fun hmem => hr (h.called _ hmem)⟩

theorem live_of_kept {rules kept : List RuleId} {new : List Call} {r : FDRule σ}
    (h : Passes rules kept m new m') (hr : r.id ∈ kept) (hlive : Live r m) : Live r m' := by
  rw [Live, h.calls, List.mem_append, not_or]
  exact ⟨hlive, h.uncancelled _ hr⟩

theorem not_mem_singleton {r r' : RuleId} {rules : List RuleId} (hr : r ∉ rules)
    (hr' : r' ∈ rules) : r' ∉ [r] := by
  intro hsame
  rw [List.mem_singleton.mp hsame] at hr'
  exact hr hr'

theorem id_mem_fdIds {r : FDRule σ} {rules : List (FDRule σ)} (hr : r ∈ rules) :
    r.id ∈ fdIds rules := List.mem_map_of_mem hr

/-- The rules set up are polled for what they have answered. -/
theorem Preserves.setUp {rules : List (FDRule σ)} (h : Preserves nonFdRules fdRules faulty J Told)
    (hrules : rules ⊆ fdRules) (hsorted : (fdIds rules).Pairwise (· < ·))
    (hlive : ∀ r ∈ rules, Live r m) (hJ : J m) (hset : setUp rules m = .ok (polled, m')) :
    J m' ∧ Keeps Told (fun r' => ∀ r ∈ fdIds rules, r' < r) m m' ∧
      ∀ p ∈ polled, p.1 ∈ rules ∧ Live p.1 m' ∧ Told p.1.id p.2.isSome m' := by
  induction rules generalizing m polled with
  | nil =>
      cases hset
      exact ⟨hJ, ⟨fun _ htold => htold, fun _ _ htold => htold⟩,
        fun p hp => absurd hp List.not_mem_nil⟩
  | cons r rest ih =>
      obtain ⟨hr, hrest⟩ := List.cons_subset.mp hrules
      obtain ⟨hrLive, hrestLive⟩ := List.forall_mem_cons.mp hlive
      obtain ⟨hrFirst, hsorted⟩ := List.pairwise_cons.mp hsorted
      have hrFresh : r.id ∉ fdIds rest := fun hmem => Nat.lt_irrefl _ (hrFirst _ hmem)
      have hapart (r' : FDRule σ) (hr' : r' ∈ rest) : r'.id ∉ [r.id] :=
        not_mem_singleton hrFresh (id_mem_fdIds hr')
      have hbefore {r' : RuleId} (hall : ∀ r₁ ∈ fdIds (r :: rest), r' < r₁) :
          r' < r.id ∧ ∀ r₁ ∈ fdIds rest, r' < r₁ := List.forall_mem_cons.mp hall
      rw [EventLoop.setUp] at hset
      split at hset
      · obtain ⟨hJ', hkeeps, hall⟩ := ih hrest hsorted hrestLive hJ hset
        exact ⟨hJ', ⟨hkeeps.1, fun r' hfirst => hkeeps.2 r' (hbefore hfirst).2⟩,
          fun p hp => ⟨List.mem_cons_of_mem r (hall p hp).1, (hall p hp).2⟩⟩
      · split at hset
        · next hended =>
            obtain ⟨m₁, hcancel, hset⟩ := bind_eq_ok.mp hset
            obtain ⟨hJ₁, hkeeps₁⟩ := h.cancels r hr m m₁ hJ hrLive (Or.inl hended) hcancel
            have hpass := passes_cancelled hcancel
            obtain ⟨hJ', hkeeps, hall⟩ := ih hrest hsorted
              (fun r' hr' => live_of_passes hpass (hapart r' hr') (hrestLive r' hr')) hJ₁ hset
            refine ⟨hJ', ⟨fun r' htold => hkeeps.1 r' (hkeeps₁.1 r' htold), ?_⟩,
              fun p hp => ⟨List.mem_cons_of_mem r (hall p hp).1, (hall p hp).2⟩⟩
            exact fun r' hfirst htold => hkeeps.2 r' (hbefore hfirst).2
              (hkeeps₁.2 r' (hbefore hfirst).1 htold)
        · next hended =>
            obtain ⟨⟨polled', m₁⟩, hmore, hset⟩ := bind_eq_ok.mp hset
            cases hset
            have hpass := passes_ask (m := m) r.toBasicRule
            obtain ⟨hJ', hkeeps, hall⟩ := ih hrest hsorted
              (fun r' hr' => live_of_passes hpass (hapart r' hr') (hrestLive r' hr'))
              (h.asked m r.id _ hJ) hmore
            have htold := h.kept m r.id _ r.id (r.interest m.world)
              (h.tells r hr m hJ hrLive (Bool.eq_false_iff.mpr hended))
            obtain ⟨new, hnew⟩ := setUp_spec (hsorted.imp Nat.ne_of_lt) hmore
            refine ⟨hJ', ⟨fun r' htold => hkeeps.1 r' (h.kept _ _ _ _ _ htold),
              fun r' hfirst htold => hkeeps.2 r' (hbefore hfirst).2 (h.kept _ _ _ _ _ htold)⟩, ?_⟩
            refine List.forall_mem_cons.mpr ⟨⟨List.mem_cons_self, ?_, ?_⟩, fun p hp =>
              ⟨List.mem_cons_of_mem r (hall p hp).1, (hall p hp).2⟩⟩
            · exact live_of_passes hnew.passes hrFresh
                (live_of_kept hpass (List.mem_singleton_self _) hrLive)
            · cases hanswer : r.interest m.world with
              | true =>
                  rw [hanswer] at htold
                  exact hkeeps.1 _ (hanswer ▸ htold)
              | false =>
                  rw [hanswer] at htold
                  exact hkeeps.2 _ hrFirst (hanswer ▸ htold)

theorem Preserves.handleError {socketError : SocketError} {revents : Revents} {r : FDRule σ}
    {kept : Bool} (h : Preserves nonFdRules fdRules faulty J Told) (hr : r ∈ fdRules)
    (hlive : Live r m) (hfault : faulty) (hJ : J m)
    (herror : handleError socketError revents r m = .ok (m', kept)) :
    J m' ∧ ∀ r', Told r' true m → Told r' true m' := by
  obtain ⟨⟨m₁, recovered⟩, htry, herror⟩ := bind_eq_ok.mp herror
  have hfirst : J m₁ ∧ (∀ r', Told r' true m → Told r' true m₁) ∧ Live r m₁ := by
    rw [EventLoop.recovers] at htry
    split at htry
    · cases htry
      exact ⟨hJ, fun _ htold => htold, hlive⟩
    · obtain ⟨hJ₁, hkeeps⟩ := h.recovers r hr m m₁ recovered hJ hlive htry
      exact ⟨hJ₁, hkeeps, live_of_kept (passes_recovered htry) (List.mem_singleton_self _) hlive⟩
  obtain ⟨hJ₁, hkeeps₁, hlive₁⟩ := hfirst
  have hended (hcancel : m₁.call r.id .cancel r.cancel = .ok m') :
      J m' ∧ ∀ r', Told r' true m → Told r' true m' := by
    obtain ⟨hJ', hkeeps⟩ := h.cancels r hr m₁ m' hJ₁ hlive₁ (Or.inr hfault) hcancel
    exact ⟨hJ', fun r' htold => hkeeps.1 r' (hkeeps₁ r' htold)⟩
  cases recovered with
  | true =>
      cases herror
      exact ⟨hJ₁, hkeeps₁⟩
  | false =>
      cases socketError with
      | failed errno => cases herror
      | unexpectedLength optlen => cases herror
      | notSocket | pending error =>
          obtain ⟨m₂, hcancel, herror⟩ := bind_eq_ok.mp herror
          cases herror
          exact hended hcancel

theorem Preserves.serve {names : List String} {r : FDRule σ}
    (h : Preserves nonFdRules fdRules faulty J Told) (hr : r ∈ fdRules) (hlive : Live r m)
    (htold : Told r.id true m) (hJ : J m) (hserve : serve names r m = .ok m') : J m' := by
  obtain ⟨m₁, hcall, hserve⟩ := bind_eq_ok.mp hserve
  have hJ₁ := h.serves r hr m m₁ hJ hlive htold hcall
  split at hserve
  · split at hserve
    · cases hserve
    · cases hserve
      exact h.asked m₁ r.id _ hJ₁
  · cases hserve
    exact hJ₁

theorem Preserves.servePolled {names : List String} {getsockopt : Nat → SocketError}
    {revents : Nat → Revents} {idx : Nat} {rules : List (FDRule σ)}
    (h : Preserves nonFdRules fdRules faulty J Told) (hrules : ∀ p ∈ polled, p.1 ∈ fdRules)
    (hnodup : (polledIds polled).Nodup) (hlive : ∀ p ∈ polled, Live p.1 m)
    (htold : ∀ p ∈ polled, p.2.isSome = true → Told p.1.id true m)
    (hfault : ∀ idx, (revents idx).error = true ∨ (revents idx).pollhup = true → faulty) (hJ : J m)
    (hserve : servePolled names getsockopt revents idx polled m = .ok (rules, m')) :
    J m' ∧ rules ⊆ polled.map Prod.fst := by
  induction polled generalizing m rules idx with
  | nil =>
      cases hserve
      exact ⟨hJ, List.Subset.refl _⟩
  | cons p rest ih =>
      obtain ⟨r, events⟩ := p
      obtain ⟨hr, hrest⟩ := List.forall_mem_cons.mp hrules
      obtain ⟨hrLive, hrestLive⟩ := List.forall_mem_cons.mp hlive
      obtain ⟨hrTold, hrestTold⟩ := List.forall_mem_cons.mp htold
      obtain ⟨hrFresh, hnodup⟩ := List.nodup_cons.mp hnodup
      have hapart (p : FDRule σ × Events) (hp : p ∈ rest) : p.1.id ∉ [r.id] :=
        not_mem_singleton hrFresh (List.mem_map_of_mem hp)
      rw [EventLoop.servePolled] at hserve
      split at hserve
      · next hrevents =>
          obtain ⟨⟨m₁, kept⟩, herror, hserve⟩ := bind_eq_ok.mp hserve
          obtain ⟨⟨rules', m₂⟩, hmore, hserve⟩ := bind_eq_ok.mp hserve
          cases hserve
          obtain ⟨hJ₁, hkeeps⟩ := h.handleError hr hrLive (hfault idx (Or.inl hrevents)) hJ herror
          obtain ⟨new, hpass, -⟩ := handleError_spec herror
          obtain ⟨hJ', hsub⟩ := ih hrest hnodup
            (fun p hp => live_of_passes hpass (hapart p hp) (hrestLive p hp))
            (fun p hp hsome => hkeeps _ (hrestTold p hp hsome)) hJ₁ hmore
          refine ⟨hJ', ?_⟩
          cases kept with
          | true => exact List.cons_subset_cons r hsub
          | false => exact List.subset_cons_of_subset r hsub
      · split at hserve
        · next hdefunct =>
            obtain ⟨m₁, hcancel, hserve⟩ := bind_eq_ok.mp hserve
            have hhup : (revents idx).pollhup = true := (Bool.and_eq_true_iff.mp hdefunct).1
            obtain ⟨hJ₁, hkeeps⟩ :=
              h.cancels r hr m m₁ hJ hrLive (Or.inr (hfault idx (Or.inr hhup))) hcancel
            have hpass := passes_cancelled hcancel
            obtain ⟨hJ', hsub⟩ := ih hrest hnodup
              (fun p hp => live_of_passes hpass (hapart p hp) (hrestLive p hp))
              (fun p hp hsome => hkeeps.1 _ (hrestTold p hp hsome)) hJ₁ hserve
            exact ⟨hJ', List.subset_cons_of_subset r hsub⟩
        · split at hserve
          · next hready =>
              obtain ⟨m₁, hserved, hserve⟩ := bind_eq_ok.mp hserve
              cases hserve
              have hsome : events.isSome = true := by
                cases events with
                | none => cases hready
                | some direction => rfl
              exact ⟨h.serve hr hrLive (hrTold hsome) hJ hserved, List.Subset.refl _⟩
          · obtain ⟨⟨rules', m₁⟩, hmore, hserve⟩ := bind_eq_ok.mp hserve
            cases hserve
            obtain ⟨hJ', hsub⟩ := ih hrest hnodup hrestLive hrestTold hJ hmore
            exact ⟨hJ', List.cons_subset_cons r hsub⟩

/-- The invariant rule: a call that returns keeps `J`, and when it tells the program to exit,
every rule that is left has been told that it is not interested. -/
theorem Preserves.waitNextEvent {e e' : EventLoop σ} {kernel : Kernel} {result : Result}
    (h : Preserves e.nonFdRules e.fdRules faulty J Told) (htidy : Tidy e)
    (hfault : kernel.Faulty → faulty) (hJ : J e.memory)
    (hwait : e.waitNextEvent kernel = .ok (result, e')) : J e'.memory ∧
      e'.nonFdRules ⊆ e.nonFdRules ∧ e'.fdRules ⊆ e.fdRules ∧
      (result = .Exit → ∀ r ∈ e'.fdRules, Told r.id false e'.memory) := by
  obtain ⟨hnonFd, hfd, hapart⟩ := List.nodup_append'.mp htidy.nodup
  obtain ⟨⟨kept, memory, fired⟩, hserve, hwait⟩ := bind_eq_ok.mp hwait
  obtain ⟨hJ₁, hkept⟩ := h.serveNonFd (List.Subset.refl _) hJ hserve
  cases fired with
  | true =>
      cases hwait
      exact ⟨hJ₁, hkept, List.Subset.refl _, fun hexit => by cases hexit⟩
  | false =>
      obtain ⟨new, hnew⟩ := serveNonFd_spec hnonFd hserve
      have hlive (r : FDRule σ) (hr : r ∈ e.fdRules) : Live r memory :=
        live_of_passes hnew.passes (fun hmem => hapart hmem (id_mem_fdIds hr))
          (htidy.uncancelled _ (List.mem_append_right _ (id_mem_fdIds hr)))
      obtain ⟨⟨polled, memory'⟩, hset, hwait⟩ := bind_eq_ok.mp hwait
      obtain ⟨hJ₂, -, hall⟩ := h.setUp (List.Subset.refl _) htidy.sorted hlive hJ₁ hset
      have hpolled : polled.map Prod.fst ⊆ e.fdRules := by
        intro r hr
        obtain ⟨p, hp, rfl⟩ := List.mem_map.mp hr
        exact (hall p hp).1
      dsimp only at hwait
      split at hwait
      · next hnone =>
          cases hwait
          refine ⟨hJ₂, hkept, hpolled, fun _ r hr => ?_⟩
          obtain ⟨p, hp, rfl⟩ := List.mem_map.mp hr
          have htold := (hall p hp).2.2
          rwa [Option.isNone_iff_eq_none.mp (List.all_eq_true.mp hnone p hp)] at htold
      · split at hwait
        · cases hwait
        · next revents hrevents =>
            split at hwait
            · cases hwait
              exact ⟨hJ₂, hkept, hpolled, fun hexit => by cases hexit⟩
            · obtain ⟨⟨rules, memory''⟩, hpoll, hwait⟩ := bind_eq_ok.mp hwait
              cases hwait
              obtain ⟨more, hmore⟩ := setUp_spec hfd hset
              obtain ⟨hJ₃, hrules⟩ := h.servePolled (fun p hp => (hall p hp).1)
                (hmore.passes.sub.nodup hfd) (fun p hp => (hall p hp).2.1)
                (fun p hp hsome => hsome ▸ (hall p hp).2.2)
                (fun idx hbad => hfault ⟨revents, idx, hrevents, hbad⟩) hJ₂ hpoll
              exact ⟨hJ₃, hkept, List.Subset.trans hrules hpolled, fun hexit => by cases hexit⟩

/-- What becomes of data that satisfies `A`: one callback makes it satisfy `B`, and the other
hooks change neither. -/
structure Once (fdRules : List (FDRule σ)) (J : Memory σ → Prop)
    (Told : RuleId → Bool → Memory σ → Prop) (A B : σ → Prop) : Prop where
  cancels : ∀ r ∈ fdRules, ∀ w left, r.cancel w = .ok left → (A w → A left.1) ∧ (B w → B left.1)
  recovers : ∀ r ∈ fdRules, ∀ w left, r.recover w = .ok left →
    (A w → A left.2.1) ∧ (B w → B left.2.1)
  serves : ∀ r ∈ fdRules, ∀ m left, J m → Told r.id true m → A m.world →
    r.callback m.world = .ok left → B left.1

variable {A B : σ → Prop} {count : Nat}

theorem Once.subset {fewer : List (FDRule σ)} (h : Once fdRules J Told A B)
    (hsub : fewer ⊆ fdRules) : Once fewer J Told A B where
  cancels r hr := h.cancels r (hsub hr)
  recovers r hr := h.recovers r (hsub hr)
  serves r hr := h.serves r (hsub hr)

/-- The data after no callback, and after one, `count` callbacks having been called before. -/
structure Stages (J : Memory σ → Prop) (A B : σ → Prop) (count : Nat) (m : Memory σ) : Prop where
  invariant : J m
  served : count ≤ m.served
  first : m.served = count → A m.world
  second : m.served = count + 1 → B m.world

/-- A hook that is no callback keeps both. -/
theorem Stages.after {rule : RuleId} {hook : Hook} {left : σ × List RuleId}
    (h : Stages J A B count m) (hhook : hook ≠ .callback)
    (hleft : (A m.world → A left.1) ∧ (B m.world → B left.1)) (hJ : J (m.after rule hook left)) :
    Stages J A B count (m.after rule hook left) := by
  have hserved : (m.after rule hook left).served = m.served := by
    have hnote := m.served_note rule hook
    rwa [if_neg hhook, Nat.add_zero] at hnote
  refine ⟨hJ, ?_, ?_, ?_⟩ <;> rw [hserved]
  · exact h.served
  · exact fun hnone => hleft.1 (h.first hnone)
  · exact fun hone => hleft.2 (h.second hone)

theorem Preserves.stages (h : Preserves [] fdRules faulty J Told)
    (honce : Once fdRules J Told A B) (count : Nat) :
    Preserves [] fdRules faulty (Stages J A B count) Told where
  asked m rule answer hm := by
    have hserved : (m.note rule (.interest answer)).served = m.served := m.served_note _ _
    refine ⟨h.asked m rule answer hm.invariant, ?_, ?_, ?_⟩ <;> rw [hserved]
    · exact hm.served
    · exact hm.first
    · exact hm.second
  kept := h.kept
  fires r hr := absurd hr List.not_mem_nil
  tells r hr m hm := h.tells r hr m hm.invariant
  cancels r hr m m' hm hlive hwhy hcall := by
    obtain ⟨hJ, hkeeps⟩ := h.cancels r hr m m' hm.invariant hlive hwhy hcall
    obtain ⟨left, hleft, rfl⟩ := Memory.call_ok.mp hcall
    exact ⟨hm.after (by simp) (honce.cancels r hr m.world left hleft) hJ, hkeeps⟩
  recovers r hr m m' answer hm hlive htry := by
    obtain ⟨hJ, hkeeps⟩ := h.recovers r hr m m' answer hm.invariant hlive htry
    obtain ⟨left, hleft, htry⟩ := bind_eq_ok.mp htry
    cases htry
    exact ⟨hm.after (by simp) (honce.recovers r hr m.world left hleft) hJ, hkeeps⟩
  serves r hr m m' hm hlive htold hcall := by
    have hJ := h.serves r hr m m' hm.invariant hlive htold hcall
    obtain ⟨left, hleft, rfl⟩ := Memory.call_ok.mp hcall
    have hserved : (m.after r.id .callback left).served = m.served + 1 := m.served_note _ _
    have hbefore := hm.served
    refine ⟨hJ, ?_, ?_, ?_⟩ <;> rw [hserved]
    · exact Nat.le_succ_of_le hbefore
    · intro hnone
      omega
    · intro hone
      exact honce.serves r hr m left hm.invariant htold (hm.first (Nat.succ_inj.mp hone)) hleft

/-- A call of `wait_next_event` serves at most one of the rules. -/
theorem served_le {e e' : EventLoop σ} {kernel : Kernel} {result : Result} (htidy : Tidy e)
    (hnonFd : e.nonFdRules = []) (hwait : e.waitNextEvent kernel = .ok (result, e')) :
    e'.memory.served ≤ e.memory.served + 1 := by
  obtain ⟨new, hnew⟩ := waitNextEvent_spec htidy.nodup hwait
  rw [Memory.served, Memory.served, hnew.passes.calls, List.countP_append]
  refine Nat.add_le_add_left ?_ _
  obtain ⟨r, hr⟩ := hnew.serves.one
  by_cases hany : ∃ c ∈ new, c.hook = .callback
  · obtain ⟨c, hc, hcall⟩ := hany
    have hmem := hnew.passes.called c hc
    rw [registered, hnonFd] at hmem
    have hone := hnew.serves.fd c.rule hmem
    refine (List.countP_mono_left ?_).trans hone
    intro c' hc' hcall'
    have hcall' : c'.hook = .callback := of_decide_eq_true hcall'
    have hsame : c' = ⟨c.rule, .callback⟩ := by
      cases c'
      rw [Call.mk.injEq]
      exact ⟨(hr _ hc' hcall').trans (hr c hc hcall).symm, hcall'⟩
    exact beq_iff_eq.mpr hsame
  · refine (Nat.le_of_eq (List.countP_eq_zero.mpr fun c hc hcall => ?_)).trans (Nat.zero_le 1)
    exact hany ⟨c, hc, of_decide_eq_true hcall⟩

/-- The rule for what one callback does: a call that returns leaves the data as they were, or as
one callback makes them. -/
theorem Preserves.waitNextEvent_once {e e' : EventLoop σ} {kernel : Kernel} {result : Result}
    (h : Preserves [] e.fdRules faulty J Told) (honce : Once e.fdRules J Told A B)
    (htidy : Tidy e) (hnonFd : e.nonFdRules = []) (hfault : kernel.Faulty → faulty)
    (hJ : J e.memory) (hA : A e.memory.world) (hwait : e.waitNextEvent kernel = .ok (result, e')) :
    A e'.memory.world ∨ B e'.memory.world := by
  have hstages := (h.stages honce e.memory.served).subset (List.subset_nil.mpr hnonFd)
    (List.Subset.refl _)
  have hbefore : Stages J A B e.memory.served e.memory :=
    ⟨hJ, Nat.le_refl _, fun _ => hA, fun hone => by omega⟩
  have hafter := (hstages.waitNextEvent htidy hfault hbefore hwait).1
  have hle := served_le htidy hnonFd hwait
  have hge := hafter.served
  by_cases hnone : e'.memory.served = e.memory.served
  · exact Or.inl (hafter.first hnone)
  · exact Or.inr (hafter.second (by omega))

end EventLoop
end Minnow
