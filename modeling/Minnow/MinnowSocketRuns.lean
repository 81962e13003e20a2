import Minnow.EthernetCarriers
import Minnow.EventLoopInvariants
import Minnow.MinnowSocketRules

/-!
Runs of a socket: the loop of `connect` or of `listen_and_accept`, and the loop of its thread.
Whatever happens, the socket has driven a TCPPeer; its thread leaves the loop by itself only
when nothing more can come and nothing is left to pass on.
-/

namespace Minnow
open Throwing EventLoop Transition TCPPeer
namespace MinnowSocket

variable {α β : Type} {a : Adapter α β}

/-- What a rule has answered, as long as it holds. -/
def Told : RuleId → Bool → MinnowSocket α β → Prop
  | 0, false, w => w.tcp.active = false
  | 1, true, w => w.threadData.fd.eof = false ∧ 0 < w.tcp.outboundStream.availableCapacity
  | 2, false, w => w.tcp.inboundStream.bytesBuffered = 0 ∧
      (w.tcp.inboundStream.isFinished = true ∨ w.tcp.inboundStream.hasError = true →
        w.inboundShutdown = true)
  | 3, false, w => w.outgoingSegments = []
  | _, _, _ => True

/-- The rules as the loop has registered them. -/
def rules (a : Adapter α β) : List (FDRule (MinnowSocket α β)) :=
  [receiveSegment a 0, { pushBytes 1 with categoryId := 1 }, { readBytes 2 with categoryId := 2 },
    { sendSegments a 3 with categoryId := 3 }]

theorem forall_rules {P : FDRule (MinnowSocket α β) → Prop} (h₀ : P (receiveSegment a 0))
    (h₁ : P { pushBytes 1 with categoryId := 1 }) (h₂ : P { readBytes 2 with categoryId := 2 })
    (h₃ : P { sendSegments a 3 with categoryId := 3 }) : ∀ r ∈ rules a, P r := by
  simp only [rules, List.forall_mem_cons]
  exact ⟨h₀, h₁, h₂, h₃, fun r hr => absurd hr List.not_mem_nil⟩

/-- What the system calls of a turn may answer: reads of the owner's bytes do not ask to be made
again, and the segments that come are offered. -/
structure Answers (k : a.Carrier) (offered : TCPSegment → Prop) (answers : SocketAnswers β) :
    Prop where
  ready : answers.threadRead.Ready
  offered : ∀ d ∈ k.offered answers.adapterRead, ∀ seg, k.carried d seg → offered seg

/-- The invariant of the loop. -/
structure Steady (k : a.Carrier) (offered : TCPSegment → Prop)
    (begin : TCPPeer × Traffic) (faulty : Prop) (m : Memory (MinnowSocket α β)) : Prop where
  flags : m.cancelRequested = []
  serving : Serving k offered begin faulty m.cancelled m.world
  answers : Answers k offered m.world.answers

variable {k : a.Carrier} {offered : TCPSegment → Prop} {begin : TCPPeer × Traffic}
  {faulty : Prop} {m m' : Memory (MinnowSocket α β)} {w w' : MinnowSocket α β}
  {flags : List RuleId}

theorem Steady.note (h : Steady k offered begin faulty m) (rule : RuleId)
    {hook : Hook} (hhook : hook ≠ .cancel) :
    Steady k offered begin faulty (m.note rule hook) := by
  refine ⟨h.flags, ?_, h.answers⟩
  rw [Memory.cancelled_note m rule hhook]
  exact h.serving

theorem Steady.called (h : Steady k offered begin faulty m) (rule : RuleId)
    (hcall : Serving k offered begin faulty m.cancelled w' ∧ w'.answers = m.world.answers ∧
      flags = []) :
    Steady k offered begin faulty (m.after rule .callback (w', flags)) := by
  obtain ⟨hserving, hanswers, rfl⟩ := hcall
  refine ⟨(List.append_nil _).trans h.flags, ?_, ?_⟩
  · rw [← Memory.cancelled_note m rule (by simp : Hook.callback ≠ .cancel)] at hserving
    exact hserving
  · have hkept := h.answers
    rw [← hanswers] at hkept
    exact hkept

theorem Steady.cancel (h : Steady k offered begin faulty m) (rule : RuleId)
    (hcall : Serving k offered begin faulty (fun r => m.cancelled r ∨ r = rule) w' ∧
      w'.answers = m.world.answers ∧ flags = []) :
    Steady k offered begin faulty (m.after rule .cancel (w', flags)) := by
  obtain ⟨hserving, hanswers, rfl⟩ := hcall
  refine ⟨(List.append_nil _).trans h.flags, ?_, ?_⟩
  · rw [← Memory.cancelled_cancel] at hserving
    exact hserving
  · have hkept := h.answers
    rw [← hanswers] at hkept
    exact hkept

theorem Steady.recovered (h : Steady k offered begin faulty m) (rule : RuleId) :
    Steady k offered begin faulty (m.after rule (.recover false) (m.world, [])) := by
  have hnoted := h.note rule (by simp : Hook.recover false ≠ .cancel)
  exact ⟨(List.append_nil _).trans hnoted.flags, hnoted.serving, hnoted.answers⟩

/-- A rule that does nothing when it is cancelled. -/
theorem Steady.cancelNothing (h : Steady k offered begin faulty m) {rule : RuleId}
    (hrule : rule ≠ 1) (hwhy : faulty) :
    Steady k offered begin faulty (m.after rule .cancel (m.world, [])) := by
  obtain ⟨hdrives, hidle, hclosing⟩ := h.serving
  exact h.cancel rule ⟨⟨hdrives, hidle, hclosing.cancel hrule hwhy⟩, rfl, rfl⟩

theorem Serving.lasting (h : Serving k offered begin faulty m.cancelled w) :
    (a.fd w.datagramAdapter).Lasting := by
  obtain ⟨t, ht⟩ := h.drives
  exact k.lasting ht.keeps

/-- A peer that need not be driven on still need not be when its outbound stream is closed. -/
theorem active_closed {p : TCPPeer} (h : p.active = false) : p.closed.active = false := by
  rw [active] at h ⊢
  by_cases herror : p.inboundStream.hasError = true
  · exact if_pos herror
  · rw [if_neg herror, Bool.or_eq_false_iff, Bool.or_eq_false_iff, Bool.not_eq_false',
      ByteStream.isFinished, Bool.and_eq_true] at h
    obtain ⟨⟨⟨-, hempty⟩, hinbound⟩, hflight⟩ := h
    refine (if_neg herror).trans ?_
    rw [Bool.or_eq_false_iff, Bool.or_eq_false_iff, Bool.not_eq_false', ByteStream.isFinished,
      Bool.and_eq_true]
    exact ⟨⟨⟨rfl, hempty⟩, hinbound⟩, hflight⟩

theorem told_receiveSegment (w : MinnowSocket α β) : Told 0 w.tcp.active w := by
  cases hactive : w.tcp.active with
  | true => trivial
  | false => exact hactive

theorem told_pushBytes (hopen : w.threadData.fd.eof = false) :
    Told 1 ((pushBytes 1).interest w) w := by
  cases hinterest : (pushBytes 1).interest w with
  | false => trivial
  | true =>
      simp only [pushBytes, Bool.and_eq_true, decide_eq_true_eq] at hinterest
      exact ⟨hopen, hinterest.2⟩

theorem told_readBytes (w : MinnowSocket α β) : Told 2 ((readBytes 2).interest w) w := by
  cases hinterest : (readBytes 2).interest w with
  | true => trivial
  | false =>
      simp only [readBytes, Bool.or_eq_false_iff, bne_eq_false_iff_eq, Bool.and_eq_false_iff,
        Bool.not_eq_false'] at hinterest
      obtain ⟨hempty, hdone⟩ := hinterest
      refine ⟨hempty, fun hover => hdone.resolve_left fun hnot => ?_⟩
      cases hover with
      | inl hfinished => rw [hnot.1] at hfinished; cases hfinished
      | inr herror => rw [hnot.2] at herror; cases herror

theorem told_sendSegments (w : MinnowSocket α β) : Told 3 ((sendSegments a 3).interest w) w := by
  cases hinterest : (sendSegments a 3).interest w with
  | true => trivial
  | false =>
      simp only [sendSegments, Bool.not_eq_false', List.isEmpty_iff] at hinterest
      exact hinterest

theorem preserves_steady (k : a.Carrier) (offered : TCPSegment → Prop)
    (begin : TCPPeer × Traffic) (faulty : Prop) :
    Preserves [] (rules a) faulty (Steady k offered begin faulty)
      fun r answer m => Told r answer m.world where
  asked m rule answer h := h.note rule (by simp)
  kept m r told rule answer h := h
  fires r hr := absurd hr List.not_mem_nil
  tells := by
    refine forall_rules ?_ ?_ ?_ ?_ <;> intro m h hlive hended
    · exact told_receiveSegment m.world
    · refine told_pushBytes ?_
      simp only [FDRule.ended, pushBytes, Bool.or_eq_false_iff] at hended
      exact hended.1
    · exact told_readBytes m.world
    · exact told_sendSegments (a := a) m.world
  cancels := by
    refine forall_rules ?_ ?_ ?_ ?_ <;> intro m m' h hlive hwhy hcall <;>
      obtain ⟨left, hleft, rfl⟩ := Memory.call_ok.mp hcall
    · cases hleft
      refine ⟨h.cancelNothing (by decide : 0 ≠ 1) ?_, fun r htold => htold, fun r hr htold => htold⟩
      refine hwhy.resolve_left fun hended => ?_
      have hlasting := h.serving.lasting
      simp [FDRule.ended, receiveSegment, hlasting.eof, hlasting.closed] at hended
    · obtain ⟨w', flags⟩ := left
      have hopen := h.serving.closing.ownerOpen
      refine ⟨h.cancel 1 (h.serving.cancelPushBytes (hwhy.imp_left fun hended => ?_) hleft), ?_, ?_⟩
      · simpa [FDRule.ended, pushBytes, hopen] using hended
      · cases hleft
        intro r htold
        rcases r with _ | _ | _ | _ | r <;> exact htold
      · cases hleft
        intro r hr htold
        rcases r with _ | r
        · exact active_closed htold
        · exact absurd hr (Nat.not_lt.mpr (Nat.succ_le_succ (Nat.zero_le r)))
    · cases hleft
      refine ⟨h.cancelNothing (by decide : 2 ≠ 1) ?_, fun r htold => htold, fun r hr htold => htold⟩
      refine hwhy.resolve_left fun hended => ?_
      simp [FDRule.ended, readBytes, h.serving.closing.ownerOpen] at hended
    · cases hleft
      refine ⟨h.cancelNothing (by decide : 3 ≠ 1) ?_, fun r htold => htold, fun r hr htold => htold⟩
      refine hwhy.resolve_left fun hended => ?_
      have hlasting := h.serving.lasting
      simp [FDRule.ended, sendSegments, hlasting.closed] at hended
  recovers := by
    refine forall_rules ?_ ?_ ?_ ?_ <;> intro m m' answer h hlive hcall <;> cases hcall <;>
      exact ⟨h.recovered _, fun _ htold => htold⟩
  serves := by
    refine forall_rules ?_ ?_ ?_ ?_ <;> intro m m' h hlive htold hcall <;>
      obtain ⟨⟨w', flags⟩, hleft, rfl⟩ := Memory.call_ok.mp hcall
    · exact h.called 0 (h.serving.receiveSegment h.answers.offered hleft)
    · exact h.called 1 (h.serving.pushBytes hlive htold.1 htold.2 h.answers.ready hleft)
    · exact h.called 2 (h.serving.readBytes hleft)
    · exact h.called 3 (h.serving.sendSegments hleft)

/-- What holds of the loop between its turns. -/
structure Loops (k : a.Carrier) (offered : TCPSegment → Prop) (begin : TCPPeer × Traffic)
    (faulty : Prop) (e : EventLoop (MinnowSocket α β)) : Prop where
  tidy : Tidy e
  nextRule : e.nextRule = 4
  nonFdRules : e.nonFdRules = []
  fdRules : e.fdRules ⊆ rules a
  flags : e.memory.cancelRequested = []
  serving : Serving k offered begin faulty e.memory.cancelled e.memory.world

variable {e e' : EventLoop (MinnowSocket α β)}

theorem Loops.withWorld (h : Loops k offered begin faulty e)
    (hserving : Serving k offered begin faulty e.memory.cancelled w) :
    Loops k offered begin faulty (withWorld e w) :=
  ⟨h.tidy.change w, h.nextRule, h.nonFdRules, h.fdRules, h.flags, hserving⟩

theorem initializeTCP_eq (a : Adapter α β) (world : MinnowSocket α β) :
    initializeTCP a world = .ok {
      ruleCategories := ["receive TCP segment from the network", "push bytes to TCPPeer",
        "read bytes from inbound stream", "send TCP segment"]
      fdRules := rules a
      nextRule := 4
      memory := { world } } := rfl

theorem tidy_initializeTCP {world : MinnowSocket α β} (h : initializeTCP a world = .ok e) :
    Tidy e := by
  obtain ⟨e₁, h₁, h⟩ := bind_eq_ok.mp h
  obtain ⟨e₂, h₂, h⟩ := bind_eq_ok.mp h
  obtain ⟨e₃, h₃, h⟩ := bind_eq_ok.mp h
  exact ((((tidy_start world).addNamedFDRule h₁).addNamedFDRule h₂).addNamedFDRule
    h₃).addNamedFDRule h

theorem loops_initializeTCP (h : initializeTCP a w = .ok e)
    (hserving : ∀ cancelled : RuleId → Prop, (∀ r, ¬ cancelled r) →
      Serving k offered begin faulty cancelled w) :
    Loops k offered begin faulty e ∧ e.memory.world = w := by
  have htidy := tidy_initializeTCP h
  rw [initializeTCP_eq] at h
  cases h
  exact ⟨⟨htidy, rfl, rfl, List.Subset.refl _, rfl, hserving _ fun r => List.not_mem_nil⟩, rfl⟩

variable {threadData : Descriptor} {x : α} {answers : SocketAnswers β} {tcpConfig : TCPConfig}
  {random : Wrap32} {config : FdAdapterConfig} {lossRates : LossRates}

/-- A new socket whose descriptors are open, and whose adapter has sent nothing. -/
structure Fresh (k : a.Carrier) (threadData : Descriptor) (x : α) : Prop where
  ownerOpen : threadData.closed = false
  unended : threadData.eof = false
  keeps : k.Keeps (fun _ => False) x

theorem serving_start (h : Fresh k threadData x) {cancelled : RuleId → Prop}
    (hnone : ∀ r, ¬ cancelled r) : Serving k offered (ofConfig tcpConfig random, {}) faulty
      cancelled (start threadData x answers tcpConfig random) := by
  refine ⟨⟨{}, ?_⟩, ⟨rfl, rfl⟩, ?_⟩
  · exact {
      leads := Leads.refl _
      sending := sending_start tcpConfig random
      inbound := ByteStream.wf_new _
      small := fun seg hseg => by cases hseg
      counted := rfl
      received := rfl
      sent := rfl
      outgoing := List.nil_subset _
      keeps := k.mono (fun seg hseg => hseg.elim) h.keeps }
  · exact {
      ownerOpen := h.ownerOpen
      outbound := rfl
      outboundEnded := iff_of_false (fun h => by cases h) fun hsome =>
        hsome.elim (fun heof => Bool.noConfusion (h.unended.symm.trans heof)) (hnone 1)
      inbound := rfl
      inboundEnded := fun hshut => by cases hshut
      networkLost := fun hcancelled => absurd hcancelled (hnone 0)
      ownerEnded := fun hcancelled => absurd hcancelled (hnone 1)
      readerLost := fun hcancelled => absurd hcancelled (hnone 2)
      networkBlocked := fun hcancelled => absurd hcancelled (hnone 3) }

/-- Only the adapter changes. -/
theorem Serving.adapter {cancelled : RuleId → Prop}
    (h : Serving k offered begin faulty cancelled w) {x' : α}
    (hkeeps : ∀ {S}, k.Keeps S w.datagramAdapter → k.Keeps S x') :
    Serving k offered begin faulty cancelled { w with datagramAdapter := x' } := by
  obtain ⟨⟨t, ht⟩, hidle, hclosing⟩ := h
  exact ⟨⟨t, { ht with keeps := hkeeps ht.keeps }⟩, hidle, { hclosing with }⟩

/-- The push of `connect`. -/
theorem Serving.push {cancelled : RuleId → Prop} (h : Serving k offered begin faulty cancelled w)
    {tcp : TCPPeer} (hpush : w.tcp.push = .ok tcp)
    (hcollect : { w with tcp }.collectSegments = .ok w') :
    Serving k offered begin faulty cancelled w' := by
  obtain ⟨⟨t, ht⟩, -, hclosing⟩ := h
  obtain ⟨hdrives, hends, hinbound⟩ := ht.pushes false hpush
  have hclosing : Closing faulty cancelled { w with tcp } :=
    hclosing.moves rfl rfl rfl (hends.trans (Bool.or_false _)) fun hover => hinbound ▸ hover
  exact (Serving.collect hdrives hclosing hcollect).1

theorem loops_begin {o : Opening} (h : Fresh k threadData x)
    (hbegin : o.begin a (start threadData x answers tcpConfig random) config lossRates = .ok e) :
    Loops k offered (ofConfig tcpConfig random, {}) faulty e := by
  have hopened {e₀ : EventLoop (MinnowSocket α β)}
      (hinit : initializeTCP a (start threadData x answers tcpConfig random) = .ok e₀) :
      Loops k offered (ofConfig tcpConfig random, {}) faulty e₀ ∧
        Serving k offered (ofConfig tcpConfig random, {}) faulty e₀.memory.cancelled
          (start threadData x answers tcpConfig random) := by
    obtain ⟨hloops, hworld⟩ :=
      loops_initializeTCP hinit fun _ hnone => serving_start h hnone
    exact ⟨hloops, hworld ▸ hloops.serving⟩
  cases o with
  | listenAndAccept =>
      obtain ⟨e₀, hinit, hbegin⟩ := bind_eq_ok.mp hbegin
      cases hbegin
      obtain ⟨hloops, hserving⟩ := hopened hinit
      exact hloops.withWorld (hserving.adapter fun hx => k.setListening (k.configure hx))
  | connect =>
      obtain ⟨e₀, hinit, hbegin⟩ := bind_eq_ok.mp hbegin
      obtain ⟨tcp, hpush, hbegin⟩ := bind_eq_ok.mp hbegin
      obtain ⟨w₁, hcollect, hbegin⟩ := bind_eq_ok.mp hbegin
      obtain ⟨hloops, hserving⟩ := hopened hinit
      rw [thrown_eq_ok] at hpush
      have hserving := (hserving.adapter fun hx => k.configure hx).push hpush hcollect
      dsimp only at hbegin
      split at hbegin
      · cases hbegin
      · cases hbegin
        exact hloops.withWorld hserving

/-- The loop with the answers of a turn. -/
theorem Loops.answered (h : Loops k offered begin faulty e) (answers : SocketAnswers β) :
    Loops k offered begin faulty
      (MinnowSocket.withWorld e { e.memory.world with answers }) := by
  obtain ⟨⟨traffic, htraffic⟩, hidle, hclosing⟩ := h.serving
  exact h.withWorld ⟨⟨traffic, { htraffic with }⟩, hidle, { hclosing with }⟩

theorem Loops.turn {r r' : Running α β} {t : Turn β} {ended : Bool}
    (h : Loops k offered begin faulty r.eventLoop) (hanswers : Answers k offered t.answers)
    (hfault : t.kernel.Faulty → faulty) (hturn : tcpTurn a r t = .ok (r', ended)) :
    Loops k offered begin faulty r'.eventLoop ∧ (ended = true → t.abort = true ∨
      ∀ rule ∈ r'.eventLoop.fdRules, Told rule.id false r'.socket) := by
  obtain ⟨⟨ret, e⟩, hwait, hturn⟩ := bind_eq_ok.mp hturn
  have hbefore := h.answered t.answers
  have hpreserves := (preserves_steady k offered begin faulty).subset
    (List.subset_nil.mpr hbefore.nonFdRules) hbefore.fdRules
  obtain ⟨new, hnew⟩ := waitNextEvent_spec hbefore.tidy.nodup hwait
  obtain ⟨hsteady, hnonFd, hfd, hexit⟩ := hpreserves.waitNextEvent hbefore.tidy hfault
    ⟨hbefore.flags, hbefore.serving, hanswers⟩ hwait
  have hafter : Loops k offered begin faulty e := by
    rw [hbefore.nonFdRules] at hnonFd
    exact ⟨hbefore.tidy.wait hnew, hnew.nextRule.trans hbefore.nextRule,
      List.subset_nil.mp hnonFd, List.Subset.trans hfd hbefore.fdRules, hsteady.flags,
      hsteady.serving⟩
  dsimp only at hturn
  split at hturn
  · next hleaves =>
      cases hturn
      exact ⟨hafter, fun _ => hleaves.symm.imp_right hexit⟩
  · split at hturn
    · obtain ⟨w, hcollect, hturn⟩ := bind_eq_ok.mp hturn
      obtain ⟨datagramAdapter, htick, hturn⟩ := bind_eq_ok.mp hturn
      cases hturn
      obtain ⟨hserving, -⟩ := hafter.serving.give (Or.inr ⟨_, rfl⟩) hcollect
      exact ⟨hafter.withWorld (hserving.adapter fun hx => k.tick hx htick), fun h => by cases h⟩
    · cases hturn
      exact ⟨hafter, fun h => by cases h⟩

theorem Loops.loop {condition : MinnowSocket α β → Bool} {r r' : Running α β}
    {turns : List (Turn β)} {ended : Bool} (h : Loops k offered begin faulty r.eventLoop)
    (hanswers : ∀ t ∈ turns, Answers k offered t.answers)
    (hfault : ∀ t ∈ turns, t.kernel.Faulty → faulty)
    (hloop : tcpLoop a condition r turns = .ok (r', ended)) :
    Loops k offered begin faulty r'.eventLoop ∧ (ended = true →
      condition r'.socket = false ∨ (∃ t ∈ turns, t.abort = true) ∨
        ∀ rule ∈ r'.eventLoop.fdRules, Told rule.id false r'.socket) := by
  induction turns generalizing r with
  | nil =>
      cases hloop
      exact ⟨h, fun hended => Or.inl (by simpa using hended)⟩
  | cons t turns ih =>
      obtain ⟨hfirst, hrest⟩ := List.forall_mem_cons.mp hanswers
      obtain ⟨hfaultFirst, hfaultRest⟩ := List.forall_mem_cons.mp hfault
      rw [tcpLoop] at hloop
      split at hloop
      · obtain ⟨⟨r₁, left⟩, hturn, hloop⟩ := bind_eq_ok.mp hloop
        obtain ⟨hloops, hleaves⟩ := h.turn hfirst hfaultFirst hturn
        cases left with
        | true =>
            cases hloop
            refine ⟨hloops, fun _ => Or.inr ((hleaves rfl).imp_left fun habort => ?_)⟩
            exact ⟨t, List.mem_cons_self, habort⟩
        | false =>
            obtain ⟨hloops', hends⟩ := ih hloops hrest hfaultRest hloop
            refine ⟨hloops', fun hended => (hends hended).imp_right (Or.imp_left ?_)⟩
            rintro ⟨t', ht', habort⟩
            exact ⟨t', List.mem_cons_of_mem t ht', habort⟩
      · next hdone =>
          cases hloop
          exact ⟨h, fun _ => Or.inl (Bool.eq_false_iff.mpr hdone)⟩

variable {o : Opening} {opened started : Nat} {opening turns : List (Turn β)}
  {r : Running α β} {ended : Bool}

theorem loops_life (h : Fresh k threadData x)
    (hanswers : ∀ t ∈ opening ++ turns, Answers k offered t.answers)
    (hfault : ∀ t ∈ opening ++ turns, t.kernel.Faulty → faulty)
    (hlife : life a o (start threadData x answers tcpConfig random) config lossRates opened started
      opening turns = .ok (r, ended)) :
    Loops k offered (ofConfig tcpConfig random, {}) faulty r.eventLoop ∧ (ended = true →
      (∃ t ∈ turns, t.abort = true) ∨
        ∀ rule ∈ r.eventLoop.fdRules, Told rule.id false r.socket) := by
  obtain ⟨e, hbegin, hlife⟩ := bind_eq_ok.mp hlife
  obtain ⟨⟨r₁, done⟩, hopening, hlife⟩ := bind_eq_ok.mp hlife
  obtain ⟨hanswersOpening, hanswersTurns⟩ := List.forall_mem_append.mp hanswers
  obtain ⟨hfaultOpening, hfaultTurns⟩ := List.forall_mem_append.mp hfault
  obtain ⟨hloops, -⟩ := Loops.loop (r := ⟨e, opened⟩) (loops_begin h hbegin) hanswersOpening
    hfaultOpening hopening
  cases done with
  | false =>
      cases hlife
      exact ⟨hloops, fun h => by cases h⟩
  | true =>
      obtain ⟨hloops', hends⟩ := Loops.loop (r := ⟨r₁.eventLoop, started⟩) hloops hanswersTurns
        hfaultTurns hlife
      exact ⟨hloops', fun hended => (hends hended).resolve_left fun h => by cases h⟩

/-- The segments that the network has brought. -/
def Brought (k : a.Carrier) (turns : List (Turn β)) (seg : TCPSegment) : Prop :=
  ∃ t ∈ turns, ∃ d ∈ k.offered t.answers.adapterRead, k.carried d seg

theorem answers_brought (hready : ∀ t ∈ turns, t.answers.threadRead.Ready) :
    ∀ t ∈ turns, Answers k (Brought k turns) t.answers :=
  fun t ht => ⟨hready t ht, fun d hd _ hseg => ⟨t, ht, d, hd, hseg⟩⟩

/-- What a socket has driven its TCPPeer to, and what has become of the bytes and segments. -/
def Drove (k : a.Carrier) (offered : TCPSegment → Prop) (begin : TCPPeer × Traffic)
    (w : MinnowSocket α β) : Prop :=
  ∃ t : Traffic, Leads drive (Permitted offered) begin (w.tcp, t) ∧
    w.threadData.received = t.written ∧ w.threadData.sent = t.consumed ∧
    Idle w.tcp ∧ w.outgoingSegments ⊆ t.segments ∧
    ∀ d ∈ k.written w.datagramAdapter, ∀ seg, k.carried d seg → HandedOut t seg.bare

theorem Loops.drove (h : Loops k offered begin faulty e) :
    Drove k offered begin e.memory.world := by
  obtain ⟨⟨t, ht⟩, hidle, -⟩ := h.serving
  exact ⟨t, ht.leads, ht.received, ht.sent, hidle, ht.outgoing, fun d hd seg => k.sent ht.keeps hd⟩

theorem drove_life (h : Fresh k threadData x)
    (hready : ∀ t ∈ opening ++ turns, t.answers.threadRead.Ready)
    (hlife : life a o (start threadData x answers tcpConfig random) config lossRates opened started
      opening turns = .ok (r, ended)) :
    Drove k (Brought k (opening ++ turns)) (ofConfig tcpConfig random, {}) r.socket := by
  have hloops : Loops k (Brought k (opening ++ turns)) _ True r.eventLoop :=
    (loops_life h (answers_brought hready) (fun _ _ _ => trivial) hlife).1
  exact hloops.drove

/-- Over its whole life, over any adapter that carries segments, and as long as no read of the
owner's bytes asks to be made again, the socket has driven a TCPPeer that started anew: with the
segments that the network has brought, and with its owner's bytes, which are not written any more
once the stream is closed. What the owner has written has all gone into the outbound stream and
what it has got is all that has been taken from the inbound one, in order; nothing that the
TCPPeer had ready is left with it; and what is queued, and every segment in a datagram that has
been written, is one that it has handed out. -/
theorem socket_drives_peer (h : Fresh k threadData x)
    (hready : ∀ t ∈ opening ++ turns, t.answers.threadRead.Ready)
    (hlife : life a o (start threadData x answers tcpConfig random) config lossRates opened started
      opening turns = .ok (r, ended)) :
    ∃ t : Traffic, Leads drive (Permitted (Brought k (opening ++ turns)))
        (ofConfig tcpConfig random, {}) (r.socket.tcp, t) ∧
      r.socket.threadData.received = t.written ∧ r.socket.threadData.sent = t.consumed ∧
      Idle r.socket.tcp ∧ r.socket.outgoingSegments ⊆ t.segments ∧
      ∀ d ∈ k.written r.socket.datagramAdapter, ∀ seg, k.carried d seg → HandedOut t seg.bare :=
  drove_life h hready hlife

/-- A turn over a TUN device in which one of the polled descriptors is ready. -/
def tunTurn (idx : Nat) (revents : Revents) (owner : Outcome := .filled [])
    (device : Outcome := .failed .EAGAIN) : Turn DeviceAnswers where
  answers := {
    threadRead := owner
    threadWrite := .returned 1
    threadShutdown := .returned 0
    adapterRead := { read := device }
    adapterWrite _ := {}
    adapterTick := {} }
  kernel := { poll := .ok fun i => if i = idx then revents else {}, getsockopt _ := .notSocket }
  now := 1
  abort := false

theorem tunTurn_quiet (idx : Nat) {revents : Revents}
    (hquiet : revents.error = false ∧ revents.pollhup = false) (owner device : Outcome) :
    ¬ (tunTurn idx revents owner device).kernel.Faulty := by
  rintro ⟨answer, i, hpoll, hfault⟩
  cases hpoll
  by_cases hi : i = idx
  · simp [hi, hquiet.1, hquiet.2] at hfault
  · simp [hi, Revents.error] at hfault

theorem fresh_tun : Fresh TCPOverIPv4OverTunFdAdapter.carrier {} {} :=
  ⟨rfl, rfl, ⟨rfl, rfl, rfl⟩, fun d hd => by cases hd⟩

/-- An adapter that has just been made over Ethernet has sent no segment either. -/
theorem fresh_tap {x : TCPOverIPv4OverTapFdAdapter} (hnew : x.New) :
    Fresh TCPOverIPv4OverTapFdAdapter.carrier {} x := by
  obtain ⟨deviceAnswers, tap, ethAddress, ipAddress, nextHop, hfd, hwritten, hmade⟩ := hnew
  have hkeeps : TCPOverIPv4OverTapFdAdapter.Keeps (fun _ => False) x :=
    TCPOverIPv4OverTapFdAdapter.keeps_ofTap hfd hwritten hmade
  exact ⟨rfl, rfl, hkeeps⟩

/-- Nor has one that drops segments, over a fresh one. -/
theorem fresh_lossy {l : LossyFdAdapter α} (h : Fresh k threadData l.adapter) :
    Fresh (LossyFdAdapter.carrier k) threadData l :=
  ⟨h.ownerOpen, h.unended, h.keeps⟩

/-- The socket over Ethernet drives its TCPPeer with what its frames bring. -/
theorem ethernet_drives_peer {x : TCPOverIPv4OverTapFdAdapter}
    {answers : SocketAnswers DeviceAnswers} {opening turns : List (Turn DeviceAnswers)}
    {r : Running TCPOverIPv4OverTapFdAdapter DeviceAnswers} (hnew : x.New)
    (hready : ∀ t ∈ opening ++ turns, t.answers.threadRead.Ready)
    (hlife : life TCPOverIPv4OverTapFdAdapter.adapter o (start {} x answers tcpConfig random) config
      lossRates opened started opening turns = .ok (r, ended)) :
    Drove TCPOverIPv4OverTapFdAdapter.carrier
      (Brought TCPOverIPv4OverTapFdAdapter.carrier (opening ++ turns))
      (ofConfig tcpConfig random, {}) r.socket :=
  drove_life (fresh_tap hnew) hready hlife

/-- So does the socket over a TUN device that drops some of what comes and goes. -/
theorem lossy_drives_peer {rand : Nat → UInt32} {answers : SocketAnswers DeviceAnswers}
    {opening turns : List (Turn DeviceAnswers)}
    {r : Running (LossyFdAdapter TCPOverIPv4OverTunFdAdapter) DeviceAnswers}
    (hready : ∀ t ∈ opening ++ turns, t.answers.threadRead.Ready)
    (hlife : life (LossyFdAdapter.lossy TCPOverIPv4OverTunFdAdapter.adapter) o
      (start {} ⟨rand, {}⟩ answers tcpConfig random) config lossRates opened started opening turns =
        .ok (r, ended)) :
    Drove (LossyFdAdapter.carrier TCPOverIPv4OverTunFdAdapter.carrier)
      (Brought (LossyFdAdapter.carrier TCPOverIPv4OverTunFdAdapter.carrier) (opening ++ turns))
      (ofConfig tcpConfig random, {}) r.socket :=
  drove_life (fresh_lossy fresh_tun) hready hlife

/-- The SYN goes out, and a SYN comes back that acknowledges it, with a byte and the end. -/
def exchangeOpening : List (Turn DeviceAnswers) :=
  [tunTurn 3 { pollout := true }, tunTurn 0 { pollin := true } (.filled []) (.filled
    [69, 0, 0, 41, 0, 0, 64, 0, 128, 6, 250, 204, 0, 0, 0, 2, 0, 0, 0, 1, 0, 20, 0, 10,
      0, 0, 0, 100, 0, 0, 0, 8, 80, 19, 0, 8, 166, 60, 0, 0, 9])]

/-- The owner gets that byte, writes one and closes its end; all of it is acknowledged. -/
def exchangeTurns : List (Turn DeviceAnswers) :=
  [tunTurn 2 { pollout := true }, tunTurn 1 { pollin := true } (.filled [5]),
    tunTurn 1 { pollin := true }, tunTurn 2 { pollout := true },
    tunTurn 0 { pollin := true } (.filled []) (.filled
      [69, 0, 0, 40, 0, 0, 64, 0, 128, 6, 250, 205, 0, 0, 0, 2, 0, 0, 0, 1, 0, 20, 0, 10,
        0, 0, 0, 103, 0, 0, 0, 10, 80, 16, 0, 8, 175, 59, 0, 0]), tunTurn 0 {}]

/-- A connection in which a byte goes each way and both ends are closed. -/
def exchange : Except Exception (Running TCPOverIPv4OverTunFdAdapter DeviceAnswers × Bool) :=
  life TCPOverIPv4OverTunFdAdapter.adapter .connect
    (start {} {} (tunTurn 0 {}).answers { fixedIsn := some ⟨7⟩, sendCapacity := 8 } ⟨0⟩)
    { source := ⟨⟨1⟩, 10⟩, destination := ⟨⟨2⟩, 20⟩ } {} 0 0 exchangeOpening exchangeTurns

theorem exchange_run : ∃ r, exchange = .ok (r, true) ∧ r.socket.threadData.received = [5] ∧
    r.socket.threadData.sent = [9] ∧ r.socket.tcp.inboundStream.hasError = false := by
  have hrun : exchange.toOption.map (fun x => (x.2, x.1.socket.threadData.received,
      x.1.socket.threadData.sent, x.1.socket.tcp.inboundStream.hasError)) =
        some (true, [5], [9], false) := by decide +kernel
  cases hexchange : exchange with
  | error e =>
      rw [hexchange] at hrun
      cases hrun
  | ok x =>
      obtain ⟨r, ended⟩ := x
      rw [hexchange, Except.toOption, Option.map_some, Option.some.injEq] at hrun
      simp only [Prod.mk.injEq] at hrun
      obtain ⟨rfl, hreceived, hsent, herror⟩ := hrun
      exact ⟨r, rfl, hreceived, hsent, herror⟩

theorem exchange_ready : ∀ t ∈ exchangeOpening ++ exchangeTurns, t.answers.threadRead.Ready := by
  decide

theorem socket_drives_peer_exchange : ∃ (r : Running TCPOverIPv4OverTunFdAdapter DeviceAnswers)
    (t : Traffic), exchange = .ok (r, true) ∧ t.written = [5] ∧ t.consumed = [9] ∧
      Leads drive (Permitted (Brought TCPOverIPv4OverTunFdAdapter.carrier
        (exchangeOpening ++ exchangeTurns)))
          (ofConfig { fixedIsn := some ⟨7⟩, sendCapacity := 8 } ⟨0⟩, {}) (r.socket.tcp, t) := by
  obtain ⟨r, hrun, hreceived, hsent, -⟩ := exchange_run
  obtain ⟨t, hleads, hwritten, hconsumed, -⟩ := socket_drives_peer fresh_tun exchange_ready hrun
  exact ⟨r, t, hrun, hwritten.symm.trans hreceived, hconsumed.symm.trans hsent, hleads⟩

/-- A rule has been cancelled or is still registered. -/
theorem Loops.rule (h : Loops k offered begin faulty e) {id : RuleId} (hid : id < 4) :
    (∃ rule ∈ e.fdRules, rule.id = id) ∨ e.memory.cancelled id := by
  by_cases hmem : id ∈ e.registered
  · left
    rw [registered, h.nonFdRules] at hmem
    exact List.mem_map.mp hmem
  · have hend := h.tidy.ended id (h.nextRule ▸ hid) hmem
    rw [h.flags] at hend
    exact hend.imp_left fun hflag => absurd hflag List.not_mem_nil

/-- The socket has nothing left to do. -/
structure Finished (w : MinnowSocket α β) : Prop where
  inactive : w.tcp.active = false
  sentAll : w.outgoingSegments = []
  readAll : w.tcp.inboundStream.contents = []
  shutdown : w.threadData.shutdown = true
  cleanly : w.tcp.inboundStream.hasError = false → w.threadData.fd.eof = true ∧
    w.tcp.outboundStream.isFinished = true ∧ w.tcp.inboundStream.isClosed = true ∧
    w.tcp.sender.sequenceNumbersInFlight = 0

/-- When every rule that is left has declined, there is nothing left to do. -/
theorem Loops.finished (h : Loops k offered begin False e)
    (hexit : ∀ rule ∈ e.fdRules, Told rule.id false e.memory.world) : Finished e.memory.world := by
  obtain ⟨⟨t, ht⟩, -, hclosing⟩ := h.serving
  have htold {id : RuleId} (hid : id < 4) (hkept : ¬ e.memory.cancelled id) :
      Told id false e.memory.world := by
    obtain ⟨rule, hrule, rfl⟩ := (h.rule hid).resolve_right hkept
    exact hexit rule hrule
  have hinactive : e.memory.world.tcp.active = false :=
    htold (by decide : 0 < 4) hclosing.networkLost
  obtain ⟨hempty, hshut⟩ := htold (by decide : 2 < 4) hclosing.readerLost
  have hclean : e.memory.world.tcp.inboundStream.hasError = false →
      e.memory.world.tcp.outboundStream.isFinished = true ∧
      e.memory.world.tcp.inboundStream.isClosed = true ∧
      e.memory.world.tcp.sender.sequenceNumbersInFlight = 0 := by
    intro herror
    rw [active, herror] at hinactive
    simpa [and_assoc] using hinactive
  refine ⟨hinactive, htold (by decide : 3 < 4) hclosing.networkBlocked, ?_, ?_, fun herror => ?_⟩
  · rw [← List.length_eq_zero_iff, ← ht.inbound.buffered]
    exact hempty
  · rw [hclosing.inbound]
    cases herror : e.memory.world.tcp.inboundStream.hasError with
    | true => exact hshut (Or.inr herror)
    | false =>
        refine hshut (Or.inl ?_)
        rw [ByteStream.isFinished, (hclean herror).2.1, hempty]
        rfl
  · refine ⟨?_, hclean herror⟩
    have hfinished := (hclean herror).1
    rw [ByteStream.isFinished, Bool.and_eq_true] at hfinished
    exact hclosing.ownerClosed hfinished.1

/-- The thread of a socket that nobody aborts, and whose descriptors the kernel reports no error
or hangup of, leaves its loop, when no read of the owner's bytes has asked to be made again, only
when the TCPPeer need not be driven on, all segments have been given to the adapter, and the
owner has got every byte and been told that no more will come. Unless a reset or an error has
ended the connection, the owner has then closed its end, all it has written has been sent and
acknowledged, and the inbound stream is closed. -/
theorem socket_exits_finished (h : Fresh k threadData x)
    (hready : ∀ t ∈ opening ++ turns, t.answers.threadRead.Ready)
    (hfault : ∀ t ∈ opening ++ turns, ¬ t.kernel.Faulty) (habort : ∀ t ∈ turns, t.abort = false)
    (hlife : life a o (start threadData x answers tcpConfig random) config lossRates opened started
      opening turns = .ok (r, true)) : Finished r.socket := by
  obtain ⟨hloops, hends⟩ := loops_life h (answers_brought hready) hfault hlife
  refine hloops.finished ((hends rfl).resolve_left ?_)
  rintro ⟨t, ht, haborted⟩
  rw [habort t ht] at haborted
  cases haborted

theorem socket_exits_finished_exchange :
    ∃ r : Running TCPOverIPv4OverTunFdAdapter DeviceAnswers, exchange = .ok (r, true) ∧
      r.socket.tcp.inboundStream.hasError = false ∧ Finished r.socket := by
  obtain ⟨r, hrun, -, -, herror⟩ := exchange_run
  have hfault : ∀ t ∈ exchangeOpening ++ exchangeTurns, ¬ t.kernel.Faulty := by
    simp only [exchangeOpening, exchangeTurns, List.cons_append, List.nil_append,
      List.forall_mem_cons]
    refine ⟨?_, ?_, ?_, ?_, ?_, ?_, ?_, ?_, fun t ht => by cases ht⟩ <;>
      exact tunTurn_quiet _ ⟨rfl, rfl⟩ _ _
  exact ⟨r, hrun, herror, socket_exits_finished fresh_tun exchange_ready hfault (by decide) hrun⟩

end MinnowSocket
end Minnow
