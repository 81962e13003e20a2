import Minnow.TCPPeerSides
import Mathlib.Logic.Function.Basic

/-!
Two TCPPeers over a network. Whatever a peer hands out stays in the network: it may be
delivered at any time, in any order and any number of times, or never.
-/

namespace Minnow
open Transition TCPSenderMessage Connection
open TCPPeer (Emission)

inductive Side where
  | left
  | right
  deriving Repr, DecidableEq

namespace Side

def other : Side → Side
  | left => right
  | right => left

@[simp] theorem other_other (d : Side) : d.other.other = d := by cases d <;> rfl

theorem other_ne (d : Side) : d.other ≠ d := by cases d <;> nofun

theorem eq_other {d e : Side} (h : e ≠ d) : e = d.other := by
  cases d with
  | left =>
      cases e with
      | left => exact absurd rfl h
      | right => rfl
  | right =>
      cases e with
      | left => rfl
      | right => exact absurd rfl h

end Side

structure Conversation where
  peer : Side → TCPPeer
  emitted : Side → List Emission := fun _ => []

namespace Conversation

inductive Input where
  | deliver (k : Nat)
  | write (data : Bytes)
  | close (pushes : Bool)
  | push
  | maybeSend
  | tick (ms : Nat)
  | pop (len : Nat)
  deriving Repr, DecidableEq

/-- The peer on side `d` takes a step. -/
def act (s : Conversation) (d : Side) (input : TCPPeer.Input) : Conversation :=
  { s with peer := Function.update s.peer d ((s.peer d).step input) }

/-- Nothing is written after the stream has been closed. -/
def step (s : Conversation) : Side × Input → Conversation
  | (d, .deliver k) =>
      match (s.emitted d.other)[k]? with
      | some e => s.act d (.receive e.segment)
      | none => s
  | (d, .write data) =>
      if (s.peer d).outboundStream.isClosed then s else s.act d (.write data)
  | (d, .close pushes) => s.act d (.close pushes)
  | (d, .push) => s.act d .push
  | (d, .maybeSend) =>
      { s.act d .maybeSend with
        emitted := Function.update s.emitted d (s.emitted d ++ (s.peer d).emission) }
  | (d, .tick ms) => s.act d (.tick ms)
  | (d, .pop len) => s.act d (.pop len)

def start (cfg : Side → TCPConfig) (random : Side → Wrap32) : Conversation :=
  { peer := fun d => TCPPeer.ofConfig (cfg d) (random d) }

/-- What side `d` sends and the other side receives. -/
def direction (s : Conversation) (d : Side) : Connection :=
  TCPPeer.direction (s.peer d) (s.peer d.other)

theorem act_self (s : Conversation) (d : Side) (input : TCPPeer.Input) :
    (s.act d input).peer d = (s.peer d).step input := Function.update_self ..

theorem act_other (s : Conversation) (d : Side) (input : TCPPeer.Input) :
    (s.act d input).peer d.other = s.peer d.other := Function.update_of_ne d.other_ne ..

theorem direction_act_self (s : Conversation) (d : Side) (input : TCPPeer.Input) :
    (s.act d input).direction d =
      { s.direction d with source := ((s.peer d).step input).source } := by
  rw [direction, act_self, act_other]
  rfl

theorem direction_act_other (s : Conversation) (d : Side) (input : TCPPeer.Input) :
    (s.act d input).direction d.other =
      TCPPeer.direction (s.peer d.other) ((s.peer d).step input) := by
  rw [direction, act_other, Side.other_other, act_self]

/-- What a segment in the network says: it is one that has been created, or an empty one
at the sequence number that its peer had come to. -/
structure Honest (isn : Wrap32) (created : List TCPSenderMessage) (e : Emission) : Prop where
  reset : e.segment.reset = false
  message : e.segment.senderMessage ∈ created ∨
    e.segment.senderMessage = { seqno := Wrap32.wrap e.sent isn }
  sent : e.sent ≤ seqLen created

theorem Honest.mono {isn : Wrap32} {created created' : List TCPSenderMessage} {e : Emission}
    (h : Honest isn created e) (hmore : created <+: created') : Honest isn created' e := by
  obtain ⟨more, rfl⟩ := hmore
  refine ⟨h.reset, ?_, ?_⟩
  · cases h.message with
    | inl hm => exact Or.inl (List.mem_append_left more hm)
    | inr hempty => exact Or.inr hempty
  · rw [seqLen_append]
    exact Nat.le_add_right_of_le h.sent

/-- One direction: its invariant, and its segments in the network. -/
def Carries (isn : Wrap32) (initialRTOms : Nat) (c : Connection) (emitted : List Emission) : Prop :=
  ∃ h, Announced isn initialRTOms c h ∧ ∀ e ∈ emitted, Honest isn h.sent.created e

/-- The invariant of a conversation. -/
structure Conversing (isn : Side → Wrap32) (initialRTOms : Side → Nat) (s : Conversation) :
    Prop where
  outbound : ∀ d, (s.peer d).outboundStream.hasError = false
  inbound : ∀ d, (s.peer d).inboundStream.hasError = false
  carries : ∀ d, Carries (isn d) (initialRTOms d) (s.direction d) (s.emitted d)

/-- What `Carries` says of one history. -/
structure Tells (isn : Wrap32) (initialRTOms : Nat) (c : Connection) (emitted : List Emission)
    (h : History) : Prop where
  announced : Announced isn initialRTOms c h
  honest : ∀ e ∈ emitted, Honest isn h.sent.created e

/-- The invariant with the history of each direction. -/
structure ConversingWith (isn : Side → Wrap32) (initialRTOms : Side → Nat) (s : Conversation)
    (history : Side → History) : Prop where
  outbound : ∀ d, (s.peer d).outboundStream.hasError = false
  inbound : ∀ d, (s.peer d).inboundStream.hasError = false
  tells : ∀ d, Tells (isn d) (initialRTOms d) (s.direction d) (s.emitted d) (history d)

/-- Fewer than `2 ^ 31 - 2` bytes have been written in each direction. -/
def Within (s : Conversation) : Prop :=
  ∀ d, (s.peer d).outboundStream.bytesPushed < 2 ^ 31 - 2

variable {isn : Side → Wrap32} {initialRTOms : Side → Nat} {s t : Conversation}
  {history history' : Side → History}

theorem ConversingWith.conversing (hs : ConversingWith isn initialRTOms s history) :
    Conversing isn initialRTOms s :=
  ⟨hs.outbound, hs.inbound, fun d => ⟨history d, (hs.tells d).announced, (hs.tells d).honest⟩⟩

theorem Conversing.with_history (hs : Conversing isn initialRTOms s) :
    ∃ history, ConversingWith isn initialRTOms s history := by
  obtain ⟨history, hhistory⟩ := Classical.skolem.mp hs.carries
  exact ⟨history, hs.outbound, hs.inbound, fun d => ⟨(hhistory d).1, (hhistory d).2⟩⟩

/-- The input of the peer on side `d` that a step comes to. -/
def inputOf (s : Conversation) (d : Side) : Input → Option TCPPeer.Input
  | .deliver k => (s.emitted d.other)[k]?.map fun e => .receive e.segment
  | .write data => if (s.peer d).outboundStream.isClosed then none else some (.write data)
  | .close pushes => some (.close pushes)
  | .push => some .push
  | .maybeSend => some .maybeSend
  | .tick ms => some (.tick ms)
  | .pop len => some (.pop len)

/-- What a step of the peer on side `d` adds to the histories: bytes written in its own
direction, and bytes consumed in the one that it receives. -/
structure Acts (history history' : Side → History) (d : Side) (p : TCPPeer)
    (input : TCPPeer.Input) : Prop where
  sends : Gains (history d) (history' d) (p.entered input) []
  receives : Gains (history d.other) (history' d.other) [] (p.left input)

/-- The two directions from the side of the peer that takes a step. -/
theorem conversingWith_of (d : Side) {sends receives : History}
    (houtbound : ∀ e, (t.peer e).outboundStream.hasError = false)
    (hinbound : ∀ e, (t.peer e).inboundStream.hasError = false)
    (hsends : Tells (isn d) (initialRTOms d) (t.direction d) (t.emitted d) sends)
    (hreceives : Tells (isn d.other) (initialRTOms d.other) (t.direction d.other)
      (t.emitted d.other) receives) :
    ConversingWith isn initialRTOms t (Function.update (fun _ => receives) d sends) := by
  refine ⟨houtbound, hinbound, fun e => ?_⟩
  by_cases he : e = d
  · subst he
    rw [Function.update_self]
    exact hsends
  · rw [Function.update_of_ne he, Side.eq_other he]
    exact hreceives

theorem acts_of {d : Side} {p : TCPPeer} {input : TCPPeer.Input} {sends receives : History}
    (hsends : Gains (history d) sends (p.entered input) [])
    (hreceives : Gains (history d.other) receives [] (p.left input)) :
    Acts history (Function.update (fun _ => receives) d sends) d p input := by
  constructor
  · rw [Function.update_self]
    exact hsends
  · rw [Function.update_of_ne d.other_ne]
    exact hreceives

/-- A step of one peer brings up no error. -/
theorem ConversingWith.act_hasError (hs : ConversingWith isn initialRTOms s history) (d : Side)
    {input : TCPPeer.Input}
    (hopen : ∀ data, input = .write data → (s.peer d).outboundStream.isClosed = false)
    (hreset : ∀ seg, input = .receive seg → seg.reset = false) (e : Side) :
    ((s.act d input).peer e).outboundStream.hasError = false ∧
      ((s.act d input).peer e).inboundStream.hasError = false := by
  by_cases he : e = d
  · subst he
    obtain ⟨inputs, hsource, -⟩ := (s.peer e).step_source hopen
    have hsame := congrArg (fun c : SenderSide => c.outbound.hasError) hsource
    rw [act_self]
    exact ⟨hsame.trans ((SenderSide.run_hasError _ _).trans (hs.outbound e)),
      TCPPeer.step_hasError hreset (hs.inbound e)⟩
  · rw [Side.eq_other he, act_other]
    exact ⟨hs.outbound _, hs.inbound _⟩

/-- A step of one peer, given what becomes of the direction that it receives. -/
theorem ConversingWith.act (hs : ConversingWith isn initialRTOms s history) (d : Side)
    {input : TCPPeer.Input} {receives : History}
    (hopen : ∀ data, input = .write data → (s.peer d).outboundStream.isClosed = false)
    (hreset : ∀ seg, input = .receive seg → seg.reset = false)
    (hreceives : Announced (isn d.other) (initialRTOms d.other)
      (TCPPeer.direction (s.peer d.other) ((s.peer d).step input)) receives)
    (hgains : Gains (history d.other) receives [] ((s.peer d).left input)) :
    ∃ history', ConversingWith isn initialRTOms (s.act d input) history' ∧
      Acts history history' d (s.peer d) input := by
  obtain ⟨inputs, hsource, hentered⟩ := (s.peer d).step_source hopen
  obtain ⟨sends, hsends, hmore⟩ := (hs.tells d).announced.source_run inputs
  have herror := hs.act_hasError d hopen hreset
  refine ⟨_, conversingWith_of d (fun e => (herror e).1) (fun e => (herror e).2) ⟨?_, ?_⟩ ⟨?_, ?_⟩,
    acts_of (hentered ▸ hmore) hgains⟩
  · rw [direction_act_self, hsource]
    exact hsends
  · exact fun m hm => ((hs.tells d).honest m hm).mono hmore.created
  · rw [direction_act_other]
    exact hreceives
  · exact fun m hm => ((hs.tells d.other).honest m hm).mono hgains.created

theorem ConversingWith.outward (hs : ConversingWith isn initialRTOms s history) (d : Side)
    {input : TCPPeer.Input} (houtward : TCPPeer.Outward input)
    (hopen : ∀ data, input = .write data → (s.peer d).outboundStream.isClosed = false) :
    ∃ history', ConversingWith isn initialRTOms (s.act d input) history' ∧
      Acts history history' d (s.peer d) input := by
  have hreceives := (hs.tells d.other).announced
  rw [direction, Side.other_other, ← TCPPeer.direction_outward _ _ houtward] at hreceives
  refine hs.act d hopen (fun seg hseg => ?_) hreceives ?_
  · rw [hseg] at houtward
    exact houtward.elim
  · rw [TCPPeer.left_outward houtward]
    exact Gains.refl _

theorem ConversingWith.deliver (hs : ConversingWith isn initialRTOms s history)
    (hwithin : s.Within) (d : Side) {e : Emission} (he : e ∈ s.emitted d.other) :
    ∃ history', ConversingWith isn initialRTOms (s.act d (.receive e.segment)) history' ∧
      Acts history history' d (s.peer d) (.receive e.segment) := by
  obtain ⟨hc, honest⟩ := hs.tells d.other
  have hhonest := honest e he
  rw [direction, Side.other_other] at hc
  have hdelivered : ∃ h', Announced (isn d.other) (initialRTOms d.other)
      ((TCPPeer.direction (s.peer d.other) (s.peer d)).deliver e.segment.senderMessage) h' ∧
        Gains (history d.other) h' [] [] := by
    cases hhonest.message with
    | inl hm => exact hc.deliver (hwithin d.other) hm
    | inr hempty => exact hc.deliver_empty (by rw [hempty]; rfl)
  obtain ⟨receives, hreceives, hgains⟩ := hdelivered
  refine hs.act d (fun _ h => by cases h) (fun seg hseg => ?_) ?_ hgains
  · cases hseg
    exact hhonest.reset
  · rw [TCPPeer.step, TCPPeer.direction_receive _ _ hhonest.reset (hs.inbound d)]
    exact hreceives

theorem ConversingWith.pop (hs : ConversingWith isn initialRTOms s history) (hwithin : s.Within)
    (d : Side) (len : Nat) : ∃ history', ConversingWith isn initialRTOms (s.act d (.pop len))
      history' ∧ Acts history history' d (s.peer d) (.pop len) := by
  have hc := (hs.tells d.other).announced
  rw [direction, Side.other_other] at hc
  obtain ⟨receives, hreceives, hgains⟩ := hc.read (hwithin d.other) len
  rw [← TCPPeer.direction_pop] at hreceives hgains
  exact hs.act d (fun _ h => by cases h) (fun _ h => by cases h) hreceives hgains

/-- The push that comes before a message is taken keeps the direction. -/
theorem ConversingWith.before_send (hs : ConversingWith isn initialRTOms s history) {d : Side}
    {q : TCPPeer} (hq : q = s.peer d ∨ q = (s.peer d).pushed) :
    ∃ h, Announced (isn d) (initialRTOms d) { s.direction d with source := q.source } h ∧
      Gains (history d) h [] [] ∧ q.outboundStream.hasError = false ∧
      q.inboundStream.hasError = false := by
  cases hq with
  | inl hsame =>
      rw [hsame]
      exact ⟨history d, (hs.tells d).announced, Gains.refl _, hs.outbound d, hs.inbound d⟩
  | inr hpushed =>
      rw [hpushed, TCPPeer.source_pushed]
      obtain ⟨h, hc, hgains⟩ := (hs.tells d).announced.source .push
      refine ⟨h, hc, hgains, ?_, ?_⟩
      · have hsame := congrArg (fun c : SenderSide => c.outbound.hasError)
          (s.peer d).source_pushed
        exact hsame.trans ((SenderSide.step_hasError _ _).trans (hs.outbound d))
      · have houtward : TCPPeer.Outward .push := trivial
        exact (TCPPeer.outward_hasError houtward).trans (hs.inbound d)

/-- What a peer hands out is honest. -/
theorem ConversingWith.emits (hs : ConversingWith isn initialRTOms s history) (d : Side) :
    ∃ h, Tells (isn d) (initialRTOms d) ((s.act d .maybeSend).direction d)
      (s.emitted d ++ (s.peer d).emission) h ∧ Gains (history d) h [] [] := by
  obtain ⟨hc, honest⟩ := hs.tells d
  rw [direction_act_self]
  cases (s.peer d).emission_cases with
  | inl hquiet =>
      rw [hquiet.1, hquiet.2, List.append_nil]
      exact ⟨history d, ⟨hc, honest⟩, Gains.refl _⟩
  | inr hsent =>
      obtain ⟨q, hsent⟩ := hsent
      obtain ⟨h₁, hc₁, hgains, houtbound, hinbound⟩ := hs.before_send hsent.pushes
      obtain ⟨h₂, hc₂, hmore⟩ := hc₁.source .maybeSend
      rw [hsent.source]
      refine ⟨h₂, ⟨hc₂, fun e he => ?_⟩, hgains.trans hmore⟩
      cases List.mem_append.mp he with
      | inl hold => exact (honest e hold).mono (hgains.trans hmore).created
      | inr hnew =>
          have hcame := hc₁.connected.segmented.sent
          refine Honest.mono ⟨?_, ?_, ?_⟩ hmore.created
          · rw [hsent.reset e hnew, houtbound, hinbound]
            rfl
          · cases hsent.message e hnew with
            | inl hm => exact Or.inl (hcame.ready _ (TCPSender.mem_of_maybeSend hm))
            | inr hempty =>
                right
                rw [hempty, hsent.sent e hnew, ← hc₁.connected.segmented.isn]
                rfl
          · rw [hsent.sent e hnew]
            exact (Nat.le_of_eq hcame.sent).trans (u64_le _)

theorem ConversingWith.maybeSend (hs : ConversingWith isn initialRTOms s history) (d : Side) :
    ∃ history', ConversingWith isn initialRTOms (s.step (d, .maybeSend)) history' ∧
      Acts history history' d (s.peer d) .maybeSend := by
  obtain ⟨sends, hsends, hgains⟩ := hs.emits d
  obtain ⟨hc, honest⟩ := hs.tells d.other
  have herror := hs.act_hasError d (fun _ (h : TCPPeer.Input.maybeSend = _) => by cases h)
    (fun _ h => by cases h)
  have houtward : TCPPeer.Outward .maybeSend := trivial
  refine ⟨_, @conversingWith_of _ _ (s.step (d, .maybeSend)) d _ _ (fun e => (herror e).1)
    (fun e => (herror e).2) ?_ ⟨?_, ?_⟩, acts_of hgains (Gains.refl (history d.other))⟩
  · rw [← Function.update_self d (s.emitted d ++ (s.peer d).emission) s.emitted] at hsends
    exact hsends
  · rw [direction, Side.other_other, ← TCPPeer.direction_outward _ _ houtward,
      ← direction_act_other] at hc
    exact hc
  · intro m hm
    change m ∈ Function.update s.emitted d _ d.other at hm
    rw [Function.update_of_ne d.other_ne] at hm
    exact honest m hm

/-- What a step does to the histories. -/
theorem conversingWith_step (hs : ConversingWith isn initialRTOms s history) (hwithin : s.Within)
    (d : Side) (input : Input) :
    ∃ history', ConversingWith isn initialRTOms (s.step (d, input)) history' ∧
      (s.inputOf d input = none ∧ history' = history ∨
        ∃ act, s.inputOf d input = some act ∧ Acts history history' d (s.peer d) act) := by
  have hacts {t : Conversation} {act : TCPPeer.Input} (hact : s.inputOf d input = some act)
      (h : ∃ history', ConversingWith isn initialRTOms t history' ∧
        Acts history history' d (s.peer d) act) :
      ∃ history', ConversingWith isn initialRTOms t history' ∧
        (s.inputOf d input = none ∧ history' = history ∨
          ∃ act, s.inputOf d input = some act ∧ Acts history history' d (s.peer d) act) := by
    obtain ⟨history', hs', hgains⟩ := h
    exact ⟨history', hs', Or.inr ⟨act, hact, hgains⟩⟩
  cases input with
  | deliver k =>
      rw [step]
      split
      · next e he =>
          exact hacts (by simp only [inputOf, he, Option.map_some])
            (hs.deliver hwithin d (List.mem_of_getElem? he))
      · next he => exact ⟨history, hs, Or.inl ⟨by simp only [inputOf, he, Option.map_none], rfl⟩⟩
  | write data =>
      rw [step]
      split
      · next hclosed => exact ⟨history, hs, Or.inl ⟨if_pos hclosed, rfl⟩⟩
      · next hopen =>
          exact hacts (if_neg hopen)
            (hs.outward d trivial fun _ _ => Bool.eq_false_iff.mpr hopen)
  | close pushes => exact hacts rfl (hs.outward d trivial fun _ h => by cases h)
  | push => exact hacts rfl (hs.outward d trivial fun _ h => by cases h)
  | maybeSend => exact hacts rfl (hs.maybeSend d)
  | tick ms => exact hacts rfl (hs.outward d trivial fun _ h => by cases h)
  | pop len => exact hacts rfl (hs.pop hwithin d len)

theorem conversing_step (hs : Conversing isn initialRTOms s) (hwithin : s.Within)
    (input : Side × Input) : Conversing isn initialRTOms (s.step input) := by
  obtain ⟨history, hs⟩ := hs.with_history
  obtain ⟨history', hs', -⟩ := conversingWith_step hs hwithin input.1 input.2
  exact hs'.conversing

/-- What a peer has written stays written. -/
theorem act_pushed_le (s : Conversation) (d : Side) {input : TCPPeer.Input}
    (hopen : ∀ data, input = .write data → (s.peer d).outboundStream.isClosed = false)
    (e : Side) : (s.peer e).outboundStream.bytesPushed ≤
      ((s.act d input).peer e).outboundStream.bytesPushed := by
  by_cases he : e = d
  · subst he
    obtain ⟨inputs, hsource, -⟩ := (s.peer e).step_source hopen
    have hsame := congrArg (fun c : SenderSide => c.outbound.bytesPushed) hsource
    rw [act_self]
    exact (SenderSide.run_pushed_le _ inputs).trans (Nat.le_of_eq hsame.symm)
  · rw [Side.eq_other he, act_other]

/-- A step is one of the peer, or nothing; what is handed out is marked with what its peer
has sent by then. -/
theorem step_cases (s : Conversation) (d : Side) (input : Input) : s.step (d, input) = s ∨
    ∃ act, (∀ data, act = .write data → (s.peer d).outboundStream.isClosed = false) ∧
      (s.step (d, input)).peer = (s.act d act).peer ∧
      ∀ e, ∃ new, (s.step (d, input)).emitted e = s.emitted e ++ new ∧
        ∀ x ∈ new, x.sent = ((s.step (d, input)).peer e).sender.seqnumsSent := by
  have hquiet (e : Side) (t : Conversation) (ht : t.emitted = s.emitted) :
      ∃ new, t.emitted e = s.emitted e ++ new ∧
        ∀ x ∈ new, x.sent = (t.peer e).sender.seqnumsSent :=
    ⟨[], by rw [ht, List.append_nil], fun x hx => by cases hx⟩
  cases input with
  | deliver k =>
      rw [step]
      split
      · exact Or.inr ⟨_, (fun _ h => by cases h), rfl, fun e => hquiet e _ rfl⟩
      · exact Or.inl rfl
  | write data =>
      rw [step]
      split
      · exact Or.inl rfl
      · next hopen =>
          exact Or.inr ⟨_, fun _ _ => Bool.eq_false_iff.mpr hopen, rfl, fun e => hquiet e _ rfl⟩
  | maybeSend =>
      refine Or.inr ⟨.maybeSend, (fun _ h => by cases h), rfl, fun e => ?_⟩
      by_cases he : e = d
      · subst he
        refine ⟨(s.peer e).emission, Function.update_self .., fun x hx => ?_⟩
        rw [(s.peer e).emission_sent x hx]
        exact congrArg (fun p : TCPPeer => p.sender.seqnumsSent) (act_self s e .maybeSend).symm
      · refine ⟨[], ?_, fun x hx => by cases hx⟩
        rw [List.append_nil]
        exact Function.update_of_ne he ..
  | _ => exact Or.inr ⟨_, (fun _ h => by cases h), rfl, fun e => hquiet e _ rfl⟩

theorem step_pushed_le (s : Conversation) (input : Side × Input) (e : Side) :
    (s.peer e).outboundStream.bytesPushed ≤
      ((s.step input).peer e).outboundStream.bytesPushed := by
  obtain ⟨d, input⟩ := input
  cases s.step_cases d input with
  | inl hsame => rw [hsame]
  | inr hacts =>
      obtain ⟨act, hopen, hpeer, -⟩ := hacts
      rw [hpeer]
      exact act_pushed_le s d hopen e

theorem conversing_run (cfg : Side → TCPConfig) (random : Side → Wrap32)
    {inputs : List (Side × Input)} (hwithin : (run step (start cfg random) inputs).Within) :
    Conversing (fun d => (cfg d).fixedIsn.getD (random d)) (fun d => (cfg d).rtTimeout.toNat)
      (run step (start cfg random) inputs) := by
  refine run_invariant_always step (P := fun s => s.Within → Conversing _ _ s) ?_ ?_ inputs
    hwithin
  · intro _
    refine ⟨fun _ => rfl, fun _ => rfl, fun d => ⟨{}, ?_, nofun⟩⟩
    exact announced_start _ _ (cfg d).sendCapacity (cfg d.other).recvCapacity
  · intro s input hs hlater
    have hwithin : s.Within := fun e => (step_pushed_le s input e).trans_lt (hlater e)
    exact conversing_step (hs hwithin) hwithin input

end Conversation
end Minnow
