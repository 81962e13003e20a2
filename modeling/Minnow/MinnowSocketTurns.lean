import Minnow.MinnowSocketRuns
import Minnow.SocketPair

/-!
What one turn of a socket does to the end of the stream sockets that it shares with its owner: it
reads from it at most once and writes to it at most once, as the system calls of the turn answer.
-/

namespace Minnow
open Throwing EventLoop

namespace MinnowSocket
open TCPPeer

variable {α β : Type} {a : Adapter α β} {k : a.Carrier} {offered : TCPSegment → Prop}
  {begin : TCPPeer × Traffic} {faulty : Prop} {w w' : MinnowSocket α β}

theorem collectSegments_threadData (h : w.collectSegments = .ok w') :
    w'.threadData = w.threadData := by
  obtain ⟨⟨tcp, segs⟩, -, h⟩ := bind_eq_ok.mp h
  cases h
  rfl

/-- Nothing is exchanged before the first turn. -/
theorem begin_threadData {o : Opening} {config : FdAdapterConfig} {lossRates : LossRates}
    {e : EventLoop (MinnowSocket α β)} (h : o.begin a w config lossRates = .ok e) :
    e.memory.world.threadData = w.threadData := by
  cases o with
  | listenAndAccept =>
      obtain ⟨e₀, -, h⟩ := bind_eq_ok.mp h
      cases h
      rfl
  | connect =>
      obtain ⟨e₀, -, h⟩ := bind_eq_ok.mp h
      obtain ⟨tcp, -, h⟩ := bind_eq_ok.mp h
      obtain ⟨w₁, hcollect, h⟩ := bind_eq_ok.mp h
      dsimp only at h
      split at h
      · cases h
      · cases h
        have hsame := collectSegments_threadData hcollect
        exact hsame

/-- One callback of the socket exchanges bytes with its owner. -/
theorem once_rules (k : a.Carrier) (offered : TCPSegment → Prop) (begin : TCPPeer × Traffic)
    (faulty : Prop) (c : Channel) (answers : SocketAnswers β) :
    Once (rules a) (Steady k offered begin faulty) (fun r answer m => Told r answer m.world)
      (fun w => w.threadData = c ∧ w.answers = answers)
      fun w => c.Exchanges w.threadData answers.threadRead answers.threadWrite where
  cancels := by
    refine forall_rules ?_ ?_ ?_ ?_ <;> intro w left hleft <;> cases hleft <;>
      exact ⟨fun h => h, fun h => h⟩
  recovers := by
    refine forall_rules ?_ ?_ ?_ ?_ <;> intro w left hleft <;> cases hleft <;>
      exact ⟨fun h => h, fun h => h⟩
  serves := by
    refine forall_rules ?_ ?_ ?_ ?_ <;> rintro m ⟨w, flags⟩ hm htold ⟨rfl, rfl⟩ hcall
    · obtain ⟨⟨datagramAdapter, seg⟩, -, hcall⟩ := bind_eq_ok.mp hcall
      cases seg with
      | none =>
          cases hcall
          exact Channel.Exchanges.refl _ _ _
      | some seg =>
          obtain ⟨w₁, hcollect, hcall⟩ := bind_eq_ok.mp hcall
          cases hcall
          dsimp only
          rw [collectSegments_threadData hcollect]
          exact Channel.Exchanges.refl _ _ _
    · obtain ⟨⟨threadData, outboundStream⟩, hread, hcall⟩ := bind_eq_ok.mp hcall
      obtain ⟨tcp, -, hcall⟩ := bind_eq_ok.mp hcall
      obtain ⟨w₁, hcollect, hcall⟩ := bind_eq_ok.mp hcall
      cases hcall
      rw [collectSegments_threadData hcollect]
      exact Channel.exchanges_readInto htold.2 hm.answers.ready hread
    · obtain ⟨⟨threadData, inboundStream⟩, hwrite, hcall⟩ := bind_eq_ok.mp hcall
      obtain ⟨t, ht⟩ := hm.serving.drives
      have hwrote := Channel.exchanges_writeFrom m.world.answers.threadRead ht.inbound hwrite
      dsimp only at hcall
      split at hcall
      · obtain ⟨ended, hshut, hcall⟩ := bind_eq_ok.mp hcall
        cases hcall
        exact hwrote.shutdownWrite hshut
      · cases hcall
        exact hwrote
    · obtain ⟨datagramAdapter, -, hcall⟩ := bind_eq_ok.mp hcall
      cases hcall
      exact Channel.Exchanges.refl _ _ _

theorem Loops.exchanges {r r' : Running α β} {t : Turn β} {left : Bool}
    (h : Loops k offered begin faulty r.eventLoop) (hanswers : Answers k offered t.answers)
    (hfault : t.kernel.Faulty → faulty) (hturn : tcpTurn a r t = .ok (r', left)) :
    r.socket.threadData.Exchanges r'.socket.threadData t.answers.threadRead
      t.answers.threadWrite := by
  obtain ⟨⟨ret, e⟩, hwait, hturn⟩ := bind_eq_ok.mp hturn
  have hbefore := h.answered t.answers
  have honce := once_rules k offered begin faulty r.socket.threadData t.answers
  have hafter : r.socket.threadData.Exchanges e.memory.world.threadData t.answers.threadRead
      t.answers.threadWrite := by
    have hwaited := ((preserves_steady k offered begin faulty).subset (List.Subset.refl _)
      hbefore.fdRules).waitNextEvent_once (honce.subset hbefore.fdRules) hbefore.tidy
      hbefore.nonFdRules hfault ⟨hbefore.flags, hbefore.serving, hanswers⟩ ⟨rfl, rfl⟩ hwait
    cases hwaited with
    | inl hsame =>
        rw [hsame.1]
        exact Channel.Exchanges.refl _ _ _
    | inr hexchanges => exact hexchanges
  dsimp only at hturn
  split at hturn
  · cases hturn
    exact hafter
  · split at hturn
    · obtain ⟨w, hcollect, hturn⟩ := bind_eq_ok.mp hturn
      obtain ⟨datagramAdapter, -, hturn⟩ := bind_eq_ok.mp hturn
      cases hturn
      have hsame := collectSegments_threadData hcollect
      rw [← hsame] at hafter
      exact hafter
    · cases hturn
      exact hafter

end MinnowSocket
end Minnow
