import Minnow.SocketPair
import Minnow.StreamCopyRuns

/-!
What one turn of the copying program does to its socket: it reads from it at most once and writes
to it at most once, as the system calls of the turn answer.
-/

namespace Minnow
open Throwing EventLoop

namespace StreamCopy

variable {faulty : Prop} {e e' : EventLoop StreamCopy} {c : Channel} {answers : CopyAnswers}

/-- One callback of the program exchanges bytes over the socket. -/
theorem once_rules (faulty : Prop) (c : Channel) (answers : CopyAnswers) :
    Once rules (Running faulty) (fun r answer m => Told r answer m.world)
      (fun w => w.socket = c ∧ w.answers = answers)
      fun w => c.Exchanges w.socket answers.socketRead answers.socketWrite where
  cancels := by
    refine forall_rules ?_ ?_ ?_ ?_ <;> intro w left hleft <;> cases hleft <;>
      exact ⟨fun h => h, fun h => h⟩
  recovers := by
    refine forall_rules ?_ ?_ ?_ ?_ <;> intro w left hleft <;> cases hleft <;>
      exact ⟨fun h => h, fun h => h⟩
  serves := by
    refine forall_rules ?_ ?_ ?_ ?_ <;> rintro m ⟨w, flags⟩ hm htold ⟨rfl, rfl⟩ hcall
    · obtain ⟨⟨input, outbound⟩, -, hcall⟩ := bind_eq_ok.mp hcall
      cases hcall
      exact Channel.Exchanges.refl _ _ _
    · obtain ⟨⟨socket, outbound⟩, hwrite, hcall⟩ := bind_eq_ok.mp hcall
      have hwrote := Channel.exchanges_writeFrom m.world.answers.socketRead hm.2.1.outward.wf hwrite
      dsimp only at hcall
      split at hcall
      · obtain ⟨ended, hshut, hcall⟩ := bind_eq_ok.mp hcall
        cases hcall
        exact hwrote.shutdownWrite hshut
      · cases hcall
        exact hwrote
    · obtain ⟨⟨socket, inbound⟩, hread, hcall⟩ := bind_eq_ok.mp hcall
      cases hcall
      exact Channel.exchanges_readInto htold.2 hm.2.2.2 hread
    · obtain ⟨⟨output, inbound⟩, -, hcall⟩ := bind_eq_ok.mp hcall
      dsimp only at hcall
      split at hcall
      · obtain ⟨ended, -, hcall⟩ := bind_eq_ok.mp hcall
        cases hcall
        exact Channel.Exchanges.refl _ _ _
      · cases hcall
        exact Channel.Exchanges.refl _ _ _

theorem Loops.exchanges {kernel : Kernel} {result : Result} (h : Loops faulty e)
    (hready : Readable answers) (hfault : kernel.Faulty → faulty)
    (hwait : (answered e answers).waitNextEvent kernel = .ok (result, e')) :
    e.memory.world.socket.Exchanges e'.memory.world.socket answers.socketRead
      answers.socketWrite := by
  have hcopies : Copies faulty e.memory.cancelled { e.memory.world with answers } :=
    { h.copies with }
  have hpreserves : Preserves [] (answered e answers).fdRules faulty (Running faulty)
      fun r answer m => Told r answer m.world :=
    (preserves_running faulty).subset (List.Subset.refl _) h.fdRules
  have honce := (once_rules faulty e.memory.world.socket answers).subset h.fdRules
  have htidy : Tidy (answered e answers) := h.tidy.change _
  have hturn := hpreserves.waitNextEvent_once honce htidy h.nonFdRules hfault
    ⟨h.flags, hcopies, hready⟩ ⟨rfl, rfl⟩ hwait
  cases hturn with
  | inl hsame =>
      rw [hsame.1]
      exact Channel.Exchanges.refl _ _ _
  | inr hexchanges => exact hexchanges

end StreamCopy

end Minnow
