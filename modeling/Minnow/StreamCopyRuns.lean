import Minnow.StreamCopy

/-!
What the copying program copies. In each direction, what has been written and what is still
buffered are together what has been read; the writing side is ended only when nothing more
can come, and the program returns only when both are, unless a descriptor has failed.
-/

namespace Minnow
open Throwing EventLoop
namespace StreamCopy

/-- One direction. `ended` says that its reading rule has been cancelled, `lost` its writing
rule, and `done` that the end has been passed on. -/
structure Copying (received : Bytes) (eof : Bool) (sent : Bytes) (stream : ByteStream)
    (ended lost : Prop) (done : Bool) : Prop where
  wf : stream.WF
  hasError : stream.hasError = false
  capacity : stream.capacity = bufferSize
  copied : sent ++ stream.contents = received
  closed : stream.isClosed = true → eof = true ∨ ended ∨ lost
  endCloses : ended → stream.isClosed = true
  finished : done = true → stream.isClosed = true ∧ stream.contents = [] ∧ (eof = true ∨ ended)

variable {received sent : Bytes} {eof done : Bool} {stream stream' : ByteStream}
  {ended ended' lost lost' : Prop} {src src' dst dst' : Channel}

theorem Copying.congr (h : Copying received eof sent stream ended lost done)
    (hended : ended ↔ ended') (hlost : lost ↔ lost') :
    Copying received eof sent stream ended' lost' done := by
  rwa [← propext hended, ← propext hlost]

/-- One of the two rules is cancelled. -/
theorem Copying.close (h : Copying received eof sent stream ended lost done)
    (hended : ended → ended') (hone : ended' ∨ lost') :
    Copying received eof sent stream.close ended' lost' done where
  wf := ByteStream.close_wf h.wf
  hasError := h.hasError
  capacity := h.capacity
  copied := h.copied
  closed _ := Or.inr hone
  endCloses _ := rfl
  finished hdone := by
    obtain ⟨-, hnil, hend⟩ := h.finished hdone
    exact ⟨rfl, hnil, hend.imp_right hended⟩

/-- The reading rule is served, while nothing has ended it. -/
theorem Copying.read {outcome : Outcome}
    (h : Copying src.received src.fd.eof sent stream ended lost done) (hopen : src.fd.eof = false)
    (hlive : ¬ ended) (hroom : 0 < stream.availableCapacity) (hready : outcome.Ready)
    (hread : src.readInto outcome stream = .ok (src', stream')) :
    Copying src'.received src'.fd.eof sent stream' ended lost done := by
  obtain ⟨data, hgives, hgrows, herror, hclosed⟩ := Channel.readInto_ok h.wf hroom hready hread
  refine ⟨hgrows.wf, herror.trans h.hasError, hgrows.capacity.trans h.capacity, ?_, ?_,
    fun hended => absurd hended hlive, ?_⟩
  · rw [hgrows.contents, hgives.received, ← h.copied, List.append_assoc]
  · intro hclose
    rw [hclosed, Bool.or_eq_true] at hclose
    cases hclose with
    | inl hbefore =>
        cases h.closed hbefore with
        | inl heof => rw [hopen] at heof; cases heof
        | inr hend => exact Or.inr hend
    | inr heof => exact Or.inl heof
  · intro hdone
    obtain ⟨-, -, hend⟩ := h.finished hdone
    cases hend with
    | inl heof => rw [hopen] at heof; cases heof
    | inr hended => exact absurd hended hlive

/-- The writing rule is served. -/
theorem Copying.write {outcome : CountOutcome}
    (h : Copying received eof dst.sent stream ended lost done)
    (hwrite : dst.writeFrom outcome stream = .ok (dst', stream')) :
    Copying received eof dst'.sent stream' ended lost done := by
  obtain ⟨n, htakes, hshrinks, herror⟩ := Channel.writeFrom_ok h.wf hwrite
  refine ⟨hshrinks.wf, herror.trans h.hasError, hshrinks.capacity.trans h.capacity, ?_, ?_, ?_, ?_⟩
  · rw [htakes.sent, hshrinks.contents, List.append_assoc, List.take_append_drop]
    exact h.copied
  · rw [hshrinks.closed]
    exact h.closed
  · rw [hshrinks.closed]
    exact h.endCloses
  · intro hdone
    obtain ⟨hclose, hnil, hend⟩ := h.finished hdone
    rw [hshrinks.closed, hshrinks.contents, hnil, List.drop_nil]
    exact ⟨hclose, rfl, hend⟩

/-- The end is passed on once the stream is finished. -/
theorem Copying.finish (h : Copying received eof sent stream ended lost done) (hlive : ¬ lost)
    (hfinished : stream.isFinished = true) :
    Copying received eof sent stream ended lost true := by
  obtain ⟨hclose, hnil⟩ := (ByteStream.isFinished_iff h.wf).mp hfinished
  refine ⟨h.wf, h.hasError, h.capacity, h.copied, h.closed, h.endCloses,
    fun _ => ⟨hclose, hnil, ?_⟩⟩
  cases h.closed hclose with
  | inl heof => exact Or.inl heof
  | inr hend =>
      cases hend with
      | inl hended => exact Or.inr hended
      | inr hlost => exact absurd hlost hlive

/-- What holds between the turns of the loop, given the rules that have been cancelled. -/
structure Copies (faulty : Prop) (cancelled : RuleId → Prop) (w : StreamCopy) : Prop where
  outward : Copying w.input.received w.input.fd.eof w.socket.sent w.outbound (cancelled 0)
    (cancelled 1) w.outboundShutdown
  inward : Copying w.socket.received w.socket.fd.eof w.output.sent w.inbound (cancelled 2)
    (cancelled 3) w.inboundShutdown
  shutdown : w.socket.shutdown = w.outboundShutdown
  inputOpen : w.input.fd.closed = false
  socketOpen : w.socket.fd.closed = false
  outputOpen : w.output.fd.closed = w.inboundShutdown
  inputEnded : cancelled 0 → w.input.fd.eof = true ∨ faulty
  socketLost : cancelled 1 → faulty
  socketEnded : cancelled 2 → w.socket.fd.eof = true ∨ faulty
  outputLost : cancelled 3 → w.inboundShutdown = true ∨ faulty

/-- What a rule has answered, as long as it holds. -/
def Told : RuleId → Bool → StreamCopy → Prop
  | 0, true, w => w.input.fd.eof = false ∧ 0 < w.outbound.availableCapacity
  | 0, false, w => w.outbound.availableCapacity = 0
  | 1, false, w => w.outbound.contents = [] ∧
      (w.outbound.isClosed = true → w.outboundShutdown = true)
  | 2, true, w => w.socket.fd.eof = false ∧ 0 < w.inbound.availableCapacity
  | 2, false, w => w.inbound.availableCapacity = 0
  | 3, false, w => w.inbound.contents = [] ∧
      (w.inbound.isClosed = true → w.inboundShutdown = true)
  | _, _, _ => True

/-- The reads that the next turn may make do not ask to be made again. -/
def Readable (answers : CopyAnswers) : Prop := answers.inputRead.Ready ∧ answers.socketRead.Ready

variable {faulty : Prop} {cancelled : RuleId → Prop} {w w' : StreamCopy} {flags : List RuleId}

theorem Copies.readInput (h : Copies faulty cancelled w) (hlive : ¬ cancelled 0)
    (htold : Told 0 true w) (hready : Readable w.answers)
    (hcall : (StreamCopy.readInput 0).callback w = .ok (w', flags)) :
    Copies faulty cancelled w' ∧ w'.answers = w.answers ∧ flags = [] := by
  obtain ⟨⟨input, outbound⟩, hread, hcall⟩ := bind_eq_ok.mp hcall
  cases hcall
  obtain ⟨data, hgives, -⟩ := Channel.readInto_ok h.outward.wf htold.2 hready.1 hread
  refine ⟨{ h with
    outward := h.outward.read htold.1 hlive htold.2 hready.1 hread
    inputOpen := hgives.closed.trans h.inputOpen
    inputEnded := fun hend => absurd hend hlive }, rfl, rfl⟩

theorem Copies.readSocket (h : Copies faulty cancelled w) (hlive : ¬ cancelled 2)
    (htold : Told 2 true w) (hready : Readable w.answers)
    (hcall : (StreamCopy.readSocket 2).callback w = .ok (w', flags)) :
    Copies faulty cancelled w' ∧ w'.answers = w.answers ∧ flags = [] := by
  obtain ⟨⟨socket, inbound⟩, hread, hcall⟩ := bind_eq_ok.mp hcall
  cases hcall
  obtain ⟨data, hgives, -⟩ := Channel.readInto_ok h.inward.wf htold.2 hready.2 hread
  refine ⟨{ h with
    outward := by rw [hgives.sent]; exact h.outward
    inward := h.inward.read htold.1 hlive htold.2 hready.2 hread
    shutdown := hgives.shutdown.trans h.shutdown
    socketOpen := hgives.closed.trans h.socketOpen
    socketEnded := fun hend => absurd hend hlive }, rfl, rfl⟩

theorem Copies.writeSocket (h : Copies faulty cancelled w) (hlive : ¬ cancelled 1)
    (hcall : (StreamCopy.writeSocket 1).callback w = .ok (w', flags)) :
    Copies faulty cancelled w' ∧ w'.answers = w.answers ∧ flags = [] := by
  obtain ⟨⟨socket, outbound⟩, hwrite, hcall⟩ := bind_eq_ok.mp hcall
  obtain ⟨n, htakes, -⟩ := Channel.writeFrom_ok h.outward.wf hwrite
  have hout := h.outward.write hwrite
  have hin : Copying socket.received socket.fd.eof w.output.sent w.inbound (cancelled 2)
      (cancelled 3) w.inboundShutdown := by
    rw [htakes.received, htakes.eof]
    exact h.inward
  have hended (hend : cancelled 2) : socket.fd.eof = true ∨ faulty := by
    rw [htakes.eof]
    exact h.socketEnded hend
  dsimp only at hcall
  split at hcall
  · next hfinished =>
      obtain ⟨ended, hshut, hcall⟩ := bind_eq_ok.mp hcall
      cases hcall
      have hsame := Channel.shutdownWrite_ok hshut
      subst hsame
      exact ⟨⟨hout.finish hlive hfinished, hin, rfl, h.inputOpen, htakes.closed.trans h.socketOpen,
        h.outputOpen, h.inputEnded, h.socketLost, hended, h.outputLost⟩, rfl, rfl⟩
  · cases hcall
    exact ⟨⟨hout, hin, htakes.shutdown.trans h.shutdown, h.inputOpen,
      htakes.closed.trans h.socketOpen, h.outputOpen, h.inputEnded, h.socketLost, hended,
      h.outputLost⟩, rfl, rfl⟩

theorem Copies.writeOutput (h : Copies faulty cancelled w) (hlive : ¬ cancelled 3)
    (hcall : (StreamCopy.writeOutput 3).callback w = .ok (w', flags)) :
    Copies faulty cancelled w' ∧ w'.answers = w.answers ∧ flags = [] := by
  obtain ⟨⟨output, inbound⟩, hwrite, hcall⟩ := bind_eq_ok.mp hcall
  obtain ⟨n, htakes, -⟩ := Channel.writeFrom_ok h.inward.wf hwrite
  have hin := h.inward.write hwrite
  dsimp only at hcall
  split at hcall
  · next hfinished =>
      obtain ⟨ended, hclose, hcall⟩ := bind_eq_ok.mp hcall
      cases hcall
      have hsame := Channel.close_ok hclose
      subst hsame
      exact ⟨{ h with
        inward := hin.finish hlive hfinished
        outputOpen := rfl
        outputLost := fun _ => Or.inl rfl }, rfl, rfl⟩
  · cases hcall
    exact ⟨{ h with inward := hin, outputOpen := htakes.closed.trans h.outputOpen }, rfl, rfl⟩

/-- The rule that reads the input is cancelled. -/
theorem Copies.cancelReadInput (h : Copies faulty cancelled w)
    (hwhy : w.input.fd.eof = true ∨ faulty) :
    Copies faulty (fun r => cancelled r ∨ r = 0) { w with outbound := w.outbound.close } where
  outward := h.outward.close Or.inl (Or.inl (Or.inr rfl))
  inward := h.inward.congr (by simp) (by simp)
  shutdown := h.shutdown
  inputOpen := h.inputOpen
  socketOpen := h.socketOpen
  outputOpen := h.outputOpen
  inputEnded _ := hwhy
  socketLost hend := h.socketLost (by simpa using hend)
  socketEnded hend := h.socketEnded (by simpa using hend)
  outputLost hend := h.outputLost (by simpa using hend)

theorem Copies.cancelWriteSocket (h : Copies faulty cancelled w) (hwhy : faulty) :
    Copies faulty (fun r => cancelled r ∨ r = 1) { w with outbound := w.outbound.close } where
  outward := h.outward.close Or.inl (Or.inr (Or.inr rfl))
  inward := h.inward.congr (by simp) (by simp)
  shutdown := h.shutdown
  inputOpen := h.inputOpen
  socketOpen := h.socketOpen
  outputOpen := h.outputOpen
  inputEnded _ := Or.inr hwhy
  socketLost _ := hwhy
  socketEnded _ := Or.inr hwhy
  outputLost _ := Or.inr hwhy

theorem Copies.cancelReadSocket (h : Copies faulty cancelled w)
    (hwhy : w.socket.fd.eof = true ∨ faulty) :
    Copies faulty (fun r => cancelled r ∨ r = 2) { w with inbound := w.inbound.close } where
  outward := h.outward.congr (by simp) (by simp)
  inward := h.inward.close Or.inl (Or.inl (Or.inr rfl))
  shutdown := h.shutdown
  inputOpen := h.inputOpen
  socketOpen := h.socketOpen
  outputOpen := h.outputOpen
  inputEnded hend := h.inputEnded (by simpa using hend)
  socketLost hend := h.socketLost (by simpa using hend)
  socketEnded _ := hwhy
  outputLost hend := h.outputLost (by simpa using hend)

theorem Copies.cancelWriteOutput (h : Copies faulty cancelled w)
    (hwhy : w.inboundShutdown = true ∨ faulty) :
    Copies faulty (fun r => cancelled r ∨ r = 3) { w with inbound := w.inbound.close } where
  outward := h.outward.congr (by simp) (by simp)
  inward := h.inward.close Or.inl (Or.inr (Or.inr rfl))
  shutdown := h.shutdown
  inputOpen := h.inputOpen
  socketOpen := h.socketOpen
  outputOpen := h.outputOpen
  inputEnded hend := h.inputEnded (by simpa using hend)
  socketLost hend := h.socketLost (by simpa using hend)
  socketEnded hend := h.socketEnded (by simpa using hend)
  outputLost _ := hwhy

/-- The rules as the loop has registered them. -/
def rules : List (FDRule StreamCopy) :=
  [StreamCopy.readInput 0, { StreamCopy.writeSocket 1 with categoryId := 1 },
    { StreamCopy.readSocket 2 with categoryId := 2 },
    { StreamCopy.writeOutput 3 with categoryId := 3 }]

theorem forall_rules {P : FDRule StreamCopy → Prop} (h₀ : P (StreamCopy.readInput 0))
    (h₁ : P { StreamCopy.writeSocket 1 with categoryId := 1 })
    (h₂ : P { StreamCopy.readSocket 2 with categoryId := 2 })
    (h₃ : P { StreamCopy.writeOutput 3 with categoryId := 3 }) : ∀ r ∈ rules, P r := by
  simp only [rules, List.forall_mem_cons]
  exact ⟨h₀, h₁, h₂, h₃, fun r hr => absurd hr List.not_mem_nil⟩

/-- Closing a stream takes nothing back that a rule relies on. -/
theorem told_closeOutbound (r : RuleId) : Told r true { w with outbound := w.outbound.close } ↔
    Told r true w := by
  rcases r with _ | _ | _ | _ | r <;> exact Iff.rfl

theorem told_closeInbound (r : RuleId) : Told r true { w with inbound := w.inbound.close } ↔
    Told r true w := by
  rcases r with _ | _ | _ | _ | r <;> exact Iff.rfl

theorem declined_closeOutbound {r : RuleId} (hr : r < 1) :
    Told r false { w with outbound := w.outbound.close } ↔ Told r false w := by
  rcases r with _ | r
  · exact Iff.rfl
  · exact absurd hr (Nat.not_lt.mpr (Nat.succ_le_succ (Nat.zero_le r)))

theorem declined_closeInbound {r : RuleId} (hr : r < 3) :
    Told r false { w with inbound := w.inbound.close } ↔ Told r false w := by
  rcases r with _ | _ | _ | r
  · exact Iff.rfl
  · exact Iff.rfl
  · exact Iff.rfl
  · exact absurd hr (Nat.not_lt.mpr (Nat.le_add_left 3 r))

/-- A rule that reads is interested when there is room. -/
theorem Copies.told_readInput (h : Copies faulty cancelled w) (hopen : w.input.fd.eof = false) :
    Told 0 ((StreamCopy.readInput 0).interest w) w := by
  have hinterest : (StreamCopy.readInput 0).interest w =
      decide (0 < w.outbound.availableCapacity) := by
    simp [StreamCopy.readInput, h.outward.hasError, h.inward.hasError]
  rw [hinterest]
  by_cases hroom : 0 < w.outbound.availableCapacity
  · rw [decide_eq_true hroom]
    exact ⟨hopen, hroom⟩
  · rw [decide_eq_false hroom]
    exact Nat.eq_zero_of_not_pos hroom

theorem Copies.told_readSocket (h : Copies faulty cancelled w) (hopen : w.socket.fd.eof = false) :
    Told 2 ((StreamCopy.readSocket 2).interest w) w := by
  have hinterest : (StreamCopy.readSocket 2).interest w =
      decide (0 < w.inbound.availableCapacity) := by
    simp [StreamCopy.readSocket, h.outward.hasError, h.inward.hasError]
  rw [hinterest]
  by_cases hroom : 0 < w.inbound.availableCapacity
  · rw [decide_eq_true hroom]
    exact ⟨hopen, hroom⟩
  · rw [decide_eq_false hroom]
    exact Nat.eq_zero_of_not_pos hroom

/-- A rule that writes and declines has nothing to write and no end to pass on. -/
theorem declined_write {shutdown : Bool} (hwf : stream.WF)
    (hnot : (stream.bytesBuffered != 0 || stream.isFinished && !shutdown) = false) :
    stream.contents = [] ∧ (stream.isClosed = true → shutdown = true) := by
  rw [Bool.or_eq_false_iff, bne_eq_false_iff_eq] at hnot
  have hnil : stream.contents = [] := by
    rw [← List.length_eq_zero_iff, ← hwf.buffered]
    exact hnot.1
  refine ⟨hnil, fun hclose => ?_⟩
  have hfinished := (ByteStream.isFinished_iff hwf).mpr ⟨hclose, hnil⟩
  simpa [hfinished] using hnot.2

theorem Copies.told_writeSocket (h : Copies faulty cancelled w) :
    Told 1 ((StreamCopy.writeSocket 1).interest w) w := by
  cases hinterest : (StreamCopy.writeSocket 1).interest w with
  | true => trivial
  | false => exact declined_write h.outward.wf hinterest

theorem Copies.told_writeOutput (h : Copies faulty cancelled w) :
    Told 3 ((StreamCopy.writeOutput 3).interest w) w := by
  cases hinterest : (StreamCopy.writeOutput 3).interest w with
  | true => trivial
  | false => exact declined_write h.inward.wf hinterest

/-- The invariant of the loop. -/
def Running (faulty : Prop) (m : Memory StreamCopy) : Prop :=
  m.cancelRequested = [] ∧ Copies faulty m.cancelled m.world ∧ Readable m.world.answers

variable {m m' : Memory StreamCopy}

theorem running_called {rule : RuleId} (h : Running faulty m)
    (hcall : Copies faulty m.cancelled w' ∧ w'.answers = m.world.answers ∧ flags = []) :
    Running faulty (m.after rule .callback (w', flags)) := by
  obtain ⟨hcopies, hanswers, rfl⟩ := hcall
  refine ⟨(List.append_nil _).trans h.1, ?_, ?_⟩
  · rw [← Memory.cancelled_note m rule (by simp : Hook.callback ≠ .cancel)] at hcopies
    exact hcopies
  · have hready := h.2.2
    rw [← hanswers] at hready
    exact hready

theorem running_cancelled {rule : RuleId} (h : Running faulty m)
    (hanswers : w'.answers = m.world.answers)
    (hcopies : Copies faulty (fun r => m.cancelled r ∨ r = rule) w') :
    Running faulty (m.after rule .cancel (w', [])) := by
  refine ⟨(List.append_nil _).trans h.1, ?_, ?_⟩
  · rw [← Memory.cancelled_cancel] at hcopies
    exact hcopies
  · have hready := h.2.2
    rw [← hanswers] at hready
    exact hready

theorem running_recovered (h : Running faulty m) (rule : RuleId) :
    Running faulty (m.after rule (.recover false) (m.world, [])) := by
  refine ⟨(List.append_nil _).trans h.1, ?_, h.2.2⟩
  have hcopies := h.2.1
  rw [← Memory.cancelled_note m rule (by simp : Hook.recover false ≠ .cancel)] at hcopies
  exact hcopies

theorem ended_in {r : FDRule StreamCopy} (hdirection : r.direction = .In)
    (hended : r.ended w = false) : (r.fd w).eof = false := by
  simp only [FDRule.ended, hdirection, Bool.or_eq_false_iff] at hended
  exact hended.1

theorem preserves_running (faulty : Prop) :
    Preserves [] rules faulty (Running faulty) fun r answer m => Told r answer m.world where
  asked m rule answer h := by
    refine ⟨h.1, ?_, h.2.2⟩
    rw [Memory.cancelled_note m rule (by simp)]
    exact h.2.1
  kept m r told rule answer h := h
  fires r hr := absurd hr List.not_mem_nil
  tells := by
    refine forall_rules ?_ ?_ ?_ ?_ <;> intro m h hlive hended
    · exact h.2.1.told_readInput (ended_in rfl hended)
    · exact h.2.1.told_writeSocket
    · exact h.2.1.told_readSocket (ended_in rfl hended)
    · exact h.2.1.told_writeOutput
  cancels := by
    refine forall_rules ?_ ?_ ?_ ?_ <;> intro m m' h hlive hwhy hcall <;>
      obtain ⟨left, hleft, rfl⟩ := Memory.call_ok.mp hcall <;> cases hleft
    · refine ⟨running_cancelled h rfl (h.2.1.cancelReadInput ?_),
        fun r htold => (told_closeOutbound r).mpr htold, fun r hr => absurd hr (Nat.not_lt_zero r)⟩
      refine hwhy.imp_left fun hended => ?_
      simpa [FDRule.ended, StreamCopy.readInput, h.2.1.inputOpen] using hended
    · refine ⟨running_cancelled h rfl (h.2.1.cancelWriteSocket ?_),
        fun r htold => (told_closeOutbound r).mpr htold,
        fun r hr htold => (declined_closeOutbound hr).mpr htold⟩
      refine hwhy.resolve_left fun hended => ?_
      simp [FDRule.ended, StreamCopy.writeSocket, h.2.1.socketOpen] at hended
    · refine ⟨running_cancelled h rfl (h.2.1.cancelReadSocket ?_),
        fun r htold => (told_closeInbound r).mpr htold,
        fun r hr htold => (declined_closeInbound (Nat.lt_succ_of_lt hr)).mpr htold⟩
      refine hwhy.imp_left fun hended => ?_
      simpa [FDRule.ended, StreamCopy.readSocket, h.2.1.socketOpen] using hended
    · refine ⟨running_cancelled h rfl (h.2.1.cancelWriteOutput ?_),
        fun r htold => (told_closeInbound r).mpr htold,
        fun r hr htold => (declined_closeInbound hr).mpr htold⟩
      refine hwhy.imp_left fun hended => ?_
      simpa [FDRule.ended, StreamCopy.writeOutput, h.2.1.outputOpen] using hended
  recovers := by
    refine forall_rules ?_ ?_ ?_ ?_ <;> intro m m' answer h hlive hcall <;> cases hcall <;>
      exact ⟨running_recovered h _, fun _ htold => htold⟩
  serves := by
    refine forall_rules ?_ ?_ ?_ ?_ <;> intro m m' h hlive htold hcall <;>
      obtain ⟨⟨w', flags⟩, hleft, rfl⟩ := Memory.call_ok.mp hcall
    · exact running_called h (h.2.1.readInput hlive htold h.2.2 hleft)
    · exact running_called h (h.2.1.writeSocket hlive hleft)
    · exact running_called h (h.2.1.readSocket hlive htold h.2.2 hleft)
    · exact running_called h (h.2.1.writeOutput hlive hleft)

variable {e e' : EventLoop StreamCopy}

/-- What holds of the loop between its turns. -/
structure Loops (faulty : Prop) (e : EventLoop StreamCopy) : Prop where
  tidy : Tidy e
  nextRule : e.nextRule = 4
  nonFdRules : e.nonFdRules = []
  fdRules : e.fdRules ⊆ rules
  flags : e.memory.cancelRequested = []
  copies : Copies faulty e.memory.cancelled e.memory.world

theorem eventLoop_eq (world : StreamCopy) : eventLoop world = .ok {
    ruleCategories := ["read from stdin into outbound byte stream",
      "read from outbound byte stream into socket", "read from socket into inbound byte stream",
      "read from inbound byte stream into stdout"]
    fdRules := rules
    nextRule := 4
    memory := { world } } := rfl

theorem copying_start : Copying [] false [] { capacity := bufferSize } False False false where
  wf := ByteStream.wf_new bufferSize
  hasError := rfl
  capacity := rfl
  copied := rfl
  closed hclose := by cases hclose
  endCloses := False.elim
  finished hdone := by cases hdone

theorem tidy_eventLoop {world : StreamCopy} (h : eventLoop world = .ok e) : Tidy e := by
  obtain ⟨e₁, h₁, h⟩ := bind_eq_ok.mp h
  obtain ⟨e₂, h₂, h⟩ := bind_eq_ok.mp h
  obtain ⟨e₃, h₃, h⟩ := bind_eq_ok.mp h
  exact ((((tidy_start world).addNamedFDRule h₁).addNamedFDRule h₂).addNamedFDRule
    h₃).addNamedFDRule h

theorem loops_start {socket : Descriptor} (hopen : socket.closed = false)
    (heof : socket.eof = false) (h : eventLoop (start socket) = .ok e) : Loops faulty e := by
  have htidy := tidy_eventLoop h
  rw [eventLoop_eq] at h
  cases h
  have hnone (r : RuleId) : ¬ Memory.cancelled { world := start socket } r := List.not_mem_nil
  refine ⟨htidy, rfl, rfl, List.Subset.refl _, rfl, ?_⟩
  refine ⟨copying_start.congr (iff_of_false not_false (hnone 0)) (iff_of_false not_false (hnone 1)),
    ?_, rfl, rfl, hopen, rfl, fun hend => absurd hend (hnone 0), fun hend => absurd hend (hnone 1),
    fun hend => absurd hend (hnone 2), fun hend => absurd hend (hnone 3)⟩
  have hin : Copying [] socket.eof [] { capacity := bufferSize }
      (Memory.cancelled { world := start socket } 2)
      (Memory.cancelled { world := start socket } 3) false := by
    rw [heof]
    exact copying_start.congr (iff_of_false not_false (hnone 2)) (iff_of_false not_false (hnone 3))
  exact hin

theorem Loops.turn {answers : CopyAnswers} {kernel : Kernel} {result : Result}
    (h : Loops faulty e) (hready : Readable answers) (hfault : kernel.Faulty → faulty)
    (hwait : (answered e answers).waitNextEvent kernel = .ok (result, e')) :
    Loops faulty e' ∧ (result = .Exit → ∀ r ∈ e'.fdRules, Told r.id false e'.memory.world) := by
  have hpreserves : Preserves (answered e answers).nonFdRules (answered e answers).fdRules faulty
      (Running faulty) fun r answer m => Told r answer m.world :=
    (preserves_running faulty).subset (List.subset_nil.mpr h.nonFdRules) h.fdRules
  have htidy : Tidy (answered e answers) := h.tidy.change _
  have hcopies : Copies faulty e.memory.cancelled { e.memory.world with answers } :=
    { h.copies with }
  obtain ⟨new, hnew⟩ := waitNextEvent_spec htidy.nodup hwait
  obtain ⟨hrunning, hnonFd, hfd, hexit⟩ :=
    hpreserves.waitNextEvent htidy hfault ⟨h.flags, hcopies, hready⟩ hwait
  refine ⟨⟨htidy.wait hnew, hnew.nextRule.trans h.nextRule, ?_,
    List.Subset.trans hfd h.fdRules, hrunning.1, hrunning.2.1⟩, hexit⟩
  have hnone : (answered e answers).nonFdRules = [] := h.nonFdRules
  rw [hnone] at hnonFd
  exact List.subset_nil.mp hnonFd

theorem Loops.loop {turns : List (CopyAnswers × Kernel)} {exited : Bool} (h : Loops faulty e)
    (hready : ∀ t ∈ turns, Readable t.1) (hfault : ∀ t ∈ turns, t.2.Faulty → faulty)
    (hloop : loop e turns = .ok (e', exited)) :
    Loops faulty e' ∧ (exited = true → ∀ r ∈ e'.fdRules, Told r.id false e'.memory.world) := by
  induction turns generalizing e with
  | nil =>
      cases hloop
      exact ⟨h, fun hexit => by cases hexit⟩
  | cons t turns ih =>
      obtain ⟨answers, kernel⟩ := t
      obtain ⟨hfirst, hrest⟩ := List.forall_mem_cons.mp hready
      obtain ⟨hfaultFirst, hfaultRest⟩ := List.forall_mem_cons.mp hfault
      obtain ⟨⟨result, e₁⟩, hwait, hloop⟩ := bind_eq_ok.mp hloop
      obtain ⟨hloops, hexit⟩ := h.turn hfirst hfaultFirst hwait
      dsimp only at hloop
      split at hloop
      · next hresult =>
          cases hloop
          exact ⟨hloops, fun _ => hexit hresult⟩
      · exact ih hloops hrest hfaultRest hloop

/-- A rule has been cancelled or is still registered. -/
theorem Loops.rule (h : Loops faulty e) {id : RuleId} (hid : id < 4) :
    (∃ r ∈ e.fdRules, r.id = id) ∨ e.memory.cancelled id := by
  by_cases hmem : id ∈ e.registered
  · left
    rw [registered, h.nonFdRules] at hmem
    exact List.mem_map.mp hmem
  · have hend := h.tidy.ended id (h.nextRule ▸ hid) hmem
    rw [h.flags] at hend
    exact hend.imp_left fun hflag => absurd hflag List.not_mem_nil

/-- A stream that has room for nothing holds something. -/
theorem Copying.room (h : Copying received eof sent stream ended lost done)
    (hnil : stream.contents = []) : stream.availableCapacity ≠ 0 := by
  rw [ByteStream.availableCapacity, h.wf.buffered, hnil, h.capacity]
  decide

/-- When every rule that is left has declined, both directions are done, unless a rule has been
cancelled for a fault. -/
theorem Loops.finished (h : Loops faulty e)
    (hexit : ∀ r ∈ e.fdRules, Told r.id false e.memory.world) :
    (e.memory.world.outboundShutdown = true ∨ faulty) ∧
      (e.memory.world.inboundShutdown = true ∨ faulty) := by
  have htold {id : RuleId} (hid : id < 4) :
      Told id false e.memory.world ∨ e.memory.cancelled id := by
    refine (h.rule hid).imp_left ?_
    rintro ⟨r, hr, rfl⟩
    exact hexit r hr
  constructor
  · cases htold (by decide : 1 < 4) with
    | inr hlost => exact Or.inr (h.copies.socketLost hlost)
    | inl hdeclined =>
        obtain ⟨hnil, hdone⟩ := hdeclined
        cases htold (by decide : 0 < 4) with
        | inl hfull => exact absurd hfull (h.copies.outward.room hnil)
        | inr hended => exact Or.inl (hdone (h.copies.outward.endCloses hended))
  · cases htold (by decide : 3 < 4) with
    | inr hlost => exact h.copies.outputLost hlost
    | inl hdeclined =>
        obtain ⟨hnil, hdone⟩ := hdeclined
        cases htold (by decide : 2 < 4) with
        | inl hfull => exact absurd hfull (h.copies.inward.room hnil)
        | inr hended => exact Or.inl (hdone (h.copies.inward.endCloses hended))

theorem loops_run {socket : Descriptor} {turns : List (CopyAnswers × Kernel)} {exited : Bool}
    (hopen : socket.closed = false) (heof : socket.eof = false)
    (hready : ∀ t ∈ turns, Readable t.1)
    (h : bidirectionalStreamCopy socket turns = .ok (e, exited)) :
    Loops (∃ t ∈ turns, t.2.Faulty) e ∧
      (exited = true → ∀ r ∈ e.fdRules, Told r.id false e.memory.world) := by
  obtain ⟨e₀, hstart, h⟩ := bind_eq_ok.mp h
  exact (loops_start hopen heof hstart).loop hready (fun t ht hfault => ⟨t, ht, hfault⟩) h

/-- As long as no read asks to be made again: after every turn, in each direction, what has been
written and what is buffered are what has been read, in order. The writing side of the socket is
shut down, and the output closed, only when all of it has been written; the program returns only
when both have been done, with both inputs read to their end, unless the kernel has reported an
error or a hangup. -/
theorem copies_in_both_directions {socket : Descriptor} {turns : List (CopyAnswers × Kernel)}
    {exited : Bool} (hopen : socket.closed = false) (heof : socket.eof = false)
    (hready : ∀ t ∈ turns, Readable t.1)
    (h : bidirectionalStreamCopy socket turns = .ok (e, exited)) :
    let w := e.memory.world
    w.socket.sent ++ w.outbound.contents = w.input.received ∧
      w.output.sent ++ w.inbound.contents = w.socket.received ∧
      (w.socket.shutdown = true → w.socket.sent = w.input.received) ∧
      (w.output.fd.closed = true → w.output.sent = w.socket.received) ∧
      (exited = true → (∀ t ∈ turns, ¬ t.2.Faulty) →
        w.socket.shutdown = true ∧ w.input.fd.eof = true ∧
        w.output.fd.closed = true ∧ w.socket.fd.eof = true) := by
  intro w
  obtain ⟨hloops, hexit⟩ := loops_run hopen heof hready h
  have hcopies := hloops.copies
  have hout : w.outboundShutdown = true → w.socket.sent = w.input.received ∧
      (w.input.fd.eof = true ∨ e.memory.cancelled 0) := by
    intro hdone
    obtain ⟨-, hnil, hend⟩ := hcopies.outward.finished hdone
    have hall := hcopies.outward.copied
    rw [hnil, List.append_nil] at hall
    exact ⟨hall, hend⟩
  have hin : w.inboundShutdown = true → w.output.sent = w.socket.received ∧
      (w.socket.fd.eof = true ∨ e.memory.cancelled 2) := by
    intro hdone
    obtain ⟨-, hnil, hend⟩ := hcopies.inward.finished hdone
    have hall := hcopies.inward.copied
    rw [hnil, List.append_nil] at hall
    exact ⟨hall, hend⟩
  refine ⟨hcopies.outward.copied, hcopies.inward.copied, ?_, ?_, ?_⟩
  · exact fun hshut => (hout (hcopies.shutdown ▸ hshut)).1
  · exact fun hclosed => (hin (hcopies.outputOpen ▸ hclosed)).1
  · intro hexited hnone
    have hno : ¬ ∃ t ∈ turns, t.2.Faulty := fun hsome => by
      obtain ⟨t, ht, hfault⟩ := hsome
      exact hnone t ht hfault
    obtain ⟨hdoneOut, hdoneIn⟩ := hloops.finished (hexit hexited)
    have hdoneOut := hdoneOut.resolve_right hno
    have hdoneIn := hdoneIn.resolve_right hno
    refine ⟨hcopies.shutdown.trans hdoneOut, ?_, hcopies.outputOpen.trans hdoneIn, ?_⟩
    · exact (hout hdoneOut).2.elim id fun hend => (hcopies.inputEnded hend).resolve_right hno
    · exact (hin hdoneIn).2.elim id fun hend => (hcopies.socketEnded hend).resolve_right hno

/-- The standard input fails, and the writing side of the socket is shut down for it. -/
theorem copies_in_both_directions_failed :
    let kernel (revents : Revents) : Kernel := {
      poll := .ok fun idx => if idx = 0 then revents else {}
      getsockopt _ := .notSocket }
    let answers : CopyAnswers := { inputRead := .filled [], socketRead := .filled [] }
    let turns := [(answers, kernel { pollerr := true }), (answers, kernel { pollout := true })]
    ∃ e, bidirectionalStreamCopy {} turns = .ok (e, false) ∧
      e.memory.world.socket.shutdown = true ∧
      e.memory.world.socket.sent = e.memory.world.input.received := by
  intro kernel answers turns
  have hready : ∀ t ∈ turns, Readable t.1 := by
    have hfirst : Readable answers := ⟨by decide, by decide⟩
    exact List.forall_mem_cons.mpr ⟨hfirst, List.forall_mem_singleton.mpr hfirst⟩
  exact ⟨_, rfl, rfl, (@copies_in_both_directions _ {} turns false rfl rfl hready rfl).2.2.1 rfl⟩

end StreamCopy
end Minnow
