import Minnow.Channel

/-!
A pair of connected stream sockets. What one end reads is what has been written to the other, in
order, and it reads the end once nothing more can come; a write fails when no more may be written.
-/

namespace Minnow
open Throwing
namespace Channel

/-- How a read of `reader` may be answered: with bytes that have been written to the other end, or
with the end once that is shut down, or its party has `left`, and all has been read. -/
def MayRead (reader writer : Channel) (left : Bool) : Outcome → Prop
  | .failed _ => True
  | .filled bytes => reader.received ++ bytes <+: writer.sent ∧
      (bytes = [] → (writer.shutdown || left) = true ∧ reader.received = writer.sent)

/-- How a write may be answered: it fails once the end is shut down. -/
def MayWrite (writer : Channel) : CountOutcome → Prop
  | .failed _ => True
  | .returned _ => writer.shutdown = false

instance (reader writer : Channel) (left : Bool) :
    (outcome : Outcome) → Decidable (MayRead reader writer left outcome)
  | .failed _ => isTrue trivial
  | .filled _ => inferInstanceAs (Decidable (_ ∧ _))

instance (writer : Channel) : (outcome : CountOutcome) → Decidable (MayWrite writer outcome)
  | .failed _ => isTrue trivial
  | .returned _ => inferInstanceAs (Decidable (_ = _))

/-- What `reader` has read of what has been written to `writer`. -/
structure Linked (reader writer : Channel) (left : Bool) : Prop where
  inOrder : reader.received <+: writer.sent
  ended : reader.fd.eof = true →
    (writer.shutdown || left) = true ∧ reader.received = writer.sent

/-- What a descriptor has come to by at most one read and one write, and maybe a shutdown. -/
structure Exchanges (c c' : Channel) (read : Outcome) (write : CountOutcome) : Prop where
  received : c'.received = c.received ∧ c'.fd.eof = c.fd.eof ∨ ∃ bytes, read = .filled bytes ∧
    c'.received = c.received ++ bytes ∧ c'.fd.eof = (c.fd.eof || bytes == [])
  sent : c'.sent = c.sent ∨ ∃ count data, write = .returned count ∧ c'.sent = c.sent ++ data
  shutdown : c.shutdown = true → c'.shutdown = true

variable {c c' : Channel} {reader reader' writer writer' : Channel} {left : Bool}
  {read : Outcome} {write : CountOutcome} {s s' : ByteStream}

theorem Exchanges.refl (c : Channel) (read : Outcome) (write : CountOutcome) :
    Exchanges c c read write :=
  ⟨Or.inl ⟨rfl, rfl⟩, Or.inl rfl, id⟩

/-- Nothing has been read. -/
theorem linked_start (hreceived : reader.received = []) (heof : reader.fd.eof = false)
    (writer : Channel) (left : Bool) : Linked reader writer left := by
  refine ⟨hreceived ▸ List.nil_prefix, fun hend => ?_⟩
  rw [heof] at hend
  cases hend

theorem Linked.reads (h : Linked reader writer left) (hmay : MayRead reader writer left read)
    (hexchanges : Exchanges reader reader' read write) : Linked reader' writer left := by
  cases hexchanges.received with
  | inl hsame =>
      refine ⟨hsame.1 ▸ h.inOrder, fun heof => ?_⟩
      rw [hsame.1]
      exact h.ended (hsame.2 ▸ heof)
  | inr hread =>
      obtain ⟨bytes, rfl, hreceived, heof⟩ := hread
      refine ⟨hreceived ▸ hmay.1, fun hend => ?_⟩
      rw [heof, Bool.or_eq_true, beq_iff_eq] at hend
      cases hend with
      | inr hnil =>
          rw [hreceived, hnil, List.append_nil]
          exact hmay.2 hnil
      | inl hbefore =>
          obtain ⟨hover, hall⟩ := h.ended hbefore
          have hlen := hmay.1.length_le
          rw [← hall, List.length_append] at hlen
          have hnil : bytes = [] := List.eq_nil_of_length_eq_zero (by omega)
          rw [hreceived, hnil, List.append_nil]
          exact ⟨hover, hall⟩

/-- What a writer does that nothing has kept from writing. -/
theorem Linked.writes (h : Linked reader writer false) (hmay : MayWrite writer write)
    (hexchanges : Exchanges writer writer' read write) : Linked reader writer' false := by
  cases hexchanges.sent with
  | inl hsame =>
      refine ⟨hsame ▸ h.inOrder, fun heof => ?_⟩
      obtain ⟨hover, hall⟩ := h.ended heof
      rw [Bool.or_false] at hover ⊢
      exact ⟨hexchanges.shutdown hover, hall.trans hsame.symm⟩
  | inr hwrote =>
      obtain ⟨count, data, rfl, hsent⟩ := hwrote
      refine ⟨hsent ▸ h.inOrder.trans (List.prefix_append _ _), fun heof => ?_⟩
      have hshut := (h.ended heof).1
      rw [Bool.or_false] at hshut
      rw [MayWrite, hshut] at hmay
      cases hmay

theorem Linked.ofShut (h : Linked reader writer false) (left : Bool) :
    Linked reader writer left := by
  refine ⟨h.inOrder, fun heof => ?_⟩
  obtain ⟨hshut, hall⟩ := h.ended heof
  rw [Bool.or_false] at hshut
  rw [hshut]
  exact ⟨rfl, hall⟩

/-- A read into a stream with room. -/
theorem exchanges_readInto (hroom : 0 < s.availableCapacity) (hready : read.Ready)
    (h : c.readInto read s = .ok (c', s')) : Exchanges c c' read write := by
  obtain ⟨data, hfilled, hgives, -⟩ := readInto_push hroom hready h
  refine ⟨Or.inr ⟨data, hfilled, hgives.received, hgives.eof⟩, Or.inl hgives.sent, ?_⟩
  exact fun hshut => hgives.shutdown.trans hshut

/-- Bytes are written only when the call says so. -/
theorem write_returned {buffer : Bytes} {n : Nat} (hne : buffer ≠ [])
    (h : c.write write buffer = .ok (c', n)) : write = .returned n := by
  obtain ⟨⟨fd, count⟩, hwrite, h⟩ := bind_eq_ok.mp h
  cases h
  obtain ⟨-, hcall, hsome, -⟩ := Descriptor.write_ok.mp hwrite
  refine (Descriptor.checkSystemCall_ok.mp hcall).resolve_right fun hfailed => ?_
  have hzero := hsome hfailed.1
  simp only [FileDescriptor.totalSize, List.map_cons, List.map_nil, List.sum_cons, List.sum_nil,
    Nat.add_zero, List.length_eq_zero_iff] at hzero
  exact hne hzero

/-- A write from a stream. -/
theorem exchanges_writeFrom (read : Outcome) (hs : s.WF)
    (h : c.writeFrom write s = .ok (c', s')) : Exchanges c c' read write := by
  obtain ⟨n, -, htakes, -⟩ := writeFrom_pop hs h
  refine ⟨Or.inl ⟨htakes.received, htakes.eof⟩, ?_, fun hshut => htakes.shutdown.trans hshut⟩
  rw [writeFrom] at h
  split at h
  · next hne =>
      obtain ⟨⟨c₁, count⟩, hwrite, -⟩ := bind_eq_ok.mp h
      exact Or.inr ⟨count, _, write_returned (ByteStream.peek_spec hs hne).1 hwrite, htakes.sent⟩
  · cases h
    exact Or.inl rfl

/-- A shutdown after a write. -/
theorem Exchanges.shutdownWrite {outcome : CountOutcome} {c'' : Channel}
    (h : Exchanges c c' read write) (hshut : c'.shutdownWrite outcome = .ok c'') :
    Exchanges c c'' read write := by
  obtain rfl := shutdownWrite_ok hshut
  exact ⟨h.received, h.sent, fun _ => rfl⟩

end Channel
end Minnow
