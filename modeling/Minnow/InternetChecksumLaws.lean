import Minnow.TCPSegmentWire

/-!
The laws of the checksum for what fits an IP datagram: however the bytes are cut into
chunks, the value is the complement of the ones' complement sum of their words, and filling
it into a word that was zero makes the sum verify.
-/

namespace Minnow
open OnesComplement
namespace InternetChecksum

/-- The sum of up to 65535 bytes stays within 32 bits. -/
theorem datagram_fits {sum : UInt32} (hsum : sum.toNat < 2 ^ 20) {data : Bytes}
    (hlen : data.length ≤ 65535) : sum.toNat + 255 * 2 ^ 8 * data.length < 2 ^ 32 := by
  omega

theorem value_words {sum : UInt32} (hsum : sum.toNat < 2 ^ 20) {data : Bytes}
    (hlen : data.length ≤ 65535) :
    (add { sum } data).value = ~~~ UInt16.ofNat (plus sum.toNat (total (words data))) := by
  have hle := endAround_le (sum.toNat + (words data).sum)
  rw [plus, total_eq, endAround_add]
  apply UInt16.toNat_inj.mp
  rw [value_toNat, add_exact (datagram_fits hsum hlen), weigh_eq_sum, UInt16.toNat_not,
    UInt16.toNat_ofNat', Nat.mod_eq_of_lt (by omega)]
  rfl

/-- What `computeChecksum` writes is accepted, in whatever buffers it arrives. -/
theorem checksumOf_computed {sum : UInt32} (hsum : sum.toNat < 2 ^ 20) {s : TCPSegment}
    (hlen : 20 + s.senderMessage.payload.length ≤ 65535) {input : List Bytes}
    (hinput : input.flatten = ((s.computeChecksum sum).serialize {}).takeOutput.flatten) :
    TCPSegment.checksumOf sum (Parser.ofBuffers input) = .ok (0, Parser.ofBuffers input) := by
  have hsize : sum.toNat + 255 * 2 ^ 8 * (20 + s.senderMessage.payload.length) < 2 ^ 32 := by omega
  have hverifies := TCPSegment.computeChecksum_verifies hsize
  rw [TCPSegment.checksumOf_eq (Parser.sound_ofBuffers input), Parser.rest_ofBuffers, hinput,
    TCPSegment.serialize_flatten]
  exact congrArg (fun v => Except.ok (v, Parser.ofBuffers input)) hverifies

/-- For an initial sum below `2 ^ 20` and chunks of at most 65535 bytes in all: the 32 bits
never overflow; the value depends on the concatenation of the chunks alone and is the
complement of the sum of its words and the initial sum; a word that was zero and is filled
with the value makes the sum verify; and so a segment with its computed checksum passes the
test of `TCPSegment.parse`. -/
theorem checksum_laws {sum : UInt32} (hsum : sum.toNat < 2 ^ 20) {chunks : List Bytes}
    (hlen : chunks.flatten.length ≤ 65535) :
    (∀ pre, pre <+: chunks.flatten →
      (add { sum } pre).sum.toNat = sum.toNat + weigh false pre) ∧
    (∀ others : List Bytes, others.flatten = chunks.flatten →
      (addBuffers { sum } others).value = (addBuffers { sum } chunks).value) ∧
    (addBuffers { sum } chunks).value =
      ~~~ UInt16.ofNat (plus sum.toNat (total (words chunks.flatten))) ∧
    (∀ front back, chunks.flatten = front ++ (wire (0 : UInt16) ++ back) →
      front.length % 2 = 0 → ∀ filled : List Bytes,
        filled.flatten = front ++ (wire (addBuffers { sum } chunks).value ++ back) →
        (addBuffers { sum } filled).value = 0) ∧
    ∀ s : TCPSegment, 20 + s.senderMessage.payload.length ≤ 65535 → ∀ input : List Bytes,
      input.flatten = ((s.computeChecksum sum).serialize {}).takeOutput.flatten →
      TCPSegment.checksumOf sum (Parser.ofBuffers input) =
        .ok (0, Parser.ofBuffers input) := by
  refine ⟨?_, ?_, ?_, ?_, fun s hs input hinput => checksumOf_computed hsum hs hinput⟩
  · intro pre hpre
    exact add_exact (datagram_fits hsum (hpre.length_le.trans hlen))
  · intro others hsame
    rw [addBuffers_eq, addBuffers_eq, hsame]
  · rw [addBuffers_eq]
    exact value_words hsum hlen
  · intro front back hzero hfront filled hfilled
    rw [hzero] at hlen
    rw [addBuffers_eq, hfilled, addBuffers_eq, hzero]
    exact value_filled hfront (datagram_fits hsum hlen)

/-- An odd chunk in the middle, and a field of zeros between two words. -/
theorem checksum_laws_odd_chunk :
    let chunks : List Bytes := [[0x12], [0x34, 0x00, 0x00], [0xff, 0xfe, 0x07]]
    (addBuffers { sum := 0x10006 } chunks).value =
        ~~~ UInt16.ofNat (plus 0x10006 (total (words chunks.flatten))) ∧
      ∀ filled : List Bytes, filled.flatten = [0x12, 0x34] ++
          (wire (addBuffers { sum := 0x10006 } chunks).value ++ [0xff, 0xfe, 0x07]) →
        (addBuffers { sum := 0x10006 } filled).value = 0 := by
  have h := @checksum_laws 0x10006 (by decide) [[0x12], [0x34, 0x00, 0x00], [0xff, 0xfe, 0x07]]
    (by decide)
  exact ⟨h.2.2.1, h.2.2.2.1 [0x12, 0x34] [0xff, 0xfe, 0x07] (by decide) (by decide)⟩

end InternetChecksum
end Minnow
