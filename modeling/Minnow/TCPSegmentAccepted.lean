import Minnow.TCPSegmentWire

/-!
The byte strings that the parser of TCP segments accepts. It compares the length with that
of the fixed header only: the removal of what the data offset announces stops at the end.
-/

namespace Minnow
open OnesComplement
namespace TCPSegment

/-- The header length that the bytes announce, in words of 32 bits. -/
def dataOffset (b : Bytes) : Nat := (b.getD 12 0 >>> 4).toNat

def ackFlag (b : Bytes) : Bool := b.getD 13 0 &&& 0b00010000 != 0

/-- The checksum over the bytes with the pseudo header is valid. -/
def ChecksumValid (pseudo : UInt32) (b : Bytes) : Prop :=
  endAround (pseudo.toNat + weigh false b) = 0xffff

structure WellFormed (pseudo : UInt32) (b : Bytes) : Prop where
  header : 20 ≤ b.length
  offset : 5 ≤ dataOffset b
  within : 4 * dataOffset b ≤ b.length
  checksum : ChecksumValid pseudo b

namespace RawHeader

@[simp] theorem length_bytes (r : RawHeader) : r.bytes.length = 20 := by
  simp only [bytes, List.length_append, length_wire]
  rfl

theorem dataOffset_bytes (r : RawHeader) (more : Bytes) :
    dataOffset (r.bytes ++ more) = (r.offset >>> 4).toNat := by
  have hbefore : (wire r.srcPort ++ (wire r.dstPort ++ (wire r.seqno ++
      wire r.ackno))).length = 12 := by
    simp only [List.length_append, length_wire]
    rfl
  have hplace := getD_wire hbefore r.offset
    (wire r.flags ++ (wire r.windowSize ++ (wire r.cksum ++ (wire r.urgent ++ more))))
  simp only [List.append_assoc] at hplace
  rw [dataOffset, bytes]
  simp only [List.append_assoc, hplace]

theorem ackFlag_bytes (r : RawHeader) (more : Bytes) :
    ackFlag (r.bytes ++ more) = (r.flags &&& 0b00010000 != 0) := by
  have hbefore : (wire r.srcPort ++ (wire r.dstPort ++ (wire r.seqno ++
      (wire r.ackno ++ wire r.offset)))).length = 13 := by
    simp only [List.length_append, length_wire]
    rfl
  have hplace := getD_wire hbefore r.flags
    (wire r.windowSize ++ (wire r.cksum ++ (wire r.urgent ++ more)))
  simp only [List.append_assoc] at hplace
  rw [ackFlag, bytes]
  simp only [List.append_assoc, hplace]

end RawHeader

/-- With fewer bytes than a header has, the reads fail. -/
theorem readFields_starved {p : Parser} (hp : p.Starved 20) (s₀ : TCPSegment) :
    ∃ (r : RawHeader) (p' : Parser), s₀.readFields p =
      .ok ((r.segment s₀.senderMessage.payload, r.offset >>> 4), p') ∧ p'.Starved 0 := by
  replace hp : p.Starved (2 + (2 + (4 + (4 + (1 + (1 + (2 + (2 + (2 + 0))))))))) := hp
  obtain ⟨srcPort, p, hsrc, hp⟩ := Parser.integer_starved hp s₀.udinfo.srcPort _
  obtain ⟨dstPort, p, hdst, hp⟩ := Parser.integer_starved hp s₀.udinfo.dstPort _
  obtain ⟨seqno, p, hseqno, hp⟩ := Parser.integer_starved hp (0 : UInt32) _
  obtain ⟨ackno, p, hackno, hp⟩ := Parser.integer_starved hp seqno _
  obtain ⟨offset, p, hoctet, hp⟩ := Parser.integer_starved hp (0 : UInt8) _
  obtain ⟨flags, p, hflags, hp⟩ := Parser.integer_starved hp offset _
  obtain ⟨window, p, hwindow, hp⟩ := Parser.integer_starved hp s₀.receiverMessage.windowSize _
  obtain ⟨cksum, p, hcksum, hp⟩ := Parser.integer_starved hp s₀.udinfo.cksum _
  obtain ⟨urgent, p, hurgent, hp⟩ := Parser.integer_starved hp (0 : UInt16) _
  refine ⟨⟨srcPort, dstPort, seqno, ackno, offset, flags, window, cksum, urgent⟩, p, ?_, hp⟩
  rw [readFields, hsrc, hdst, hseqno, hackno, hoctet]
  dsimp only
  rw [hflags, hwindow, hcksum, hurgent]
  rfl

theorem checksumValid_iff {pseudo : UInt32} (hpseudo : pseudo.toNat < 2 ^ 20) {b : Bytes}
    (hlen : b.length ≤ 65535) :
    (InternetChecksum.add { sum := pseudo } b).value = 0 ↔ ChecksumValid pseudo b := by
  have hsum : (InternetChecksum.add { sum := pseudo } b).sum.toNat =
      pseudo.toNat + weigh false b := InternetChecksum.add_exact (by omega)
  rw [InternetChecksum.value_eq_zero_iff, hsum, ChecksumValid]

theorem short_offset_iff (offset : UInt8) :
    offset.toUInt32 < headerMinLen ↔ offset.toNat < 5 := by
  rw [UInt32.lt_iff_toNat_lt, UInt8.toNat_toUInt32]
  rfl

/-- With an offset that is not short the unsigned difference is the length of the options. -/
theorem options_length {offset : UInt8} (h : 5 ≤ offset.toNat) :
    (offset.toUInt32 * 4 - headerMinLen * 4).toNat = 4 * offset.toNat - 20 := by
  have hlt := offset.toNat_lt
  have hmul : (offset.toUInt32 * 4).toNat = offset.toNat * 4 := by
    rw [UInt32.toNat_mul, UInt8.toNat_toUInt32]
    exact Nat.mod_eq_of_lt (by simp only [UInt32.reduceToNat]; omega)
  have hmin : (headerMinLen * 4).toNat = 20 := rfl
  rw [UInt32.toNat_sub, hmul, hmin]
  omega

/-- What becomes of bytes with a whole header. -/
theorem parse_header {input : List Bytes} {r : RawHeader} {more : Bytes}
    (hinput : input.flatten = r.bytes ++ more) (hfilled : Views.Filled 20 input)
    (pseudo : UInt32) (s₀ : TCPSegment) :
    Minnow.parse (s₀.parse pseudo) input =
      .ok (if (InternetChecksum.add { sum := pseudo } (r.bytes ++ more)).value = 0 ∧
          5 ≤ (r.offset >>> 4).toNat
        then some (r.segment (more.drop (4 * (r.offset >>> 4).toNat - 20))) else none) := by
  have hp := Parser.ahead_ofBuffers hinput hfilled
  by_cases hvalid : (InternetChecksum.add { sum := pseudo } (r.bytes ++ more)).value = 0
  · obtain ⟨p₁, hread, hp₁⟩ := RawHeader.readFields_ahead (n := 0) hp s₀
    obtain ⟨p₂, hparse, herror⟩ :=
      parse_valid hp.sound (by rw [hp.rest, hvalid]) hread hp₁.sound
    rw [hp₁.error, Bool.false_or] at herror
    by_cases hoffset : 5 ≤ (r.offset >>> 4).toNat
    · rw [decide_eq_false (mt (short_offset_iff _).mp (by omega))] at herror
      rw [if_pos ⟨hvalid, hoffset⟩, parse_eq_some]
      rw [options_length hoffset, hp₁.rest] at hparse
      exact ⟨p₂, hparse, herror⟩
    · rw [decide_eq_true ((short_offset_iff _).mpr (by omega))] at herror
      rw [if_neg (fun h => hoffset h.2), Minnow.parse, hparse]
      simp only [herror, if_true]
  · rw [if_neg (fun h => hvalid h.1), Minnow.parse,
      parse_invalid hp.sound (by rw [hp.rest]; exact hvalid)]
    rfl

/-- Bytes without a whole header are refused. -/
theorem parse_short {input : List Bytes} (h : input.flatten.length < 20) (pseudo : UInt32)
    (s₀ : TCPSegment) : Minnow.parse (s₀.parse pseudo) input = .ok none := by
  have hsound := Parser.sound_ofBuffers input
  have hrest := Parser.rest_ofBuffers input
  have hstarved : (Parser.ofBuffers input).Starved 20 := ⟨hsound, Or.inr (by rwa [hrest])⟩
  by_cases hvalid : (InternetChecksum.add { sum := pseudo } input.flatten).value = 0
  · obtain ⟨r, p₁, hread, hp₁⟩ := readFields_starved hstarved s₀
    obtain ⟨p₂, hparse, herror⟩ := parse_valid hsound (by rw [hrest, hvalid]) hread hp₁.sound
    rw [hp₁.error, Bool.true_or] at herror
    rw [Minnow.parse, hparse]
    simp only [herror, if_true]
  · rw [Minnow.parse, parse_invalid hsound (by rw [hrest]; exact hvalid)]
    rfl

theorem drop_header {r : RawHeader} {more : Bytes} {n : Nat} (h : 20 ≤ n) :
    (r.bytes ++ more).drop n = more.drop (n - 20) := by
  rw [List.drop_append, r.length_bytes,
    List.drop_of_length_le (by rw [r.length_bytes]; exact h), List.nil_append]

/-- The parser accepts whatever has a whole header, an offset that is not short and a valid
checksum; the payload starts where the offset points, and the ackno is there if flagged. -/
theorem parse_accepts {input : List Bytes} (hne : ∀ view ∈ input, view ≠ [])
    (hlen : input.flatten.length ≤ 65535) {pseudo : UInt32} (hpseudo : pseudo.toNat < 2 ^ 20)
    (s₀ : TCPSegment) :
    ((∃ s, Minnow.parse (s₀.parse pseudo) input = .ok (some s)) ↔
      20 ≤ input.flatten.length ∧ 5 ≤ dataOffset input.flatten ∧
        ChecksumValid pseudo input.flatten) ∧
    ∀ s, Minnow.parse (s₀.parse pseudo) input = .ok (some s) →
      s.senderMessage.payload = input.flatten.drop (4 * dataOffset input.flatten) ∧
      (s.receiverMessage.ackno.isSome = true ↔ ackFlag input.flatten = true) := by
  cases Nat.lt_or_ge input.flatten.length 20 with
  | inl hshort =>
      rw [parse_short hshort]
      simp only [Except.ok.injEq, reduceCtorEq, exists_false, false_iff, false_implies,
        implies_true, and_true]
      omega
  | inr hlong =>
      obtain ⟨r, more, hraw⟩ := RawHeader.exists_of_length hlong
      have hparse := parse_header hraw (Views.filled_of_nonempty hne hlong) pseudo s₀
      rw [hparse]
      rw [hraw] at hlen hlong ⊢
      have hvalid := checksumValid_iff hpseudo hlen
      rw [RawHeader.dataOffset_bytes, RawHeader.ackFlag_bytes, ← hvalid]
      by_cases hok : (InternetChecksum.add { sum := pseudo } (r.bytes ++ more)).value = 0 ∧
          5 ≤ (r.offset >>> 4).toNat
      · rw [if_pos hok]
        refine ⟨⟨fun _ => ⟨hlong, hok.2, hok.1⟩, fun _ => ⟨_, rfl⟩⟩, fun s hs => ?_⟩
        simp only [Except.ok.injEq, Option.some.injEq] at hs
        subst hs
        refine ⟨(drop_header (by omega)).symm, ?_⟩
        simp only [RawHeader.segment]
        cases r.flags &&& 0b00010000 != 0 <;> simp
      · rw [if_neg hok]
        refine ⟨⟨?_, fun h => absurd ⟨h.2.2, h.2.1⟩ hok⟩, fun s hs => ?_⟩
        · intro h
          obtain ⟨s, hs⟩ := h
          cases hs
        · cases hs

/-- On these buffers the parser accepts exactly the well-formed segments and reads the
payload and the ackno of an accepted one. -/
def ParsesExactly (pseudo : UInt32) (input : List Bytes) : Prop :=
  ((∃ s, Minnow.parse (TCPSegment.parse {} pseudo) input = .ok (some s)) ↔
    WellFormed pseudo input.flatten) ∧
  ∀ s, Minnow.parse (TCPSegment.parse {} pseudo) input = .ok (some s) →
    s.senderMessage.payload = input.flatten.drop (4 * dataOffset input.flatten) ∧
    (s.receiverMessage.ackno.isSome = true ↔ ackFlag input.flatten = true)

/-- The parser is exact unless an otherwise acceptable segment announces a header that is
longer than all of it. -/
theorem parses_exactly_iff {input : List Bytes} (hne : ∀ view ∈ input, view ≠ [])
    (hlen : input.flatten.length ≤ 65535) {pseudo : UInt32} (hpseudo : pseudo.toNat < 2 ^ 20) :
    ParsesExactly pseudo input ↔
      (20 ≤ input.flatten.length → 5 ≤ dataOffset input.flatten →
        ChecksumValid pseudo input.flatten →
        4 * dataOffset input.flatten ≤ input.flatten.length) := by
  obtain ⟨haccepts, hread⟩ := parse_accepts hne hlen hpseudo {}
  constructor
  · intro h hheader hoffset hchecksum
    exact (h.1.mp (haccepts.mpr ⟨hheader, hoffset, hchecksum⟩)).within
  · intro h
    refine ⟨haccepts.trans ⟨?_, ?_⟩, hread⟩
    · intro hok
      obtain ⟨hheader, hoffset, hchecksum⟩ := hok
      exact ⟨hheader, hoffset, h hheader hoffset hchecksum, hchecksum⟩
    · intro hwell
      exact ⟨hwell.header, hwell.offset, hwell.checksum⟩

/-- A SYN in two buffers, its header and a byte of payload. -/
theorem parses_exactly_split :
    ParsesExactly 0 [[0, 80, 0, 90, 0, 0, 0, 7, 0, 0], [0, 0, 0x50, 2, 0, 9, 0x4e, 0x43, 0, 0,
      97]] :=
  (parses_exactly_iff (by decide) (by decide) (by decide)).mpr fun _ _ _ => by decide

/-- Twenty bytes whose offset announces sixty are accepted, with an empty payload. -/
theorem offset_past_end_accepted :
    let input : List Bytes := [[0, 0, 0, 0, 0, 0, 0, 0, 0, 0, 0, 0, 0xf0, 0, 0, 0, 0x0f, 0xff,
      0, 0]]
    (∃ s, Minnow.parse (TCPSegment.parse {} 0) input = .ok (some s) ∧
        s.senderMessage.payload = []) ∧
      input.flatten.length < 4 * dataOffset input.flatten ∧ ¬ ParsesExactly 0 input := by
  intro input
  have hparse : Minnow.parse (TCPSegment.parse {} 0) input = .ok (some
      { receiverMessage := { windowSize := 0 }, udinfo := { cksum := 0x0fff } }) := by
    decide +kernel
  refine ⟨⟨_, hparse, rfl⟩, by decide, ?_⟩
  intro h
  exact absurd (h.1.mp ⟨_, hparse⟩).within (by decide)

end TCPSegment
end Minnow
