import Minnow.InternetChecksum
import Minnow.TCPSegment

/-!
The TCP segment on the wire: twenty bytes of header and the payload, under a checksum that
stands in the header as a word of its own.
-/

namespace Minnow

namespace Parser

theorem allRemainingBuffer_ok {p : Parser} (hp : p.Sound) :
    ∃ p', allRemainingBuffer p = .ok (p.rest, p') ∧ p'.error = p.error := by
  obtain ⟨out, p', hok⟩ := allRemaining_ok p
  refine ⟨p', ?_, allRemaining_error hok⟩
  rw [allRemainingBuffer, ParserM.bind_of_ok hok, allRemaining_rest hp hok]
  rfl

end Parser

namespace TCPSegment

/-- The header up to the checksum. -/
def front (s : TCPSegment) : Bytes :=
  wire s.udinfo.srcPort ++ (wire s.udinfo.dstPort ++ (wire s.senderMessage.seqno.rawValue ++
    (wire (s.receiverMessage.ackno.getD ⟨0⟩).rawValue ++ (wire (headerMinLen <<< 4).toUInt8 ++
      (wire s.flags ++ wire s.receiverMessage.windowSize)))))

def bytes (s : TCPSegment) : Bytes :=
  s.front ++ (wire s.udinfo.cksum ++ wire (0 : UInt16))

@[simp] theorem length_front (s : TCPSegment) : s.front.length = 16 := by
  simp only [front, List.length_append, length_wire]
  rfl

@[simp] theorem length_bytes (s : TCPSegment) : s.bytes.length = 20 := by
  simp only [bytes, List.length_append, length_front, length_wire]
  rfl

theorem serialize_flatten (s : TCPSegment) :
    (s.serialize {}).takeOutput.flatten = s.bytes ++ s.senderMessage.payload := by
  simp [serialize, Serializer.takeOutput, Serializer.appendBuffer, Serializer.flush, bytes, front]

/-- The checksum verifies for the pseudo header it was computed with. -/
theorem computeChecksum_verifies {s : TCPSegment} {pseudo : UInt32}
    (hsize : pseudo.toNat + 255 * 2 ^ 8 * (20 + s.senderMessage.payload.length) < 2 ^ 32) :
    (InternetChecksum.add { sum := pseudo }
      ((s.computeChecksum pseudo).bytes ++ s.senderMessage.payload)).value = 0 := by
  have hfield (cksum : UInt16) :
      { s with udinfo := { s.udinfo with cksum } }.bytes ++ s.senderMessage.payload =
        s.front ++ (wire cksum ++ (wire (0 : UInt16) ++ s.senderMessage.payload)) := by
    simp only [bytes, List.append_assoc]
    rfl
  have hcomputed : s.computeChecksum pseudo = { s with udinfo := { s.udinfo with
      cksum := (InternetChecksum.add { sum := pseudo } (s.front ++
        (wire (0 : UInt16) ++ (wire (0 : UInt16) ++ s.senderMessage.payload)))).value } } := by
    simp only [computeChecksum, InternetChecksum.addBuffers_eq, serialize_flatten, hfield]
  rw [hcomputed, hfield]
  apply InternetChecksum.value_filled (by rw [length_front])
  simp only [List.length_append, length_front, length_wire]
  change pseudo.toNat + 255 * 2 ^ 8 * (16 + (2 + (2 + s.senderMessage.payload.length))) < 2 ^ 32
  omega

/-- Each flag has its own bit. -/
theorem flags_bits (s : TCPSegment) :
    (s.flags &&& 0b00010000 != 0) = s.receiverMessage.ackno.isSome ∧
      (s.flags &&& 0b00000100 != 0) = s.reset ∧
      (s.flags &&& 0b00000010 != 0) = s.senderMessage.syn ∧
      (s.flags &&& 0b00000001 != 0) = s.senderMessage.fin := by
  rw [flags]
  cases s.receiverMessage.ackno.isSome <;> cases s.reset <;> cases s.senderMessage.syn <;>
    cases s.senderMessage.fin <;> decide

/-- The twenty bytes of any header, as the integers that are read from them. -/
structure RawHeader where
  srcPort : UInt16
  dstPort : UInt16
  seqno : UInt32
  ackno : UInt32
  offset : UInt8
  flags : UInt8
  windowSize : UInt16
  cksum : UInt16
  urgent : UInt16

namespace RawHeader

def bytes (r : RawHeader) : Bytes :=
  wire r.srcPort ++ (wire r.dstPort ++ (wire r.seqno ++ (wire r.ackno ++ (wire r.offset ++
    (wire r.flags ++ (wire r.windowSize ++ (wire r.cksum ++ wire r.urgent)))))))

/-- The segment with this header. -/
def segment (r : RawHeader) (payload : Bytes) : TCPSegment where
  senderMessage := {
    seqno := ⟨r.seqno⟩, syn := r.flags &&& 0b00000010 != 0, payload
    fin := r.flags &&& 0b00000001 != 0 }
  receiverMessage := {
    ackno := if r.flags &&& 0b00010000 != 0 then some ⟨r.ackno⟩ else none
    windowSize := r.windowSize }
  reset := r.flags &&& 0b00000100 != 0
  udinfo := { srcPort := r.srcPort, dstPort := r.dstPort, cksum := r.cksum }

theorem exists_of_length {b : Bytes} (h : 20 ≤ b.length) :
    ∃ (r : RawHeader) (more : Bytes), b = r.bytes ++ more := by
  obtain ⟨srcPort, b₁, rfl, h₁⟩ := exists_wire UInt16 (n := 18) h
  obtain ⟨dstPort, b₂, rfl, h₂⟩ := exists_wire UInt16 (n := 16) h₁
  obtain ⟨seqno, b₃, rfl, h₃⟩ := exists_wire UInt32 (n := 12) h₂
  obtain ⟨ackno, b₄, rfl, h₄⟩ := exists_wire UInt32 (n := 8) h₃
  obtain ⟨offset, b₅, rfl, h₅⟩ := exists_wire UInt8 (n := 7) h₄
  obtain ⟨flags, b₆, rfl, h₆⟩ := exists_wire UInt8 (n := 6) h₅
  obtain ⟨windowSize, b₇, rfl, h₇⟩ := exists_wire UInt16 (n := 4) h₆
  obtain ⟨cksum, b₈, rfl, h₈⟩ := exists_wire UInt16 (n := 2) h₇
  obtain ⟨urgent, more, rfl, -⟩ := exists_wire UInt16 (n := 0) h₈
  exact ⟨⟨srcPort, dstPort, seqno, ackno, offset, flags, windowSize, cksum, urgent⟩, more,
    by simp only [bytes, List.append_assoc]⟩

/-- What the fields are read to; the payload is that of the segment read into. -/
theorem readFields_ahead {r : RawHeader} {p : Parser} {n : Nat} {more : Bytes}
    (hp : p.Ahead (20 + n) (r.bytes ++ more)) (s₀ : TCPSegment) :
    ∃ p', s₀.readFields p =
        .ok ((r.segment s₀.senderMessage.payload, r.offset >>> 4), p') ∧ p'.Ahead n more := by
  simp only [bytes, List.append_assoc] at hp
  rw [show 20 + n = 2 + (2 + (4 + (4 + (1 + (1 + (2 + (2 + (2 + n)))))))) by omega] at hp
  obtain ⟨p, hsrc, hp⟩ := Parser.integer_bind_ahead hp s₀.udinfo.srcPort _
  obtain ⟨p, hdst, hp⟩ := Parser.integer_bind_ahead hp s₀.udinfo.dstPort _
  obtain ⟨p, hseqno, hp⟩ := Parser.integer_bind_ahead hp (0 : UInt32) _
  obtain ⟨p, hackno, hp⟩ := Parser.integer_bind_ahead hp r.seqno _
  obtain ⟨p, hoctet, hp⟩ := Parser.integer_bind_ahead hp (0 : UInt8) _
  obtain ⟨p, hflags, hp⟩ := Parser.integer_bind_ahead hp r.offset _
  obtain ⟨p, hwindow, hp⟩ := Parser.integer_bind_ahead hp s₀.receiverMessage.windowSize _
  obtain ⟨p, hcksum, hp⟩ := Parser.integer_bind_ahead hp s₀.udinfo.cksum _
  obtain ⟨p, hurgent, hp⟩ := Parser.integer_bind_ahead hp (0 : UInt16) _
  refine ⟨p, ?_, hp⟩
  rw [readFields, hsrc, hdst, hseqno, hackno, hoctet]
  dsimp only
  rw [hflags, hwindow, hcksum, hurgent]
  rfl

end RawHeader

/-- The header of a segment as it is written. -/
def rawHeader (s : TCPSegment) : RawHeader where
  srcPort := s.udinfo.srcPort
  dstPort := s.udinfo.dstPort
  seqno := s.senderMessage.seqno.rawValue
  ackno := (s.receiverMessage.ackno.getD ⟨0⟩).rawValue
  offset := (headerMinLen <<< 4).toUInt8
  flags := s.flags
  windowSize := s.receiverMessage.windowSize
  cksum := s.udinfo.cksum
  urgent := 0

theorem rawHeader_bytes (s : TCPSegment) : s.rawHeader.bytes = s.bytes := by
  simp only [RawHeader.bytes, rawHeader, bytes, front, List.append_assoc]

/-- It says what the segment says. -/
theorem rawHeader_segment (s : TCPSegment) (payload : Bytes) :
    s.rawHeader.segment payload =
      { s with senderMessage := { s.senderMessage with payload } } := by
  obtain ⟨hack, hreset, hsyn, hfin⟩ := s.flags_bits
  have hsame : (if s.receiverMessage.ackno.isSome = true
      then some (⟨(s.receiverMessage.ackno.getD ⟨0⟩).rawValue⟩ : Wrap32) else none) =
      s.receiverMessage.ackno := by
    cases s.receiverMessage.ackno <;> rfl
  simp only [RawHeader.segment, rawHeader, hack, hreset, hsyn, hfin, hsame]

/-- The fields are read back; the payload is that of the segment read into. -/
theorem readFields_ahead {s : TCPSegment} {p : Parser} {n : Nat} {more : Bytes}
    (hp : p.Ahead (20 + n) (s.bytes ++ more)) (s₀ : TCPSegment) :
    ∃ p', s₀.readFields p = .ok (({ s with
        senderMessage := { s.senderMessage with payload := s₀.senderMessage.payload } }, 5), p') ∧
      p'.Ahead n more := by
  rw [← rawHeader_bytes] at hp
  obtain ⟨p', hread, hp'⟩ := RawHeader.readFields_ahead hp s₀
  have hoffset : s.rawHeader.offset >>> 4 = 5 := by
    change (headerMinLen <<< 4).toUInt8 >>> 4 = 5
    decide
  rw [rawHeader_segment, hoffset] at hread
  exact ⟨p', hread, hp'⟩

theorem checksumOf_eq {p : Parser} (hp : p.Sound) (pseudo : UInt32) :
    checksumOf pseudo p = .ok ((InternetChecksum.add { sum := pseudo } p.rest).value, p) := by
  obtain ⟨parser2, hall, -⟩ := Parser.allRemainingBuffer_ok hp
  have hget : (get : ParserM Parser) p = .ok (p, p) := rfl
  have hlift : (liftM (Parser.allRemainingBuffer p) : ParserM (Bytes × Parser)) p =
      .ok ((p.rest, parser2), p) := by
    rw [hall]
    rfl
  rw [checksumOf, ParserM.bind_of_ok hget, ParserM.bind_of_ok hlift]
  rfl

/-- Without a valid checksum nothing is read. -/
theorem parse_invalid {p : Parser} (hp : p.Sound) {pseudo : UInt32}
    (h : (InternetChecksum.add { sum := pseudo } p.rest).value ≠ 0) (s₀ : TCPSegment) :
    s₀.parse pseudo p = .ok (s₀, { p with error := true }) := by
  rw [parse, ParserM.bind_of_ok (checksumOf_eq hp pseudo), if_pos (bne_iff_ne.mpr h)]
  rfl

/-- With a valid checksum the fields are read; then the data offset is looked at and what
it announces is skipped. -/
theorem parse_valid {p : Parser} (hp : p.Sound) {pseudo : UInt32}
    (h : (InternetChecksum.add { sum := pseudo } p.rest).value = 0) {s₀ s : TCPSegment}
    {dataOffset : UInt8} {p₁ : Parser} (hread : s₀.readFields p = .ok ((s, dataOffset), p₁))
    (hp₁ : p₁.Sound) :
    let payload := p₁.rest.drop (dataOffset.toUInt32 * 4 - headerMinLen * 4).toNat
    ∃ p₂, s₀.parse pseudo p = .ok ({ s with
        senderMessage := { s.senderMessage with payload } }, p₂) ∧
      p₂.error = (p₁.error || decide (dataOffset.toUInt32 < headerMinLen)) := by
  have hchecked : Parser.setErrorIf (dataOffset.toUInt32 < headerMinLen) p₁ = .ok ((),
      { p₁ with error := p₁.error || decide (dataOffset.toUInt32 < headerMinLen) }) := rfl
  generalize hskip : (dataOffset.toUInt32 * 4 - headerMinLen * 4).toNat = skip
  generalize hq : ({ p₁ with error := p₁.error || decide (dataOffset.toUInt32 < headerMinLen) } :
    Parser) = q at hchecked
  have hqs : q.Sound := hq ▸ ⟨hp₁.size, hp₁.skip⟩
  have hremoves := Parser.removePrefix_removes hqs skip
  obtain ⟨p₂, hall, herror⟩ := Parser.allRemainingBuffer_ok hremoves.sound
  have hmodify : (modify fun p => p.removePrefix skip : ParserM PUnit) q =
      .ok (⟨⟩, q.removePrefix skip) := rfl
  have hrest : (q.removePrefix skip).rest = p₁.rest.drop skip := by
    rw [hremoves.rest, ← hq]
    rfl
  refine ⟨p₂, ?_, by rw [herror, hremoves.error, ← hq]⟩
  rw [parse, ParserM.bind_of_ok (checksumOf_eq hp pseudo), if_neg (by simp [h]),
    ParserM.bind_of_ok hread]
  dsimp only
  rw [ParserM.bind_of_ok hchecked, hskip, ParserM.bind_of_ok hmodify, ParserM.bind_of_ok hall,
    hrest]
  rfl

theorem consumes_readFields (s₀ : TCPSegment) : Parser.Consumes s₀.readFields :=
  (Parser.consumes_integer _).bind fun _ => (Parser.consumes_integer _).bind fun _ =>
  (Parser.consumes_integer _).bind fun _ => (Parser.consumes_integer _).bind fun _ =>
  (Parser.consumes_integer _).bind fun _ => (Parser.consumes_integer _).bind fun _ =>
  (Parser.consumes_integer _).bind fun _ => (Parser.consumes_integer _).bind fun _ =>
  (Parser.consumes_integer _).bind fun _ => Parser.consumes_pure _

/-- The payload of an accepted segment is the end of what it was parsed from. -/
theorem parse_payload {s₀ s : TCPSegment} {pseudo : UInt32} {input : List Bytes}
    (h : Minnow.parse (s₀.parse pseudo) input = .ok (some s)) :
    s.senderMessage.payload <:+ input.flatten := by
  have hsound := Parser.sound_ofBuffers input
  have hrest := Parser.rest_ofBuffers input
  obtain ⟨p, hparse, herror⟩ := parse_eq_some.mp h
  by_cases hvalid : (InternetChecksum.add { sum := pseudo } (Parser.ofBuffers input).rest).value = 0
  · obtain ⟨r, p₁, hread, hp₁, htaken⟩ := consumes_readFields s₀ _ hsound
    obtain ⟨p₂, hvalidated, -⟩ := parse_valid hsound hvalid hread hp₁
    rw [hvalidated] at hparse
    cases hparse
    rw [hrest] at htaken
    exact (List.drop_suffix _ _).trans htaken
  · rw [parse_invalid hsound hvalid] at hparse
    cases hparse
    cases herror

/-- A segment whose checksum verifies is read back from its bytes. -/
theorem parse_wire {s : TCPSegment} {pseudo : UInt32}
    (hverifies : (InternetChecksum.add { sum := pseudo }
      (s.bytes ++ s.senderMessage.payload)).value = 0)
    {input : List Bytes} (hinput : input.flatten = s.bytes ++ s.senderMessage.payload)
    (hfilled : Views.Filled 20 input) (s₀ : TCPSegment) :
    Minnow.parse (s₀.parse pseudo) input = .ok (some s) := by
  have hp := Parser.ahead_ofBuffers hinput hfilled
  obtain ⟨p₁, hread, hp₁⟩ := readFields_ahead (n := 0) hp s₀
  obtain ⟨p₂, hparse, herror⟩ := parse_valid hp.sound (by rw [hp.rest, hverifies]) hread hp₁.sound
  have hskip : ((5 : UInt8).toUInt32 * 4 - headerMinLen * 4).toNat = 0 := rfl
  rw [hskip, List.drop_zero, hp₁.rest] at hparse
  exact parse_eq_some.mpr ⟨p₂, hparse, by rw [herror, hp₁.error]; rfl⟩

end TCPSegment
end Minnow
