import Minnow.IPv4
import Minnow.ParserWire
import Mathlib.Data.Nat.Bitwise

/-!
The IPv4 header on the wire. A header whose fields fit their bits is read back from its
twenty bytes; the parser then skips the options that the header length announces.
-/

namespace Minnow
namespace IPv4Header

def firstByte (h : IPv4Header) : UInt8 :=
  ((h.ver.toUInt32 <<< 4) ||| (h.hlen.toUInt32 &&& 0xf)).toUInt8

def foVal (h : IPv4Header) : UInt16 :=
  ((if h.df then (0x4000 : UInt32) else 0) ||| (if h.mf then 0x2000 else 0) |||
    (h.offset.toUInt32 &&& 0x1fff)).toUInt16

/-- The twenty bytes of the header. -/
def bytes (h : IPv4Header) : Bytes :=
  wire h.firstByte ++ (wire h.tos ++ (wire h.len ++ (wire h.id ++ (wire h.foVal ++
    (wire h.ttl ++ (wire h.proto ++ (wire h.cksum ++ (wire h.src ++ wire h.dst))))))))

/-- The fields fit into their bits, and the length is that of a header. -/
structure Fits (h : IPv4Header) : Prop where
  ver : h.ver = 4
  hlen : 5 ≤ h.hlen.toNat ∧ h.hlen.toNat < 16
  offset : h.offset.toNat < 2 ^ 13

@[simp] theorem length_bytes (h : IPv4Header) : h.bytes.length = 20 := by
  simp only [bytes, List.length_append, length_wire]
  rfl

theorem serialize_eq {h : IPv4Header} (hver : h.ver = 4) (s : Serializer) :
    h.serialize s = .ok { s with buffer := s.buffer ++ h.bytes } := by
  rw [serialize, if_neg (by simp [hver])]
  simp only [Serializer.integer_eq, List.append_assoc]
  rfl

theorem firstByte_toNat {h : IPv4Header} (hf : h.Fits) :
    h.firstByte.toNat = 2 ^ 4 * 4 + h.hlen.toNat := by
  have hmask : h.hlen.toNat &&& 15 = h.hlen.toNat % 2 ^ 4 := Nat.and_two_pow_sub_one_eq_mod _ 4
  have hlen := hf.hlen
  rw [Nat.two_pow_add_eq_or_of_lt (by omega : h.hlen.toNat < 2 ^ 4)]
  simp only [firstByte, hf.ver, UInt32.toNat_toUInt8, UInt32.toNat_or, UInt32.toNat_shiftLeft,
    UInt32.toNat_and, UInt8.toNat_toUInt32, UInt32.reduceToNat, UInt8.reduceToNat, hmask,
    Nat.mod_eq_of_lt (by omega : h.hlen.toNat < 2 ^ 4)]
  rw [Nat.mod_eq_of_lt]
  · rfl
  · exact Nat.or_lt_two_pow (by decide) (by omega)

theorem firstByte_ver {h : IPv4Header} (hf : h.Fits) : h.firstByte >>> 4 = h.ver := by
  have hlen := hf.hlen
  apply UInt8.toNat_inj.mp
  rw [UInt8.toNat_shiftRight, firstByte_toNat hf, hf.ver]
  simp only [UInt8.reduceToNat, Nat.reduceMod, Nat.shiftRight_eq_div_pow]
  omega

theorem firstByte_hlen {h : IPv4Header} (hf : h.Fits) : h.firstByte &&& 0x0f = h.hlen := by
  have hlen := hf.hlen
  have hmask : h.firstByte.toNat &&& 15 = h.firstByte.toNat % 2 ^ 4 :=
    Nat.and_two_pow_sub_one_eq_mod _ 4
  apply UInt8.toNat_inj.mp
  rw [UInt8.toNat_and]
  simp only [UInt8.reduceToNat]
  rw [hmask, firstByte_toNat hf]
  omega

theorem foVal_toNat {h : IPv4Header} (hf : h.Fits) :
    h.foVal.toNat = 2 ^ 14 * h.df.toNat + (2 ^ 13 * h.mf.toNat + h.offset.toNat) := by
  have hmask : h.offset.toNat &&& 8191 = h.offset.toNat % 2 ^ 13 :=
    Nat.and_two_pow_sub_one_eq_mod _ 13
  have hoff := hf.offset
  have hmf := Bool.toNat_le h.mf
  have hdf : (if h.df = true then (0x4000 : UInt32) else 0).toNat = 2 ^ 14 * h.df.toNat := by
    cases h.df <;> rfl
  have hmf' : (if h.mf = true then (0x2000 : UInt32) else 0).toNat = 2 ^ 13 * h.mf.toNat := by
    cases h.mf <;> rfl
  rw [Nat.two_pow_add_eq_or_of_lt (by omega), Nat.two_pow_add_eq_or_of_lt hoff]
  simp only [foVal, UInt32.toNat_toUInt16, UInt32.toNat_or, UInt32.toNat_and, hdf, hmf',
    UInt16.toNat_toUInt32, UInt32.reduceToNat, hmask, Nat.mod_eq_of_lt hoff, Nat.or_assoc]
  have hdf' := Bool.toNat_le h.df
  rw [Nat.mod_eq_of_lt]
  exact Nat.or_lt_two_pow (by omega) (Nat.or_lt_two_pow (by omega) (by omega))

theorem and_two_pow_ne_zero {x m : UInt16} {i : Nat} (hm : m.toNat = 2 ^ i) :
    (x &&& m != 0) = x.toNat.testBit i := by
  have hzero : x &&& m = 0 ↔ x.toNat.testBit i = false := by
    rw [← UInt16.toNat_inj, UInt16.toNat_and, hm, Nat.and_two_pow]
    cases x.toNat.testBit i <;> simp
  rw [Bool.eq_iff_iff, bne_iff_ne, Ne, hzero, Bool.not_eq_false]

theorem foVal_df {h : IPv4Header} (hf : h.Fits) : (h.foVal &&& 0x4000 != 0) = h.df := by
  have hoff := hf.offset
  have hmf := Bool.toNat_le h.mf
  rw [and_two_pow_ne_zero (i := 14) rfl, Nat.testBit_eq_decide_div_mod_eq, foVal_toNat hf]
  cases h.df
  · rw [decide_eq_false_iff_not, Bool.toNat_false]
    omega
  · rw [decide_eq_true_iff, Bool.toNat_true]
    omega

theorem foVal_mf {h : IPv4Header} (hf : h.Fits) : (h.foVal &&& 0x2000 != 0) = h.mf := by
  have hoff := hf.offset
  have hdf := Bool.toNat_le h.df
  rw [and_two_pow_ne_zero (i := 13) rfl, Nat.testBit_eq_decide_div_mod_eq, foVal_toNat hf]
  cases h.mf
  · rw [decide_eq_false_iff_not, Bool.toNat_false]
    omega
  · rw [decide_eq_true_iff, Bool.toNat_true]
    omega

theorem foVal_offset {h : IPv4Header} (hf : h.Fits) : h.foVal &&& 0x1fff = h.offset := by
  have hmask : h.foVal.toNat &&& 8191 = h.foVal.toNat % 2 ^ 13 :=
    Nat.and_two_pow_sub_one_eq_mod _ 13
  have hoff := hf.offset
  apply UInt16.toNat_inj.mp
  rw [UInt16.toNat_and]
  simp only [UInt16.reduceToNat]
  rw [hmask, foVal_toNat hf]
  omega

/-- Any twenty bytes, as the integers that are read from them. -/
structure RawHeader where
  firstByte : UInt8
  tos : UInt8
  len : UInt16
  id : UInt16
  foVal : UInt16
  ttl : UInt8
  proto : UInt8
  cksum : UInt16
  src : UInt32
  dst : UInt32

namespace RawHeader

def bytes (r : RawHeader) : Bytes :=
  wire r.firstByte ++ (wire r.tos ++ (wire r.len ++ (wire r.id ++ (wire r.foVal ++
    (wire r.ttl ++ (wire r.proto ++ (wire r.cksum ++ (wire r.src ++ wire r.dst))))))))

/-- The fields that are read from them. -/
def header (r : RawHeader) : IPv4Header where
  ver := r.firstByte >>> 4
  hlen := r.firstByte &&& 0x0f
  tos := r.tos
  len := r.len
  id := r.id
  df := r.foVal &&& 0x4000 != 0
  mf := r.foVal &&& 0x2000 != 0
  offset := r.foVal &&& 0x1fff
  ttl := r.ttl
  proto := r.proto
  cksum := r.cksum
  src := r.src
  dst := r.dst

theorem readFields_ahead {r : RawHeader} {p : Parser} {n : Nat} {more : Bytes}
    (hp : p.Ahead (20 + n) (r.bytes ++ more)) (h₀ : IPv4Header) :
    ∃ p', h₀.readFields p = .ok (r.header, p') ∧ p'.Ahead n more := by
  simp only [bytes, List.append_assoc] at hp
  rw [show 20 + n = 1 + (1 + (2 + (2 + (2 + (1 + (1 + (2 + (4 + (4 + n))))))))) by omega] at hp
  obtain ⟨p, hfirst, hp⟩ := Parser.integer_bind_ahead hp (0 : UInt8) _
  obtain ⟨p, htos, hp⟩ := Parser.integer_bind_ahead hp h₀.tos _
  obtain ⟨p, hlen, hp⟩ := Parser.integer_bind_ahead hp h₀.len _
  obtain ⟨p, hid, hp⟩ := Parser.integer_bind_ahead hp h₀.id _
  obtain ⟨p, hfo, hp⟩ := Parser.integer_bind_ahead hp (0 : UInt16) _
  obtain ⟨p, httl, hp⟩ := Parser.integer_bind_ahead hp h₀.ttl _
  obtain ⟨p, hproto, hp⟩ := Parser.integer_bind_ahead hp h₀.proto _
  obtain ⟨p, hcksum, hp⟩ := Parser.integer_bind_ahead hp h₀.cksum _
  obtain ⟨p, hsrc, hp⟩ := Parser.integer_bind_ahead hp h₀.src _
  obtain ⟨p, hdst, hp⟩ := Parser.integer_bind_ahead hp h₀.dst _
  refine ⟨p, ?_, hp⟩
  rw [readFields, hfirst, htos, hlen, hid, hfo, httl, hproto, hcksum, hsrc, hdst]
  rfl

end RawHeader

/-- The header as it is written. -/
def rawHeader (h : IPv4Header) : RawHeader where
  firstByte := h.firstByte
  tos := h.tos
  len := h.len
  id := h.id
  foVal := h.foVal
  ttl := h.ttl
  proto := h.proto
  cksum := h.cksum
  src := h.src
  dst := h.dst

theorem rawHeader_bytes (h : IPv4Header) : h.rawHeader.bytes = h.bytes := rfl

theorem rawHeader_header {h : IPv4Header} (hf : h.Fits) : h.rawHeader.header = h := by
  simp only [RawHeader.header, rawHeader, firstByte_ver hf, firstByte_hlen hf, foVal_df hf,
    foVal_mf hf, foVal_offset hf]

/-- The fields are read back. -/
theorem readFields_ahead {h : IPv4Header} (hf : h.Fits) {p : Parser} {n : Nat} {more : Bytes}
    (hp : p.Ahead (20 + n) (h.bytes ++ more)) (h₀ : IPv4Header) :
    ∃ p', h₀.readFields p = .ok (h, p') ∧ p'.Ahead n more := by
  rw [← rawHeader_bytes] at hp
  obtain ⟨p', hread, hp'⟩ := RawHeader.readFields_ahead hp h₀
  exact ⟨p', by rw [hread, rawHeader_header hf], hp'⟩

/-- Whatever is read, the header length and the offset fit into their bits. -/
theorem readFields_fits {h₀ h : IPv4Header} {p p₁ : Parser}
    (hread : h₀.readFields p = .ok (h, p₁)) : h.hlen.toNat < 16 ∧ h.offset.toNat < 2 ^ 13 := by
  obtain ⟨firstByte, p, -, hread⟩ := ParserM.bind_ok hread
  obtain ⟨tos, p, -, hread⟩ := ParserM.bind_ok hread
  obtain ⟨len, p, -, hread⟩ := ParserM.bind_ok hread
  obtain ⟨id, p, -, hread⟩ := ParserM.bind_ok hread
  obtain ⟨foVal, p, -, hread⟩ := ParserM.bind_ok hread
  obtain ⟨ttl, p, -, hread⟩ := ParserM.bind_ok hread
  obtain ⟨proto, p, -, hread⟩ := ParserM.bind_ok hread
  obtain ⟨cksum, p, -, hread⟩ := ParserM.bind_ok hread
  obtain ⟨src, p, -, hread⟩ := ParserM.bind_ok hread
  obtain ⟨dst, p, -, hread⟩ := ParserM.bind_ok hread
  cases hread
  constructor
  · rw [UInt8.toNat_and]
    exact Nat.and_lt_two_pow _ (by decide : (0x0f : UInt8).toNat < 2 ^ 4)
  · rw [UInt16.toNat_and]
    exact Nat.and_lt_two_pow _ (by decide : (0x1fff : UInt16).toNat < 2 ^ 13)

theorem runs_readFields (h : IPv4Header) : Parser.Runs h.readFields :=
  (Parser.runs_integer _).bind fun _ => (Parser.runs_integer _).bind fun _ =>
  (Parser.runs_integer _).bind fun _ => (Parser.runs_integer _).bind fun _ =>
  (Parser.runs_integer _).bind fun _ => (Parser.runs_integer _).bind fun _ =>
  (Parser.runs_integer _).bind fun _ => (Parser.runs_integer _).bind fun _ =>
  (Parser.runs_integer _).bind fun _ => (Parser.runs_integer _).bind fun _ =>
  Parser.runs_pure _

/-- The checksum is only taken of a header of version 4, so nothing is thrown. -/
theorem runs_parse (h₀ : IPv4Header) : Parser.Runs h₀.parse := by
  intro p hp
  obtain ⟨h, p₁, hread, hp₁⟩ := runs_readFields h₀ p hp
  cases parse_cases hread with
  | inl hrefused =>
      obtain ⟨-, hbad⟩ := hrefused
      exact ⟨h, _, hbad, hp₁.size, hp₁.skip⟩
  | inr hparsed =>
      obtain ⟨-, cksum, -, hgood⟩ := hparsed
      have hskip := (Parser.removePrefix_removes hp₁ (h.hlen.toNat * 4 - LENGTH)).sound
      exact ⟨_, _, hgood, hskip.size, hskip.skip⟩

theorem computeChecksum_computed {h h' : IPv4Header} (hc : h.computeChecksum = .ok h') :
    h'.computeChecksum = .ok h' ∧ ∃ cksum, h' = { h with cksum } := by
  have hcksum : ∃ cksum, h' = { h with cksum } := by
    simp only [computeChecksum] at hc
    split at hc
    · cases hc
    · cases hc
      exact ⟨_, rfl⟩
  obtain ⟨cksum, rfl⟩ := hcksum
  exact ⟨hc, cksum, rfl⟩

/-- An accepted header fits its bits and carries its checksum. -/
theorem fits_of_parse {h₀ h : IPv4Header} {p p' : Parser} (hparse : h₀.parse p = .ok (h, p'))
    (hok : p'.error = false) : h.Fits ∧ h.computeChecksum = .ok h := by
  obtain ⟨fields, p₁, hread, -⟩ := ParserM.bind_ok hparse
  obtain ⟨hlen, hoffset⟩ := readFields_fits hread
  cases parse_cases hread with
  | inl hrefused =>
      obtain ⟨-, hbad⟩ := hrefused
      rw [hbad] at hparse
      cases hparse
      cases hok
  | inr hparsed =>
      obtain ⟨⟨-, hver, hlen'⟩, cksum, hcksum, hgood⟩ := hparsed
      rw [hgood] at hparse
      cases hparse
      exact ⟨⟨hver, ⟨hlen', hlen⟩, hoffset⟩, (computeChecksum_computed hcksum).1⟩

/-- A header with its checksum is accepted, and what its length announces is skipped. -/
theorem parse_ahead {h : IPv4Header} (hf : h.Fits) (hc : h.computeChecksum = .ok h)
    {p : Parser} {n : Nat} {more : Bytes} (hp : p.Ahead (20 + n) (h.bytes ++ more))
    (h₀ : IPv4Header) :
    ∃ p', h₀.parse p = .ok (h, p') ∧
      p'.Ahead (n - 4 * (h.hlen.toNat - 5)) (more.drop (4 * (h.hlen.toNat - 5))) := by
  obtain ⟨p₁, hread, hp₁⟩ := readFields_ahead hf hp h₀
  have hskip := hp₁.removePrefix (h.hlen.toNat * 4 - LENGTH)
  rw [show h.hlen.toNat * 4 - LENGTH = 4 * (h.hlen.toNat - 5) by rw [LENGTH]; omega] at hskip
  cases parse_cases hread with
  | inl hrefused =>
      obtain ⟨hbad, -⟩ := hrefused
      rcases hbad with herror | hver | hlen
      · rw [hp₁.error] at herror
        cases herror
      · exact absurd hf.ver hver
      · have := hf.hlen
        omega
  | inr hparsed =>
      obtain ⟨-, cksum, hcksum, hgood⟩ := hparsed
      rw [hc, Except.ok.injEq] at hcksum
      have hsame : cksum = h.cksum := by rw [hcksum]
      rw [← hcksum, hsame, bne_self_eq_false, Bool.or_false,
        show h.hlen.toNat * 4 - LENGTH = 4 * (h.hlen.toNat - 5) by rw [LENGTH]; omega] at hgood
      exact ⟨_, hgood, hskip⟩

end IPv4Header

namespace IPv4Datagram

theorem parse_ok (d : IPv4Datagram) (input : List Bytes) :
    ∃ r, Minnow.parse d.parse input = .ok r := by
  obtain ⟨header, p, hheader, -⟩ := IPv4Header.runs_parse d.header _
    (Parser.sound_ofBuffers input)
  obtain ⟨payload, p', hpayload⟩ := Parser.allRemaining_ok p
  have hrun : d.parse (Parser.ofBuffers input) = .ok ({ header, payload }, p') := by
    rw [parse, ParserM.bind_of_ok hheader, ParserM.bind_of_ok hpayload]
    rfl
  exact ⟨_, by rw [Minnow.parse, hrun]⟩

theorem fits_of_parse {d₀ d : IPv4Datagram} {input : List Bytes}
    (hparse : Minnow.parse d₀.parse input = .ok (some d)) :
    d.header.Fits ∧ d.header.computeChecksum = .ok d.header := by
  obtain ⟨p, hrun, herror⟩ := parse_eq_some.mp hparse
  obtain ⟨header, p₁, hheader, hrest⟩ := ParserM.bind_ok hrun
  obtain ⟨payload, p₂, hpayload, ⟨rfl⟩⟩ := ParserM.bind_ok hrest
  rw [Parser.allRemaining_error hpayload] at herror
  exact IPv4Header.fits_of_parse hheader herror

/-- The bytes on the wire: the header, whose first buffer has them all, and the payload. -/
theorem serialize_eq {d : IPv4Datagram} (hver : d.header.ver = 4) :
    ∃ more, d.serialize = .ok (d.header.bytes :: more) ∧
      more.flatten = d.payload.flatten := by
  obtain ⟨more, hmore⟩ := Serializer.takeOutput_appendBuffers d.header.bytes d.payload
  refine ⟨more, ?_, ?_⟩
  · rw [serialize, IPv4Header.serialize_eq hver]
    exact congrArg Except.ok hmore
  · have hflat := congrArg List.flatten hmore
    rw [Serializer.takeOutput_flatten, Serializer.appendBuffers_flatten] at hflat
    exact (List.append_cancel_left hflat).symm

/-- A datagram is read back from its bytes without what the header length skips. -/
theorem parse_wire {d : IPv4Datagram} (hf : d.header.Fits)
    (hc : d.header.computeChecksum = .ok d.header) {input : List Bytes} {n : Nat}
    (hinput : input.flatten = d.header.bytes ++ d.payload.flatten)
    (hfilled : Views.Filled (20 + n) input) (d₀ : IPv4Datagram) :
    ∃ payload, Minnow.parse d₀.parse input = .ok (some { header := d.header, payload }) ∧
      payload.flatten = d.payload.flatten.drop (4 * (d.header.hlen.toNat - 5)) ∧
      Views.Filled (n - 4 * (d.header.hlen.toNat - 5)) payload := by
  obtain ⟨p, hheader, hp⟩ :=
    IPv4Header.parse_ahead hf hc (Parser.ahead_ofBuffers hinput hfilled) d₀.header
  obtain ⟨payload, p', hpayload, herror, hflatten, hviews⟩ := hp.allRemaining
  refine ⟨payload, parse_eq_some.mpr ⟨p', ?_, herror⟩, hflatten, hviews⟩
  rw [parse, ParserM.bind_of_ok hheader, ParserM.bind_of_ok hpayload]
  rfl

end IPv4Datagram
end Minnow
