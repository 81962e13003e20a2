import Minnow.InternetChecksum
import Minnow.IPv4Wire

/-!
The byte strings that the parser of IPv4 headers accepts. It compares the checksum with that
of the fixed header as it would write it, without the options and the reserved flag.
-/

namespace Minnow
open OnesComplement
namespace IPv4Header

/-- The 16-bit word at the byte `i`. -/
def word (i : Nat) (b : Bytes) : Nat := BigEndian.decode 0 ((b.drop i).take 2)

def versionOf (b : Bytes) : Nat := (b.getD 0 0 >>> 4).toNat

def hlenOf (b : Bytes) : Nat := (b.getD 0 0 &&& 0x0f).toNat

def headerLength (b : Bytes) : Nat := 4 * hlenOf b

/-- The reserved flag, as it weighs in its word. -/
def reservedOf (b : Bytes) : Nat := 2 ^ 15 * (word 6 b / 2 ^ 15)

/-- A header with its options under a checksum over all of it. -/
def Valid (b : Bytes) : Prop :=
  20 ≤ b.length ∧ versionOf b = 4 ∧ 5 ≤ hlenOf b ∧ headerLength b ≤ b.length ∧
    endAround (weigh false (b.take (headerLength b))) = 0xffff

/-- A fixed header under a checksum over it without the reserved flag; the checksum field
holds zero in the one encoding that is written. -/
def Readable (b : Bytes) : Prop :=
  20 ≤ b.length ∧ versionOf b = 4 ∧ 5 ≤ hlenOf b ∧
    endAround (weigh false (b.take 20) - reservedOf b) = 0xffff ∧ word 10 b ≠ 0xffff

/-- No empty buffer stands in front of the fixed header, where the source takes `front()` of
the view unguarded. -/
def HeaderFilled (input : List Bytes) : Prop :=
  20 ≤ input.flatten.length → Views.Filled 20 input

theorem headerFilled_singleton (b : Bytes) : HeaderFilled [b] := by
  intro hlong
  rw [List.flatten_singleton] at hlong
  exact Views.filled_of_le_head [] hlong

theorem word_wire {before : Bytes} {i : Nat} (h : before.length = i) (n : UInt16)
    (more : Bytes) : word i (before ++ (wire n ++ more)) = n.toNat := by
  have hn : n.toNat < 256 ^ 2 := n.toNat_lt
  have htake : (wire n ++ more).take 2 = wire n := List.take_left' (length_wire n)
  rw [word, List.drop_left' h, htake]
  exact BigEndian.decode_encode_of_lt hn

theorem firstByte_zeroed (h : IPv4Header) : { h with cksum := 0 }.firstByte = h.firstByte := rfl

theorem foVal_zeroed (h : IPv4Header) : { h with cksum := 0 }.foVal = h.foVal := rfl

namespace RawHeader

/-- The bytes up to the flags, and those between the words that the checksum sets apart. -/
def front (r : RawHeader) : Bytes :=
  wire r.firstByte ++ (wire r.tos ++ (wire r.len ++ wire r.id))

def middle (r : RawHeader) : Bytes := wire r.ttl ++ wire r.proto

def back (r : RawHeader) : Bytes := wire r.src ++ wire r.dst

@[simp] theorem length_front (r : RawHeader) : r.front.length = 6 := by
  simp only [front, List.length_append, length_wire]
  rfl

@[simp] theorem length_middle (r : RawHeader) : r.middle.length = 2 := by
  simp only [middle, List.length_append, length_wire]
  rfl

theorem bytes_eq (r : RawHeader) :
    r.bytes = r.front ++ (wire r.foVal ++ (r.middle ++ (wire r.cksum ++ r.back))) := by
  simp only [bytes, front, middle, back, List.append_assoc]

@[simp] theorem length_bytes (r : RawHeader) : r.bytes.length = 20 := by
  simp only [bytes, List.length_append, length_wire]
  rfl

/-- The flags and the checksum count as words like the others. -/
theorem weigh_bytes (r : RawHeader) :
    weigh false r.bytes = weigh false r.front + (r.foVal.toNat +
      (weigh false r.middle + (r.cksum.toNat + weigh false r.back))) := by
  rw [bytes_eq, weigh_append_words (by simp), weigh_append_words (by simp; rfl),
    weigh_append_words (by simp), weigh_append_words (by simp; rfl), weigh_wire, weigh_wire]

theorem exists_of_length {b : Bytes} (h : 20 ≤ b.length) :
    ∃ (r : RawHeader) (more : Bytes), b = r.bytes ++ more := by
  obtain ⟨firstByte, b₁, rfl, h₁⟩ := exists_wire UInt8 (n := 19) h
  obtain ⟨tos, b₂, rfl, h₂⟩ := exists_wire UInt8 (n := 18) h₁
  obtain ⟨len, b₃, rfl, h₃⟩ := exists_wire UInt16 (n := 16) h₂
  obtain ⟨id, b₄, rfl, h₄⟩ := exists_wire UInt16 (n := 14) h₃
  obtain ⟨foVal, b₅, rfl, h₅⟩ := exists_wire UInt16 (n := 12) h₄
  obtain ⟨ttl, b₆, rfl, h₆⟩ := exists_wire UInt8 (n := 11) h₅
  obtain ⟨proto, b₇, rfl, h₇⟩ := exists_wire UInt8 (n := 10) h₆
  obtain ⟨cksum, b₈, rfl, h₈⟩ := exists_wire UInt16 (n := 8) h₇
  obtain ⟨src, b₉, rfl, h₉⟩ := exists_wire UInt32 (n := 4) h₈
  obtain ⟨dst, more, rfl, -⟩ := exists_wire UInt32 (n := 0) h₉
  exact ⟨⟨firstByte, tos, len, id, foVal, ttl, proto, cksum, src, dst⟩, more,
    by simp only [bytes, List.append_assoc]⟩

theorem firstByte_append (r : RawHeader) (more : Bytes) :
    (r.bytes ++ more).getD 0 0 = r.firstByte := by
  have hplace := getD_wire (i := 0) List.length_nil r.firstByte (wire r.tos ++ (wire r.len ++
    (wire r.id ++ (wire r.foVal ++ (wire r.ttl ++ (wire r.proto ++ (wire r.cksum ++
      (wire r.src ++ (wire r.dst ++ more)))))))))
  simp only [bytes, List.append_assoc]
  exact hplace

theorem versionOf_bytes (r : RawHeader) (more : Bytes) :
    versionOf (r.bytes ++ more) = r.header.ver.toNat := by
  rw [versionOf, firstByte_append, header]

theorem hlenOf_bytes (r : RawHeader) (more : Bytes) :
    hlenOf (r.bytes ++ more) = r.header.hlen.toNat := by
  rw [hlenOf, firstByte_append, header]

theorem len_bytes (r : RawHeader) (more : Bytes) :
    word 2 (r.bytes ++ more) = r.len.toNat := by
  have hbefore : (wire r.firstByte ++ wire r.tos).length = 2 := by
    simp only [List.length_append, length_wire]
    rfl
  have hplace := word_wire hbefore r.len (wire r.id ++ (wire r.foVal ++ (r.middle ++
    (wire r.cksum ++ (r.back ++ more)))))
  simp only [List.append_assoc] at hplace
  rw [bytes_eq, front]
  simp only [List.append_assoc, hplace]

theorem reservedOf_bytes (r : RawHeader) (more : Bytes) :
    reservedOf (r.bytes ++ more) = 2 ^ 15 * (r.foVal.toNat / 2 ^ 15) := by
  have hplace := word_wire r.length_front r.foVal (r.middle ++ (wire r.cksum ++
    (r.back ++ more)))
  rw [reservedOf, bytes_eq]
  simp only [List.append_assoc, hplace]

theorem cksum_bytes (r : RawHeader) (more : Bytes) :
    word 10 (r.bytes ++ more) = r.cksum.toNat := by
  have hbefore : (r.front ++ (wire r.foVal ++ r.middle)).length = 10 := by
    simp only [List.length_append, length_wire, length_front, length_middle]
    rfl
  have hplace := word_wire hbefore r.cksum (r.back ++ more)
  simp only [List.append_assoc] at hplace
  rw [bytes_eq]
  simp only [List.append_assoc, hplace]

/-- What is written for the fields differs in the reserved flag alone. -/
theorem firstByte_header {r : RawHeader} (hf : r.header.Fits) :
    r.header.firstByte = r.firstByte := by
  have hver : (r.firstByte >>> 4).toNat = 4 := congrArg UInt8.toNat hf.ver
  have hmask : r.firstByte.toNat &&& 15 = r.firstByte.toNat % 2 ^ 4 :=
    Nat.and_two_pow_sub_one_eq_mod _ 4
  rw [UInt8.toNat_shiftRight] at hver
  simp only [UInt8.reduceToNat, Nat.reduceMod, Nat.shiftRight_eq_div_pow] at hver
  apply UInt8.toNat_inj.mp
  rw [firstByte_toNat hf, header, UInt8.toNat_and]
  simp only [UInt8.reduceToNat, hmask]
  omega

theorem foVal_header {r : RawHeader} (hf : r.header.Fits) :
    r.header.foVal.toNat = r.foVal.toNat % 2 ^ 15 := by
  have hmask : r.foVal.toNat &&& 8191 = r.foVal.toNat % 2 ^ 13 :=
    Nat.and_two_pow_sub_one_eq_mod _ 13
  have hdf : r.header.df = r.foVal.toNat.testBit 14 := and_two_pow_ne_zero rfl
  have hmf : r.header.mf = r.foVal.toNat.testBit 13 := and_two_pow_ne_zero rfl
  have hoffset : r.header.offset.toNat = r.foVal.toNat % 2 ^ 13 := by
    rw [← hmask]
    exact UInt16.toNat_and _ _
  rw [foVal_toNat hf, hdf, hmf, hoffset, Nat.toNat_testBit, Nat.toNat_testBit]
  omega

theorem rawHeader_header_zeroed {r : RawHeader} (hf : r.header.Fits) :
    { r.header with cksum := 0 }.rawHeader =
      { r with foVal := r.header.foVal, cksum := 0 } := by
  have hfirst := firstByte_header hf
  rw [rawHeader, firstByte_zeroed, foVal_zeroed, hfirst]
  rfl

theorem weigh_header {r : RawHeader} (hf : r.header.Fits) :
    weigh false { r.header with cksum := 0 }.bytes + r.cksum.toNat +
      2 ^ 15 * (r.foVal.toNat / 2 ^ 15) = weigh false r.bytes := by
  rw [← rawHeader_bytes, rawHeader_header_zeroed hf, weigh_bytes, weigh_bytes r]
  simp only [front, middle, back, foVal_header hf, UInt16.toNat_zero]
  omega

end RawHeader

theorem computeChecksum_eq {h : IPv4Header} (hver : h.ver = 4) :
    h.computeChecksum =
      .ok { h with cksum := (InternetChecksum.add {} { h with cksum := 0 }.bytes).value } := by
  have hwritten : ({ h with cksum := 0 } : IPv4Header).serialize {} =
      .ok { buffer := { h with cksum := 0 }.bytes } :=
    serialize_eq (h := { h with cksum := 0 }) hver {}
  simp only [computeChecksum, hwritten]
  rw [InternetChecksum.addBuffers_eq, Serializer.takeOutput_flatten]
  rfl

theorem add_bytes_sum (h : IPv4Header) :
    (InternetChecksum.add {} h.bytes).sum.toNat = weigh false h.bytes := by
  have hsize : (0 : UInt32).toNat + 255 * 2 ^ 8 * h.bytes.length < 2 ^ 32 := by
    rw [length_bytes]
    decide
  exact (InternetChecksum.add_exact hsize).trans (Nat.zero_add _)

/-- The version alone makes the sum positive. -/
theorem firstByte_le_weigh (h : IPv4Header) :
    h.firstByte.toNat * 2 ^ 8 ≤ weigh false h.bytes := by
  rw [bytes, wire_octet h.firstByte]
  exact Nat.le_add_right _ _

/-- The checksum that is computed over the fields is the one received exactly if the sum of
what was received comes out right without the reserved flag. -/
theorem computed_iff {r : RawHeader} (hf : r.header.Fits) (more : Bytes) :
    (InternetChecksum.add {} { r.header with cksum := 0 }.bytes).value = r.cksum ↔
      endAround (weigh false ((r.bytes ++ more).take 20) - reservedOf (r.bytes ++ more)) =
        0xffff ∧ word 10 (r.bytes ++ more) ≠ 0xffff := by
  have hsum := add_bytes_sum { r.header with cksum := 0 }
  have hpos : 0 < weigh false { r.header with cksum := 0 }.bytes := by
    have hle := firstByte_le_weigh { r.header with cksum := 0 }
    rw [firstByte_zeroed, firstByte_toNat hf] at hle
    omega
  have hones : r.cksum ≠ 0xffff ↔ r.cksum.toNat ≠ 0xffff := not_congr UInt16.toNat_inj.symm
  have hweigh := RawHeader.weigh_header hf
  rw [InternetChecksum.value_eq_iff (by rw [hsum]; exact hpos), hsum, hones,
    List.take_left' r.length_bytes, RawHeader.reservedOf_bytes, RawHeader.cksum_bytes, ← hweigh,
    Nat.add_sub_cancel]

/-- What becomes of bytes with a whole fixed header. -/
theorem parse_whole {p : Parser} {r : RawHeader} {more : Bytes}
    (hp : p.Ahead 20 (r.bytes ++ more)) (h₀ : IPv4Header) :
    ∃ cksum p', h₀.parse p = .ok ({ r.header with cksum }, p') ∧
      (p'.error = false ↔ Readable (r.bytes ++ more)) ∧
      (p'.error = false →
        p'.Ahead 0 ((r.bytes ++ more).drop (headerLength (r.bytes ++ more)))) := by
  obtain ⟨p₁, hread, hp₁⟩ := RawHeader.readFields_ahead (n := 0) hp h₀
  have hlong : 20 ≤ (r.bytes ++ more).length := by
    rw [List.length_append, r.length_bytes]
    omega
  have hversion : versionOf (r.bytes ++ more) = 4 ↔ r.header.ver = 4 := by
    rw [RawHeader.versionOf_bytes, ← UInt8.toNat_inj]
    rfl
  rw [Readable, headerLength, hversion, RawHeader.hlenOf_bytes]
  cases parse_cases hread with
  | inl hbad =>
      obtain ⟨hwhy, hparse⟩ := hbad
      refine ⟨r.cksum, _, hparse, ⟨nofun, ?_⟩, nofun⟩
      intro h
      obtain ⟨-, hver, hlen, -⟩ := h
      rw [hp₁.error] at hwhy
      rcases hwhy with herror | hver' | hlen'
      · cases herror
      · exact absurd hver hver'
      · omega
  | inr hgood =>
      obtain ⟨⟨-, hver, hlen⟩, cksum, hcksum, hparse⟩ := hgood
      have hfits : r.header.Fits := ⟨hver, ⟨hlen, (readFields_fits hread).1⟩,
        (readFields_fits hread).2⟩
      rw [computeChecksum_eq hver, Except.ok.injEq] at hcksum
      have hsame : (InternetChecksum.add {} { r.header with cksum := 0 }.bytes).value = cksum :=
        congrArg IPv4Header.cksum hcksum
      have hskip := hp₁.removePrefix (r.header.hlen.toNat * 4 - LENGTH)
      have hiff : cksum = r.cksum ↔ _ := hsame ▸ computed_iff hfits more
      refine ⟨cksum, _, hparse, ?_, fun h => ?_⟩
      · rw [hskip.error, Bool.false_or, bne_eq_false_iff_eq]
        exact hiff.trans ⟨fun h => ⟨hlong, hver, hlen, h⟩, fun h => h.2.2.2⟩
      · have hdrop : (r.bytes ++ more).drop (4 * r.header.hlen.toNat) =
            more.drop (r.header.hlen.toNat * 4 - LENGTH) := by
          rw [List.drop_append, r.length_bytes,
            List.drop_of_length_le (by rw [r.length_bytes]; omega), List.nil_append, LENGTH,
            Nat.mul_comm]
        rw [hdrop]
        refine ⟨⟨hskip.sound.size, hskip.sound.skip⟩, h, hskip.rest, trivial⟩

/-- With fewer bytes than the fixed header has, the reads fail. -/
theorem readFields_starved {p : Parser} (hp : p.Starved 20) (h₀ : IPv4Header) :
    ∃ (r : RawHeader) (p' : Parser), h₀.readFields p = .ok (r.header, p') ∧ p'.Starved 0 := by
  replace hp : p.Starved (1 + (1 + (2 + (2 + (2 + (1 + (1 + (2 + (4 + (4 + 0)))))))))) := hp
  obtain ⟨firstByte, p, hfirst, hp⟩ := Parser.integer_starved hp (0 : UInt8) _
  obtain ⟨tos, p, htos, hp⟩ := Parser.integer_starved hp h₀.tos _
  obtain ⟨len, p, hlen, hp⟩ := Parser.integer_starved hp h₀.len _
  obtain ⟨id, p, hid, hp⟩ := Parser.integer_starved hp h₀.id _
  obtain ⟨foVal, p, hfo, hp⟩ := Parser.integer_starved hp (0 : UInt16) _
  obtain ⟨ttl, p, httl, hp⟩ := Parser.integer_starved hp h₀.ttl _
  obtain ⟨proto, p, hproto, hp⟩ := Parser.integer_starved hp h₀.proto _
  obtain ⟨cksum, p, hcksum, hp⟩ := Parser.integer_starved hp h₀.cksum _
  obtain ⟨src, p, hsrc, hp⟩ := Parser.integer_starved hp h₀.src _
  obtain ⟨dst, p, hdst, hp⟩ := Parser.integer_starved hp h₀.dst _
  refine ⟨⟨firstByte, tos, len, id, foVal, ttl, proto, cksum, src, dst⟩, p, ?_, hp⟩
  rw [readFields, hfirst, htos, hlen, hid, hfo, httl, hproto, hcksum, hsrc, hdst]
  rfl

theorem parse_short {input : List Bytes} (hshort : input.flatten.length < 20)
    (h₀ : IPv4Header) :
    ∃ h p, h₀.parse (Parser.ofBuffers input) = .ok (h, p) ∧ p.error = true := by
  have hrest := Parser.rest_ofBuffers input
  have hstarved : (Parser.ofBuffers input).Starved 20 :=
    ⟨Parser.sound_ofBuffers input, Or.inr (by rwa [hrest])⟩
  obtain ⟨r, p₁, hread, hp₁⟩ := readFields_starved hstarved h₀
  cases parse_cases hread with
  | inl hbad => exact ⟨_, _, hbad.2, rfl⟩
  | inr hgood =>
      have hok := hgood.1.1
      rw [hp₁.error] at hok
      cases hok

/-- Only a readable header is accepted, and one that is all there is accepted and taken off
with its options. -/
theorem accepts_readable {b : Bytes} {input : List Bytes} (hinput : input.flatten = b)
    (hfilled : HeaderFilled input) (h₀ : IPv4Header) :
    ∃ h p, h₀.parse (Parser.ofBuffers input) = .ok (h, p) ∧ (p.error = false → Readable b) ∧
      (headerLength b ≤ b.length → (p.error = false ↔ Readable b) ∧
        (p.error = false →
          p.rest = b.drop (headerLength b) ∧ p.size + headerLength b = b.length)) := by
  cases Nat.lt_or_ge b.length 20 with
  | inl hshort =>
      obtain ⟨h, p, hparse, herror⟩ := parse_short (by rw [hinput]; exact hshort) h₀
      have hunreadable : ¬ Readable b := fun hreadable => by
        have := hreadable.1
        omega
      refine ⟨h, p, hparse, ?_⟩
      simp only [herror, hunreadable, Bool.true_eq_false, false_implies, and_true, implies_true]
  | inr hlong =>
      obtain ⟨r, more, hraw⟩ := RawHeader.exists_of_length hlong
      have hahead := Parser.ahead_ofBuffers (hinput.trans hraw)
        (hfilled (by rw [hinput]; exact hlong))
      obtain ⟨cksum, p, hparse, hreadable, hskipped⟩ := parse_whole hahead h₀
      rw [← hraw] at hreadable hskipped
      refine ⟨_, p, hparse, hreadable.mp, fun hwhole => ⟨hreadable, fun herror => ?_⟩⟩
      have hp := hskipped herror
      refine ⟨hp.rest, ?_⟩
      rw [hp.sound.size, hp.rest, List.length_drop]
      omega

/-- A header with a byte after it. -/
theorem accepts_readable_more :
    ∃ h p, IPv4Header.parse {} (Parser.ofBuffers [[0x45, 0, 0, 20, 0, 0, 0x40, 0, 64, 6, 0x26,
        0xe2, 10, 0, 0, 1, 10, 0, 0, 2, 97]]) = .ok (h, p) ∧ p.error = false ∧ p.rest = [97] := by
  obtain ⟨h, p, hparse, -, haccepts⟩ := accepts_readable (List.flatten_singleton)
    (headerFilled_singleton [0x45, 0, 0, 20, 0, 0, 0x40, 0, 64, 6, 0x26, 0xe2, 10, 0, 0, 1, 10,
      0, 0, 2, 97]) {}
  have hreadable := haccepts (by decide)
  have herror := hreadable.1.mpr
    ⟨by decide, by decide, by decide, (endAround_eq_iff _).mpr (by decide), by decide⟩
  exact ⟨h, p, hparse, herror, (hreadable.2 herror).1⟩

/-- Valid headers that are refused: one with options, one with the reserved flag, and one
whose checksum is the other zero. -/
theorem valid_refused :
    let options : Bytes :=
      [0x46, 0, 0, 24, 0, 0, 0, 0, 64, 6, 0x63, 0xdd, 10, 0, 0, 1, 10, 0, 0, 2, 1, 1, 1, 0]
    let reserved : Bytes :=
      [0x45, 0, 0, 20, 0, 0, 0x80, 0, 64, 6, 0xe6, 0xe1, 10, 0, 0, 1, 10, 0, 0, 2]
    let otherZero : Bytes :=
      [0x45, 0, 0, 20, 0, 0, 0, 0, 64, 6, 0xff, 0xff, 0, 0, 0, 0, 0, 0, 0x7a, 0xe5]
    (Valid options ∧ ¬ ∃ h, Minnow.parse (IPv4Header.parse {}) [options] = .ok (some h)) ∧
      (Valid reserved ∧ ¬ ∃ h, Minnow.parse (IPv4Header.parse {}) [reserved] = .ok (some h)) ∧
      (Valid otherZero ∧
        ¬ ∃ h, Minnow.parse (IPv4Header.parse {}) [otherZero] = .ok (some h)) := by
  intro options reserved otherZero
  have hrefused {b : Bytes} (hnone : Minnow.parse (IPv4Header.parse {}) [b] = .ok none) :
      ¬ ∃ h, Minnow.parse (IPv4Header.parse {}) [b] = .ok (some h) := by
    intro hsome
    obtain ⟨h, hsome⟩ := hsome
    rw [hnone] at hsome
    cases hsome
  refine ⟨⟨?_, hrefused (by decide +kernel)⟩, ⟨?_, hrefused (by decide +kernel)⟩,
    ⟨?_, hrefused (by decide +kernel)⟩⟩
  · exact ⟨by decide, by decide, by decide, by decide, (endAround_eq_iff _).mpr (by decide)⟩
  · exact ⟨by decide, by decide, by decide, by decide, (endAround_eq_iff _).mpr (by decide)⟩
  · exact ⟨by decide, by decide, by decide, by decide, (endAround_eq_iff _).mpr (by decide)⟩

end IPv4Header
end Minnow
