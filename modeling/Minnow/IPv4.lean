import Minnow.OnesComplement
import Minnow.Parser
import Mathlib.Tactic.Common

/-!
The internet checksum, the IPv4 header and the IPv4 datagram, parsed and serialized
field by field.
-/

namespace Minnow

structure InternetChecksum where
  sum : UInt32 := 0
  parity : Bool := false
  deriving Repr, DecidableEq

namespace InternetChecksum

def addByte (c : InternetChecksum) (i : UInt8) : InternetChecksum :=
  let val : UInt16 := i.toUInt16
  let val := if c.parity then val else val <<< 8
  { sum := c.sum + val.toUInt32, parity := !c.parity }

def add (c : InternetChecksum) (data : Bytes) : InternetChecksum := data.foldl addByte c

def addBuffers (c : InternetChecksum) (data : List Bytes) : InternetChecksum :=
  data.foldl add c

/-- The loop of `value`. -/
def fold : Nat → UInt32 → UInt32
  | 0, ret => ret
  | turns + 1, ret => if 0xffff < ret then fold turns ((ret >>> 16) + (ret &&& 0xffff)) else ret

/-- Two turns fold any 32-bit sum into 16 bits. -/
def value (c : InternetChecksum) : UInt16 := ~~~ (fold 2 c.sum).toUInt16

theorem fold_turn (ret : UInt32) :
    ((ret >>> 16) + (ret &&& 0xffff)).toNat = OnesComplement.carry ret.toNat := by
  have hret := ret.toNat_lt
  have hmask : ret.toNat &&& 0xffff = ret.toNat % 2 ^ 16 := Nat.and_two_pow_sub_one_eq_mod _ 16
  rw [UInt32.toNat_add, UInt32.toNat_shiftRight, UInt32.toNat_and]
  simp only [UInt32.reduceToNat, Nat.reduceMod, Nat.shiftRight_eq_div_pow, hmask,
    OnesComplement.carry]
  omega

theorem fold_settles (ret : UInt32) : fold 2 ret ≤ 0xffff := by
  have hret := ret.toNat_lt
  simp only [fold]
  split
  · next hbig =>
      split
      · rw [UInt32.le_iff_toNat_le, fold_turn, fold_turn]
        simp only [UInt32.reduceToNat, OnesComplement.carry]
        omega
      · next hsmall => exact UInt32.not_lt.mp hsmall
  · next hsmall => exact UInt32.not_lt.mp hsmall

end InternetChecksum

structure IPv4Header where
  ver : UInt8 := 4
  hlen : UInt8 := 5
  tos : UInt8 := 0
  len : UInt16 := 0
  id : UInt16 := 0
  df : Bool := true
  mf : Bool := false
  offset : UInt16 := 0
  ttl : UInt8 := 128
  proto : UInt8 := 6
  cksum : UInt16 := 0
  src : UInt32 := 0
  dst : UInt32 := 0
  deriving Repr, DecidableEq

namespace IPv4Header

def LENGTH : Nat := 20

def PROTO_TCP : UInt8 := 6

def serialize (h : IPv4Header) (serializer : Serializer) : Except String Serializer :=
  if h.ver ≠ 4 then .error "wrong IP version"
  else
    let firstByte : UInt8 := ((h.ver.toUInt32 <<< 4) ||| (h.hlen.toUInt32 &&& 0xf)).toUInt8
    let foVal : UInt16 := ((if h.df then (0x4000 : UInt32) else 0) |||
      (if h.mf then 0x2000 else 0) ||| (h.offset.toUInt32 &&& 0x1fff)).toUInt16
    .ok ((((((((((serializer.integer firstByte).integer h.tos).integer h.len).integer
      h.id).integer foVal).integer h.ttl).integer h.proto).integer h.cksum).integer
      h.src).integer h.dst)

def payloadLength (h : IPv4Header) : UInt16 := h.len - 4 * h.hlen.toUInt16

/-- What the addresses, the protocol and the length contribute to a TCP checksum. -/
def pseudoChecksum (h : IPv4Header) : UInt32 :=
  (h.src >>> 16) + h.src.toUInt16.toUInt32 + ((h.dst >>> 16) + h.dst.toUInt16.toUInt32) +
    h.proto.toUInt32 + h.payloadLength.toUInt32

/-- The checksum over the header as it would be serialized. -/
def computeChecksum (h : IPv4Header) : Except String IPv4Header :=
  let h := { h with cksum := 0 }
  match h.serialize {} with
  | .error e => .error e
  | .ok s => .ok { h with cksum := (({} : InternetChecksum).addBuffers s.takeOutput).value }

/-- The fields of the header in their order. -/
def readFields (h : IPv4Header) : ParserM IPv4Header := do
  let firstByte ← Parser.integer (0 : UInt8)
  let tos ← Parser.integer h.tos
  let len ← Parser.integer h.len
  let id ← Parser.integer h.id
  let foVal ← Parser.integer (0 : UInt16)
  let ttl ← Parser.integer h.ttl
  let proto ← Parser.integer h.proto
  let cksum ← Parser.integer h.cksum
  let src ← Parser.integer h.src
  let dst ← Parser.integer h.dst
  return {
    ver := firstByte >>> 4, hlen := firstByte &&& 0x0f, tos, len, id
    df := foVal &&& 0x4000 != 0, mf := foVal &&& 0x2000 != 0, offset := foVal &&& 0x1fff
    ttl, proto, cksum, src, dst }

def parse (h : IPv4Header) : ParserM IPv4Header := do
  let h ← h.readFields
  Parser.setErrorIf (h.ver != 4)
  Parser.setErrorIf (h.hlen < 5)
  if ← Parser.hasError then return h
  modify fun p => p.removePrefix (h.hlen.toNat * 4 - LENGTH)
  let computed ← h.computeChecksum
  Parser.setErrorIf (computed.cksum != h.cksum)
  return computed

theorem serialize_ok {h : IPv4Header} (hver : h.ver = 4) (serializer : Serializer) :
    ∃ s, h.serialize serializer = .ok s :=
  ⟨_, if_neg (by simp [hver])⟩

theorem computeChecksum_ok {h : IPv4Header} (hver : h.ver = 4) :
    ∃ cksum, h.computeChecksum = .ok { h with cksum } := by
  obtain ⟨s, hs⟩ := serialize_ok (h := { h with cksum := 0 }) hver {}
  exact ⟨_, by simp only [computeChecksum, hs]; rfl⟩

/-- What the parser makes of the fields: it gives up on a wrong version or header length,
and otherwise skips the options and compares the checksum. -/
theorem parse_cases {h₀ h : IPv4Header} {p p₁ : Parser}
    (hread : h₀.readFields p = .ok (h, p₁)) :
    (p₁.error = true ∨ h.ver ≠ 4 ∨ h.hlen.toNat < 5) ∧
      h₀.parse p = .ok (h, { p₁ with error := true }) ∨
    (p₁.error = false ∧ h.ver = 4 ∧ 5 ≤ h.hlen.toNat) ∧ ∃ cksum,
      h.computeChecksum = .ok { h with cksum } ∧
      h₀.parse p = .ok ({ h with cksum },
        { p₁.removePrefix (h.hlen.toNat * 4 - LENGTH) with
          error := (p₁.removePrefix (h.hlen.toNat * 4 - LENGTH)).error ||
            cksum != h.cksum }) := by
  have hparse : h₀.parse p = (do
      if ← Parser.hasError then return h
      modify fun p => p.removePrefix (h.hlen.toNat * 4 - LENGTH)
      let computed ← h.computeChecksum
      Parser.setErrorIf (computed.cksum != h.cksum)
      return computed : ParserM IPv4Header)
        { p₁ with error := p₁.error || h.ver != 4 || decide (h.hlen < 5) } := by
    rw [parse, ParserM.bind_of_ok hread]
    rfl
  cases herror : (p₁.error || h.ver != 4 || decide (h.hlen < 5)) with
  | true =>
      left
      refine ⟨?_, by rw [hparse, herror]; rfl⟩
      simpa [or_assoc, UInt8.lt_iff_toNat_lt] using herror
  | false =>
      right
      rw [herror] at hparse
      simp only [Bool.or_eq_false_iff, bne_eq_false_iff_eq, decide_eq_false_iff_not] at herror
      obtain ⟨⟨hp₁, hver⟩, hlen⟩ := herror
      obtain ⟨cksum, hcksum⟩ := computeChecksum_ok hver
      refine ⟨⟨hp₁, hver, UInt8.not_lt.mp hlen⟩, cksum, hcksum, ?_⟩
      have hsame : { p₁ with error := false } = p₁ := by rw [← hp₁]
      have hcomputed (q : Parser) :
          (liftM h.computeChecksum : ParserM IPv4Header) q = .ok ({ h with cksum }, q) := by
        rw [hcksum]
        rfl
      have herror : Parser.hasError p₁ = .ok (false, p₁) := by rw [← hp₁]; rfl
      rw [hparse, hsame, ParserM.bind_of_ok herror, if_neg Bool.false_ne_true]
      change (liftM h.computeChecksum >>= fun computed => do
        Parser.setErrorIf (computed.cksum != h.cksum)
        return computed : ParserM IPv4Header)
          (p₁.removePrefix (h.hlen.toNat * 4 - LENGTH)) = _
      rw [ParserM.bind_of_ok (hcomputed _)]
      rfl

/-- A header parsed without error has version 4. -/
theorem parse_ver {h h' : IPv4Header} {p p' : Parser} (hparse : h.parse p = .ok (h', p'))
    (hok : p'.error = false) : h'.ver = 4 := by
  obtain ⟨fields, p₁, hread, -⟩ := ParserM.bind_ok hparse
  cases parse_cases hread with
  | inl hrefused =>
      obtain ⟨-, hbad⟩ := hrefused
      rw [hbad] at hparse
      cases hparse
      cases hok
  | inr hparsed =>
      obtain ⟨⟨-, hver, -⟩, cksum, -, hgood⟩ := hparsed
      rw [hgood] at hparse
      cases hparse
      exact hver

end IPv4Header

structure IPv4Datagram where
  header : IPv4Header := {}
  payload : List Bytes := []
  deriving Repr, DecidableEq

abbrev InternetDatagram := IPv4Datagram

namespace IPv4Datagram

def parse (d : IPv4Datagram) : ParserM IPv4Datagram := do
  let header ← d.header.parse
  let payload ← Parser.allRemaining
  return { header, payload }

def serialize (d : IPv4Datagram) : Except String (List Bytes) :=
  match d.header.serialize {} with
  | .error e => .error e
  | .ok serializer => .ok (serializer.appendBuffers d.payload).takeOutput

theorem serialize_ok {d : IPv4Datagram} (hver : d.header.ver = 4) :
    ∃ payload, d.serialize = .ok payload := by
  obtain ⟨s, hs⟩ := IPv4Header.serialize_ok hver {}
  exact ⟨_, by simp only [serialize, hs]; rfl⟩

/-- An accepted datagram has version 4. -/
theorem parse_ver {d d' : IPv4Datagram} {buffers : List Bytes}
    (hparse : Minnow.parse d.parse buffers = .ok (some d')) : d'.header.ver = 4 := by
  obtain ⟨p, hrun, herror⟩ := parse_eq_some.mp hparse
  obtain ⟨header, p₁, hheader, hrest⟩ := ParserM.bind_ok hrun
  obtain ⟨payload, p₂, hpayload, ⟨rfl⟩⟩ := ParserM.bind_ok hrest
  rw [Parser.allRemaining_error hpayload] at herror
  exact IPv4Header.parse_ver hheader herror

end IPv4Datagram
end Minnow
