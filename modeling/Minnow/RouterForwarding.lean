import Minnow.IPv4Wire
import Minnow.NetworkInterfaceRuns
import Minnow.RouterDrain

/-!
What the next hop reads. A forwarded datagram is sent without the options of its header
but with the header length that announces them, so the next parser takes as many bytes
from the front of the payload.
-/

namespace Minnow
namespace Router

/-- The datagram has come through: only its TTL and its checksum are new. -/
structure Preserved (d d' : InternetDatagram) : Prop where
  header : ∃ cksum, d'.header = { d.header with ttl := d.header.ttl - 1, cksum }
  payload : d'.payload.flatten = d.payload.flatten

/-- Of the frames that have come to be queued or to wait, those of type IPv4 carry the
payload. -/
def Carries (n n' : NetworkInterface) (payload : List Bytes) : Prop :=
  ∃ sent waiting, n'.readyToSend = n.readyToSend ++ sent ∧
    n'.unknownEthAddr = n.unknownEthAddr ++ waiting ∧
    ∀ ef ∈ sent ++ waiting.map Prod.snd, ef.header.type = EthernetHeader.TYPE_IPv4 →
      ef.payload = payload

theorem sendDatagram_carries {n n' : NetworkInterface} {dgram : InternetDatagram}
    {nextHop : Address} {payload : List Bytes} (hpayload : dgram.serialize = .ok payload)
    (hsend : n.sendDatagram dgram nextHop = .ok n') : Carries n n' payload := by
  rcases n.sendDatagram_cases dgram nextHop with ⟨-, hok⟩ | ⟨-, e, hbad⟩ |
    ⟨-, bytes, hbytes, address, -, hok⟩ | ⟨-, bytes, hbytes, -, request, -, hok⟩
  · rw [hsend, Except.ok.injEq] at hok
    exact ⟨[], [], by rw [hok, List.append_nil], by rw [hok, List.append_nil], by simp⟩
  · rw [hbad] at hsend
    cases hsend
  · rw [hsend, Except.ok.injEq] at hok
    rw [hpayload, Except.ok.injEq] at hbytes
    refine ⟨_, [], by rw [hok], by rw [hok, List.append_nil], fun ef hef _ => ?_⟩
    rw [List.map_nil, List.append_nil, List.mem_singleton] at hef
    rw [hef, hbytes]
    rfl
  · rw [hsend, Except.ok.injEq] at hok
    rw [hpayload, Except.ok.injEq] at hbytes
    refine ⟨_, _, by rw [hok], by rw [hok], fun ef hef htype => ?_⟩
    cases List.mem_append.mp hef with
    | inl hrequest =>
        rw [List.mem_singleton.mp hrequest] at htype
        exact absurd htype (by simp [NetworkInterface.frame, EthernetHeader.TYPE_ARP,
          EthernetHeader.TYPE_IPv4])
    | inr hwaiting =>
        rw [List.map_singleton, List.mem_singleton] at hwaiting
        rw [hwaiting, hbytes]
        rfl

/-- The forwarded header has its fields within their bits and the checksum over them. -/
theorem forward_fits {table : List Entry} {d : InternetDatagram} {call : SendCall}
    (hf : d.header.Fits) (hforward : forward table d = .ok (some call)) :
    call.dgram.payload = d.payload ∧
      call.dgram.header.Fits ∧ call.dgram.header.computeChecksum = .ok call.dgram.header ∧
      ∃ cksum, call.dgram.header = { d.header with ttl := d.header.ttl - 1, cksum } := by
  rw [forward] at hforward
  split at hforward
  · cases hforward
  · dsimp only at hforward
    split at hforward
    · cases hforward
    · split at hforward
      · cases hforward
      · next header hcksum =>
          cases hforward
          obtain ⟨hcomputed, cksum, rfl⟩ := IPv4Header.computeChecksum_computed hcksum
          exact ⟨rfl, ⟨hf.ver, hf.hlen, hf.offset⟩, hcomputed, cksum, rfl⟩

/-- What the next hop makes of the bytes of a forwarded datagram. -/
theorem next_hop_parse {table : List Entry} {d : InternetDatagram} {call : SendCall}
    (hf : d.header.Fits) (hforward : forward table d = .ok (some call)) {input : List Bytes}
    (hinput : input.flatten = call.dgram.header.bytes ++ d.payload.flatten)
    (hfilled : Views.Filled 20 input) :
    ∃ payload, parse (IPv4Datagram.parse {}) input =
        .ok (some { header := call.dgram.header, payload }) ∧
      payload.flatten = d.payload.flatten.drop (4 * (d.header.hlen.toNat - 5)) := by
  obtain ⟨hpayload, hfits, hcksum, cksum, hheader⟩ := forward_fits hf hforward
  rw [← hpayload] at hinput
  obtain ⟨payload, hparse, hrest, -⟩ :=
    IPv4Datagram.parse_wire hfits hcksum (n := 0) hinput hfilled {}
  refine ⟨payload, hparse, ?_⟩
  rw [hrest, hpayload, hheader]

theorem drop_eq_self_iff {α : Type} (n : Nat) (l : List α) : l.drop n = l ↔ n = 0 ∨ l = [] := by
  constructor
  · intro h
    have hlen := congrArg List.length h
    rw [List.length_drop] at hlen
    cases Nat.eq_zero_or_pos n with
    | inl hzero => exact Or.inl hzero
    | inr hpos => exact Or.inr (List.eq_nil_of_length_eq_zero (by omega))
  · rintro (rfl | rfl)
    · rfl
    · exact List.drop_nil

/-- Four bytes of options are not sent on, and the next hop takes four bytes of the payload
in their place. -/
theorem options_cost_payload :
    let input : List Bytes := [[0x46, 0, 0, 29, 0, 0, 0x40, 0, 64, 6, 0x2f, 0xdb, 0, 0, 0, 0,
      10, 0, 0, 1], [0, 0, 0, 0], [104, 101, 108, 108, 111]]
    ∃ d call payload d', parse (IPv4Datagram.parse {}) input = .ok (some d) ∧
      forward [⟨0, 0, some ⟨7⟩, 0⟩] d = .ok (some call) ∧
      call.dgram.serialize = .ok payload ∧
      parse (IPv4Datagram.parse {}) payload = .ok (some d') ∧ ¬ Preserved d d' := by
  refine ⟨_, _, _, _, rfl, rfl, rfl, rfl, fun h => ?_⟩
  exact absurd h.payload (by decide)

/-- A datagram comes through exactly when it has no options or no payload. -/
theorem preserved_iff {buffers : List Bytes} {d : InternetDatagram} {table : List Entry}
    {call : SendCall} (hparse : parse (IPv4Datagram.parse {}) buffers = .ok (some d))
    (hforward : forward table d = .ok (some call)) :
    ∃ payload, call.dgram.serialize = .ok payload ∧
      (∀ n n', n.sendDatagram call.dgram call.nextHop = .ok n' → Carries n n' payload) ∧
      Views.Filled 20 payload ∧
      ∀ input, input.flatten = payload.flatten → Views.Filled 20 input →
        ∃ d', parse (IPv4Datagram.parse {}) input = .ok (some d') ∧
          (Preserved d d' ↔ d.header.hlen = 5 ∨ d.payload.flatten = []) := by
  obtain ⟨hfits, -⟩ := IPv4Datagram.fits_of_parse hparse
  obtain ⟨hpayload, hfits', -, cksum, hheader⟩ := forward_fits hfits hforward
  obtain ⟨more, hserialize, hmore⟩ := IPv4Datagram.serialize_eq hfits'.ver
  refine ⟨_, hserialize, fun n n' => sendDatagram_carries hserialize,
    Views.filled_of_le_head more (by simp), fun input hinput hfilled => ?_⟩
  rw [List.flatten_cons, hmore, hpayload] at hinput
  obtain ⟨rest, hnext, hrest⟩ := next_hop_parse hfits hforward hinput hfilled
  refine ⟨_, hnext, ?_⟩
  have hlen : 4 * (d.header.hlen.toNat - 5) = 0 ↔ d.header.hlen = 5 := by
    have hge := hfits.hlen
    rw [← UInt8.toNat_inj, show (5 : UInt8).toNat = 5 from rfl]
    omega
  rw [← hlen, ← drop_eq_self_iff]
  exact ⟨fun h => hrest.symm.trans h.payload, fun h => ⟨⟨cksum, hheader⟩, hrest.trans h⟩⟩

/-- A datagram without options. -/
theorem preserved_plain :
    let input : List Bytes := [[0x45, 0, 0, 25, 0, 0, 0x40, 0, 64, 6, 0x30, 0xdf, 0, 0, 0, 0,
      10, 0, 0, 1], [104, 101, 108, 108, 111]]
    ∃ d call payload d', parse (IPv4Datagram.parse {}) input = .ok (some d) ∧
      forward [⟨0, 0, some ⟨7⟩, 0⟩] d = .ok (some call) ∧
      call.dgram.serialize = .ok payload ∧
      parse (IPv4Datagram.parse {}) payload = .ok (some d') ∧ Preserved d d' := by
  obtain ⟨payload, hserialize, -, hfilled, hnext⟩ := @preserved_iff
    [[0x45, 0, 0, 25, 0, 0, 0x40, 0, 64, 6, 0x30, 0xdf, 0, 0, 0, 0, 10, 0, 0, 1],
      [104, 101, 108, 108, 111]]
    { header := { len := 25, ttl := 64, cksum := 0x30df, dst := 0x0a000001 }
      payload := [[104, 101, 108, 108, 111]] } [⟨0, 0, some ⟨7⟩, 0⟩] _ rfl rfl
  obtain ⟨d', hparse, hiff⟩ := hnext payload rfl hfilled
  exact ⟨_, _, payload, d', rfl, rfl, hserialize, hparse, hiff.mpr (Or.inl rfl)⟩

end Router
end Minnow
