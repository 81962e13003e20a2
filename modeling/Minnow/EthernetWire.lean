import Minnow.Ethernet
import Minnow.ParserWire

/-!
The Ethernet frame on the wire, fourteen bytes of header and the payload, and the ARP
message, twenty-eight bytes.
-/

namespace Minnow

theorem Serializer.foldl_integer {α : Type} [UnsignedIntegral α] (s : Serializer)
    (vals : List α) :
    vals.foldl Serializer.integer s =
      { s with buffer := s.buffer ++ (vals.map wire).flatten } := by
  induction vals generalizing s with
  | nil => simp
  | cons val vals ih =>
      rw [List.foldl_cons, ih]
      simp

/-- The bytes of an Ethernet address. -/
def addressBytes (address : EthernetAddress) : Bytes := (address.toList.map wire).flatten

@[simp] theorem length_addressBytes (address : EthernetAddress) :
    (addressBytes address).length = 6 := by
  have hsizes : (address.toList.map wire).map List.length = List.replicate 6 1 := by
    rw [List.map_map, List.eq_replicate_iff]
    refine ⟨by simp, fun n hn => ?_⟩
    obtain ⟨b, -, rfl⟩ := List.mem_map.mp hn
    exact length_wire b
  rw [addressBytes, List.length_flatten, hsizes]
  rfl

/-- An address is read back byte by byte. -/
theorem address_ahead {p : Parser} {n : Nat} {address : EthernetAddress} {more : Bytes}
    (hp : p.Ahead (6 + n) (addressBytes address ++ more)) (out : EthernetAddress) :
    ∃ p', out.mapM Parser.integer p = .ok (address, p') ∧ p'.Ahead n more := by
  have hlen : out.toList.length = address.toList.length := by simp
  have hsize : UnsignedIntegral.sizeof UInt8 * address.toList.length + n = 6 + n := by
    rw [Vector.length_toList]
    rfl
  obtain ⟨p', hok, hp'⟩ := Parser.mapM_ahead out.toList hlen (hsize.symm ▸ hp)
  obtain ⟨w, hw, hsame⟩ := Parser.mapM_vector_eq_ok.mp hok
  rw [Vector.toList_inj] at hsame
  exact ⟨p', by rw [hw, hsame], hp'⟩

namespace EthernetHeader

def bytes (h : EthernetHeader) : Bytes :=
  addressBytes h.dst ++ (addressBytes h.src ++ wire h.type)

@[simp] theorem length_bytes (h : EthernetHeader) : h.bytes.length = 14 := by
  simp only [bytes, List.length_append, length_addressBytes, length_wire]
  rfl

theorem serialize_eq (h : EthernetHeader) (s : Serializer) :
    h.serialize s = { s with buffer := s.buffer ++ h.bytes } := by
  simp only [serialize, Serializer.foldl_integer, Serializer.integer_eq, List.append_assoc]
  rfl

theorem parse_ahead {h : EthernetHeader} {p : Parser} {n : Nat} {more : Bytes}
    (hp : p.Ahead (14 + n) (h.bytes ++ more)) (h₀ : EthernetHeader) :
    ∃ p', h₀.parse p = .ok (h, p') ∧ p'.Ahead n more := by
  simp only [bytes, List.append_assoc] at hp
  rw [show 14 + n = 6 + (6 + (2 + n)) by omega] at hp
  obtain ⟨p₁, hdst, hp⟩ := address_ahead hp h₀.dst
  obtain ⟨p₂, hsrc, hp⟩ := address_ahead hp h₀.src
  obtain ⟨p₃, htype, hp⟩ := Parser.integer_ahead hp h₀.type
  refine ⟨p₃, ?_, hp⟩
  rw [parse, ParserM.bind_of_ok hdst, ParserM.bind_of_ok hsrc, ParserM.bind_of_ok htype]
  rfl

end EthernetHeader

namespace EthernetFrame

theorem serialize_flatten (frame : EthernetFrame) :
    frame.serialize.flatten = frame.header.bytes ++ frame.payload.flatten := by
  rw [serialize, Serializer.takeOutput_flatten, Serializer.appendBuffers_flatten,
    EthernetHeader.serialize_eq]
  simp

/-- A frame is read back from its bytes. -/
theorem parse_wire {frame : EthernetFrame} {input : List Bytes} {n : Nat}
    (hinput : input.flatten = frame.header.bytes ++ frame.payload.flatten)
    (hfilled : Views.Filled (14 + n) input) (frame₀ : EthernetFrame) :
    ∃ payload, Minnow.parse frame₀.parse input = .ok (some { header := frame.header, payload }) ∧
      payload.flatten = frame.payload.flatten ∧ Views.Filled n payload := by
  obtain ⟨p, hheader, hp⟩ :=
    EthernetHeader.parse_ahead (Parser.ahead_ofBuffers hinput hfilled) frame₀.header
  obtain ⟨payload, p', hpayload, herror, hflatten, hviews⟩ := hp.allRemaining
  refine ⟨payload, parse_eq_some.mpr ⟨p', ?_, herror⟩, hflatten, hviews⟩
  rw [parse, ParserM.bind_of_ok hheader, ParserM.bind_of_ok hpayload]
  rfl

end EthernetFrame

namespace ARPMessage

def bytes (m : ARPMessage) : Bytes :=
  wire m.hardwareType ++ (wire m.protocolType ++ (wire m.hardwareAddressSize ++
    (wire m.protocolAddressSize ++ (wire m.opcode ++
      (addressBytes m.senderEthernetAddress ++ (wire m.senderIpAddress ++
        (addressBytes m.targetEthernetAddress ++ wire m.targetIpAddress)))))))

theorem serialize_eq {m : ARPMessage} (h : m.supported = true) :
    m.serialize = .ok [m.bytes] := by
  simp only [serialize, h, Bool.not_true, Bool.false_eq_true, if_false,
    Serializer.foldl_integer, Serializer.integer_eq, Serializer.takeOutput, Serializer.flush,
    List.append_assoc, List.nil_append]
  rfl

theorem parse_ahead {m : ARPMessage} (h : m.supported = true) {p : Parser} {n : Nat}
    {more : Bytes} (hp : p.Ahead (28 + n) (m.bytes ++ more)) (m₀ : ARPMessage) :
    ∃ p', m₀.parse p = .ok (m, p') ∧ p'.Ahead n more := by
  simp only [bytes, List.append_assoc] at hp
  rw [show 28 + n = 2 + (2 + (1 + (1 + (2 + (6 + (4 + (6 + (4 + n)))))))) by omega] at hp
  obtain ⟨p₁, h₁, hp⟩ := Parser.integer_ahead hp m₀.hardwareType
  obtain ⟨p₂, h₂, hp⟩ := Parser.integer_ahead hp m₀.protocolType
  obtain ⟨p₃, h₃, hp⟩ := Parser.integer_ahead hp m₀.hardwareAddressSize
  obtain ⟨p₄, h₄, hp⟩ := Parser.integer_ahead hp m₀.protocolAddressSize
  obtain ⟨p₅, h₅, hp⟩ := Parser.integer_ahead hp m₀.opcode
  obtain ⟨p₆, h₆, hp⟩ := address_ahead hp m₀.senderEthernetAddress
  obtain ⟨p₇, h₇, hp⟩ := Parser.integer_ahead hp m₀.senderIpAddress
  obtain ⟨p₈, h₈, hp⟩ := address_ahead hp m₀.targetEthernetAddress
  obtain ⟨p₉, h₉, hp⟩ := Parser.integer_ahead hp m₀.targetIpAddress
  -- the first five fields decide whether the message is supported
  have hsupported : ({ m₀ with
      hardwareType := m.hardwareType
      protocolType := m.protocolType
      hardwareAddressSize := m.hardwareAddressSize
      protocolAddressSize := m.protocolAddressSize
      opcode := m.opcode } : ARPMessage).supported = true := h
  refine ⟨p₉, ?_, hp⟩
  rw [parse, ParserM.bind_of_ok h₁, ParserM.bind_of_ok h₂, ParserM.bind_of_ok h₃,
    ParserM.bind_of_ok h₄, ParserM.bind_of_ok h₅]
  simp only [hsupported, Bool.not_true, Bool.false_eq_true, if_false]
  rw [ParserM.bind_of_ok h₆, ParserM.bind_of_ok h₇, ParserM.bind_of_ok h₈,
    ParserM.bind_of_ok h₉]
  rfl

/-- A supported message is read back from its bytes. -/
theorem parse_wire {m : ARPMessage} (h : m.supported = true) (m₀ : ARPMessage) :
    Minnow.parse m₀.parse [m.bytes] = .ok (some m) := by
  have hlen : m.bytes.length = 28 := by
    simp only [bytes, List.length_append, length_addressBytes, length_wire]
    rfl
  have hfilled : Views.Filled (28 + 0) [m.bytes] :=
    Views.filled_of_nonempty (by simp [← List.length_pos_iff, hlen]) (by simp [hlen])
  have hflat : [m.bytes].flatten = m.bytes ++ [] := by simp
  obtain ⟨p, hok, hp⟩ := parse_ahead h (Parser.ahead_ofBuffers hflat hfilled) m₀
  exact parse_eq_some.mpr ⟨p, hok, hp.error⟩

end ARPMessage
end Minnow
