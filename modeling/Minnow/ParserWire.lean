import Minnow.ParserViews

/-!
Reading back what a Serializer has written. `Ahead n bytes` says that a Parser has
`bytes` left and no empty buffer in front of the first `n` of them; an integer that was
written there is read, and the rest is ahead.
-/

namespace Minnow
open UnsignedIntegral

/-- The numbers of the type are those below `256 ^ sizeof`. -/
class LawfulUnsignedIntegral (α : Type) [UnsignedIntegral α] : Prop where
  toNat_lt : ∀ a : α, toNat a < 256 ^ sizeof α
  ofNat_toNat : ∀ a : α, ofNat (toNat a) = a

instance : LawfulUnsignedIntegral UInt8 := ⟨UInt8.toNat_lt, fun _ => UInt8.ofNat_toNat⟩
instance : LawfulUnsignedIntegral UInt16 := ⟨UInt16.toNat_lt, fun _ => UInt16.ofNat_toNat⟩
instance : LawfulUnsignedIntegral UInt32 := ⟨UInt32.toNat_lt, fun _ => UInt32.ofNat_toNat⟩

variable {α : Type} [UnsignedIntegral α]

/-- The bytes of an integer on the wire. -/
def wire (val : α) : Bytes := BigEndian.encode (sizeof α) (toNat val)

@[simp] theorem length_wire (val : α) : (wire val).length = sizeof α := by
  simp [wire]

theorem wire_octet (n : UInt8) : wire n = [n] := by
  change BigEndian.encode 1 n.toNat = [n]
  rw [BigEndian.encode_succ, BigEndian.encode_zero, Nat.pow_zero, Nat.div_one, UInt8.ofNat_toNat]

/-- A byte written after `i` bytes is found there. -/
theorem getD_wire {before : Bytes} {i : Nat} (h : before.length = i) (n : UInt8)
    (more : Bytes) : (before ++ (wire n ++ more)).getD i 0 = n := by
  subst h
  rw [wire_octet]
  simp

/-- Every number below `256 ^ sizeof` is one of the type. -/
class FullUnsignedIntegral (α : Type) [UnsignedIntegral α] : Prop where
  toNat_ofNat : ∀ n, n < 256 ^ sizeof α → toNat (ofNat n : α) = n

instance : FullUnsignedIntegral UInt8 := ⟨fun _ => UInt8.toNat_ofNat_of_lt'⟩
instance : FullUnsignedIntegral UInt16 := ⟨fun _ => UInt16.toNat_ofNat_of_lt'⟩
instance : FullUnsignedIntegral UInt32 := ⟨fun _ => UInt32.toNat_ofNat_of_lt'⟩

/-- Enough bytes begin with those of an integer. -/
theorem exists_wire (α : Type) [UnsignedIntegral α] [FullUnsignedIntegral α] {bytes : Bytes}
    {n : Nat} (h : sizeof α + n ≤ bytes.length) :
    ∃ (val : α) (more : Bytes), bytes = wire val ++ more ∧ n ≤ more.length := by
  have hlen : (bytes.take (sizeof α)).length = sizeof α := List.length_take_of_le (by omega)
  have hlt := BigEndian.decode_lt (bytes.take (sizeof α))
  have hencode := (BigEndian.encode_decode 0 (bytes.take (sizeof α))).1
  rw [hlen] at hlt hencode
  refine ⟨ofNat (BigEndian.decode 0 (bytes.take (sizeof α))), bytes.drop (sizeof α), ?_, ?_⟩
  · rw [wire, FullUnsignedIntegral.toNat_ofNat _ hlt, hencode, List.take_append_drop]
  · rw [List.length_drop]
    omega

namespace Serializer

theorem integer_eq (s : Serializer) (val : α) :
    s.integer val = { s with buffer := s.buffer ++ wire val } := rfl

@[simp] theorem integer_output (s : Serializer) (val : α) :
    (s.integer val).output = s.output := rfl

@[simp] theorem integer_buffer (s : Serializer) (val : α) :
    (s.integer val).buffer = s.buffer ++ wire val := rfl

theorem appendBuffers_flatten (s : Serializer) (bufs : List Bytes) :
    (s.appendBuffers bufs).output.flatten ++ (s.appendBuffers bufs).buffer =
      s.output.flatten ++ s.buffer ++ bufs.flatten := by
  induction bufs generalizing s with
  | nil => simp [appendBuffers]
  | cons buf bufs ih =>
      have hrest := ih (s.appendBuffer buf)
      rw [appendBuffers, List.foldl_cons] at *
      rw [hrest]
      simp [appendBuffer, flush]

/-- What has been put out is in front of what is put out later. -/
theorem output_le_appendBuffers (s : Serializer) (bufs : List Bytes) :
    s.output <+: (s.appendBuffers bufs).output := by
  induction bufs generalizing s with
  | nil => exact List.prefix_rfl
  | cons buf bufs ih =>
      rw [appendBuffers, List.foldl_cons]
      refine List.IsPrefix.trans ?_ (ih (s.appendBuffer buf))
      simp only [appendBuffer, flush, List.append_assoc]
      exact List.prefix_append _ _

theorem takeOutput_flatten (s : Serializer) :
    s.takeOutput.flatten = s.output.flatten ++ s.buffer := by
  simp [takeOutput, flush]

/-- The first buffer put out is what the serializer held. -/
theorem takeOutput_appendBuffers (buffer : Bytes) (bufs : List Bytes) :
    ∃ more, ((({ buffer } : Serializer).appendBuffers bufs).takeOutput) = buffer :: more := by
  cases bufs with
  | nil => exact ⟨[], rfl⟩
  | cons buf bufs =>
      obtain ⟨more, hmore⟩ := output_le_appendBuffers
        (({ buffer } : Serializer).appendBuffer buf) bufs
      have hsplit : (({ buffer } : Serializer).appendBuffers (buf :: bufs)).output =
          buffer :: buf :: more := by
        rw [appendBuffers, List.foldl_cons, ← appendBuffers, ← hmore]
        rfl
      refine ⟨buf :: more ++
        [(({ buffer } : Serializer).appendBuffers (buf :: bufs)).buffer], ?_⟩
      rw [takeOutput, flush, hsplit]
      rfl

end Serializer

namespace Parser

/-- A Parser in front of `bytes`, of which the first `n` can be taken. -/
structure Ahead (p : Parser) (n : Nat) (bytes : Bytes) : Prop where
  sound : p.Sound
  error : p.error = false
  rest : p.rest = bytes
  filled : Views.Filled n p.views

theorem ahead_ofBuffers {input : List Bytes} {n : Nat} {bytes : Bytes}
    (hbytes : input.flatten = bytes) (hfilled : Views.Filled n input) :
    Ahead (ofBuffers input) n bytes :=
  ⟨sound_ofBuffers input, by rw [ofBuffers_eq], by rw [rest_ofBuffers, hbytes],
    by rwa [views_ofBuffers]⟩

/-- An integer is read back, whatever stands in `out` before. -/
theorem integer_ahead [LawfulUnsignedIntegral α] {p : Parser} {n : Nat} {val : α}
    {bytes : Bytes} (h : Ahead p (sizeof α + n) (wire val ++ bytes)) (out : α) :
    ∃ p', integer out p = .ok (val, p') ∧ Ahead p' n bytes := by
  obtain ⟨hfilled, hmore⟩ := Views.filled_add.mp h.filled
  cases integer_cases h.sound out with
  | inl hskipped =>
      obtain ⟨hbad, -⟩ := hskipped
      cases hbad with
      | inl herror =>
          rw [h.error] at herror
          cases herror
      | inr hshort =>
          rw [h.rest, List.length_append, length_wire] at hshort
          omega
  | inr hread =>
      obtain ⟨-, -, k, p', hok, hremoves, hvalue⟩ := hread
      have htake : p.rest.take (sizeof α) = wire val := by
        rw [h.rest, List.take_left' (length_wire val)]
      have hval : k = toNat val := by
        rw [hvalue hfilled, htake, wire,
          BigEndian.decode_encode_of_lt (LawfulUnsignedIntegral.toNat_lt val)]
      refine ⟨p', by rw [hok, hval, LawfulUnsignedIntegral.ofNat_toNat], hremoves.sound,
        hremoves.error.trans h.error, ?_, by rwa [hremoves.views]⟩
      rw [hremoves.rest, h.rest, List.drop_left' (length_wire val)]

/-- The same at the head of a sequence of reads. -/
theorem integer_bind_ahead [LawfulUnsignedIntegral α] {β : Type} {p : Parser} {n : Nat}
    {val : α} {bytes : Bytes} (h : Ahead p (sizeof α + n) (wire val ++ bytes)) (out : α)
    (f : α → ParserM β) :
    ∃ p', (integer out >>= f) p = f val p' ∧ Ahead p' n bytes := by
  obtain ⟨p', hok, hahead⟩ := integer_ahead h out
  exact ⟨p', ParserM.bind_of_ok hok, hahead⟩

/-- A Parser that has failed or has fewer than `n` bytes left. -/
structure Starved (p : Parser) (n : Nat) : Prop where
  sound : p.Sound
  short : p.error = true ∨ p.rest.length < n

/-- A read brings a starved Parser nearer to its failure. -/
theorem integer_starved {p : Parser} {n : Nat} (h : Starved p (sizeof α + n)) (out : α)
    {β : Type} (f : α → ParserM β) :
    ∃ val p', (integer out >>= f) p = f val p' ∧ Starved p' n := by
  cases integer_cases h.sound out with
  | inl hskipped =>
      obtain ⟨-, hok⟩ := hskipped
      exact ⟨out, _, ParserM.bind_of_ok hok, ⟨h.sound.size, h.sound.skip⟩, Or.inl rfl⟩
  | inr hread =>
      obtain ⟨herror, hlong, k, p', hok, hremoves, -⟩ := hread
      refine ⟨ofNat k, p', ParserM.bind_of_ok hok, hremoves.sound, ?_⟩
      cases h.short with
      | inl hfailed =>
          rw [herror] at hfailed
          cases hfailed
      | inr hshort =>
          rw [hremoves.rest, List.length_drop]
          exact Or.inr (by omega)

theorem Starved.error {p : Parser} (h : Starved p 0) : p.error = true :=
  h.short.resolve_right (Nat.not_lt_zero _)

theorem Ahead.removePrefix {p : Parser} {n : Nat} {bytes : Bytes} (h : Ahead p n bytes)
    (len : Nat) : Ahead (p.removePrefix len) (n - len) (bytes.drop len) := by
  have hremoves := removePrefix_removes h.sound len
  refine ⟨hremoves.sound, hremoves.error.trans h.error, by rw [hremoves.rest, h.rest], ?_⟩
  rw [hremoves.views]
  cases Nat.le_total len n with
  | inl hle =>
      have hfilled := h.filled
      rw [show n = len + (n - len) by omega, Views.filled_add] at hfilled
      exact hfilled.2
  | inr hle =>
      rw [Nat.sub_eq_zero_of_le hle]
      trivial

/-- All that remains is handed out as it is. -/
theorem Ahead.allRemaining {p : Parser} {n : Nat} {bytes : Bytes} (h : Ahead p n bytes) :
    ∃ out p', allRemaining p = .ok (out, p') ∧ p'.error = false ∧ out.flatten = bytes ∧
      Views.Filled n out := by
  obtain ⟨out, p', hok⟩ := allRemaining_ok p
  have hflatten := allRemaining_rest h.sound hok
  have herror := allRemaining_error hok
  refine ⟨out, p', hok, herror.trans h.error, hflatten.trans h.rest, ?_⟩
  cases Nat.eq_zero_or_pos n with
  | inl hzero =>
      subst hzero
      trivial
  | inr hpos =>
      have hle := h.filled.le_length
      have hsize : p.size ≠ 0 := by
        rw [h.sound.size, Parser.rest]
        omega
      rw [Parser.allRemaining, if_neg hsize] at hok
      have hviews : out = p.views := by
        rw [views]
        cases hbuffer : p.buffer with
        | nil =>
            simp only [hbuffer] at hok
            cases hok
            rfl
        | cons front more =>
            simp only [hbuffer] at hok
            cases hok
            by_cases hskip : p.skip = 0 <;> simp [hskip]
      rw [hviews]
      exact h.filled

/-- A list of integers is read back in its order. -/
theorem mapM_ahead [LawfulUnsignedIntegral α] {p : Parser} {n : Nat} (outs : List α)
    {vals : List α} (hlen : outs.length = vals.length) {bytes : Bytes}
    (h : Ahead p (sizeof α * vals.length + n) ((vals.map wire).flatten ++ bytes)) :
    ∃ p', outs.mapM integer p = .ok (vals, p') ∧ Ahead p' n bytes := by
  induction vals generalizing p outs with
  | nil =>
      obtain rfl := List.eq_nil_of_length_eq_zero hlen
      exact ⟨p, rfl, by simpa using h⟩
  | cons val vals ih =>
      obtain ⟨out, outs, rfl⟩ := List.exists_cons_of_length_eq_add_one hlen
      rw [List.map_cons, List.flatten_cons, List.append_assoc,
        show sizeof α * (val :: vals).length + n = sizeof α + (sizeof α * vals.length + n) by
          rw [List.length_cons, Nat.mul_succ]; omega] at h
      obtain ⟨q, hq, hrest⟩ := integer_ahead h out
      obtain ⟨p', hp', hmore⟩ := ih outs (by simpa using hlen) hrest
      refine ⟨p', ?_, hmore⟩
      rw [List.mapM_cons, ParserM.bind_of_ok hq, ParserM.bind_of_ok hp']
      rfl

end Parser
end Minnow
