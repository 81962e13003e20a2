import Mathlib.Algebra.Ring.Nat
import Mathlib.Tactic.Common
import Mathlib.Tactic.Ring

/-!
Naturals as bytes of a fixed width, the most significant one first.
-/

namespace BigEndian

/-- The lowest `width` bytes of `n`. -/
def encode (width n : Nat) : List UInt8 :=
  (List.range width).map fun i => UInt8.ofNat (n >>> ((width - i - 1) * 8))

/-- The number whose bytes follow those of `out`. -/
def decode (out : Nat) (bytes : List UInt8) : Nat :=
  bytes.foldl (fun n b => n <<< 8 ||| b.toNat) out

@[simp] theorem encode_zero (n : Nat) : encode 0 n = [] := rfl

theorem encode_succ (width n : Nat) :
    encode (width + 1) n = UInt8.ofNat (n / 256 ^ width) :: encode width n := by
  rw [encode, List.range_succ_eq_map, List.map_cons, List.map_map, encode]
  congr 1
  · rw [Nat.shiftRight_eq_div_pow, show width + 1 - 0 - 1 = width by omega, Nat.mul_comm width 8,
      Nat.pow_mul]
  · apply List.map_congr_left
    intro i _
    simp only [Function.comp_apply]
    rw [show width + 1 - (i + 1) - 1 = width - i - 1 by omega]

@[simp] theorem length_encode (width n : Nat) : (encode width n).length = width := by
  simp [encode]

@[simp] theorem decode_nil (out : Nat) : decode out [] = out := rfl

theorem decode_cons (out : Nat) (b : UInt8) (bytes : List UInt8) :
    decode out (b :: bytes) = decode (out * 256 + b.toNat) bytes := by
  have hb : b.toNat < 2 ^ 8 := b.toNat_lt
  rw [decode, List.foldl_cons, ← Nat.shiftLeft_add_eq_or_of_lt hb, Nat.shiftLeft_eq]
  rfl

theorem decode_encode (out width n : Nat) :
    decode out (encode width n) = out * 256 ^ width + n % 256 ^ width := by
  induction width generalizing out with
  | zero => simp [Nat.mod_one]
  | succ width ih =>
      rw [encode_succ, decode_cons, ih, UInt8.toNat_ofNat', Nat.pow_succ (256), Nat.mod_mul]
      ring

theorem decode_encode_of_lt {width n : Nat} (h : n < 256 ^ width) :
    decode 0 (encode width n) = n := by
  rw [decode_encode, Nat.mod_eq_of_lt h, Nat.zero_mul, Nat.zero_add]

/-- The bytes of a number are the last ones that were decoded into it. -/
theorem encode_decode (out : Nat) (bytes : List UInt8) :
    encode bytes.length (decode out bytes) = bytes ∧
      decode out bytes / 256 ^ bytes.length = out := by
  induction bytes generalizing out with
  | nil => simp
  | cons b bytes ih =>
      have hb := b.toNat_lt
      obtain ⟨hencode, hdiv⟩ := ih (out * 256 + b.toNat)
      rw [decode_cons, List.length_cons, encode_succ, hencode, hdiv, Nat.pow_succ,
        ← Nat.div_div_eq_div_mul, hdiv]
      refine ⟨?_, by omega⟩
      congr 1
      apply UInt8.toNat_inj.mp
      rw [UInt8.toNat_ofNat']
      omega

theorem decode_lt (bytes : List UInt8) : decode 0 bytes < 256 ^ bytes.length :=
  Nat.lt_of_div_eq_zero (Nat.pow_pos (by omega)) (encode_decode 0 bytes).2

end BigEndian
