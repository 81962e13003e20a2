import Mathlib.Algebra.Ring.Nat
import Mathlib.Data.List.Basic
import Mathlib.Tactic.Common

/-!
Sums of 16-bit words with end-around carry. Bytes are weighed by their place: the first of
each pair is the high byte of a word.
-/

namespace OnesComplement

/-- The sum of the words, begun in the middle of one if `odd`. -/
def weigh : Bool → List UInt8 → Nat
  | _, [] => 0
  | odd, b :: bytes => (if odd then b.toNat else b.toNat * 2 ^ 8) + weigh (!odd) bytes

@[simp] theorem weigh_nil (odd : Bool) : weigh odd [] = 0 := rfl

theorem weigh_append (odd : Bool) (a b : List UInt8) :
    weigh odd (a ++ b) = weigh odd a + weigh (odd ^^ decide (a.length % 2 = 1)) b := by
  induction a generalizing odd with
  | nil => simp
  | cons x a ih =>
      have hflip : (!odd ^^ decide (a.length % 2 = 1)) =
          (odd ^^ decide ((x :: a).length % 2 = 1)) := by
        rw [List.length_cons]
        cases Nat.mod_two_eq_zero_or_one a.length with
        | inl h =>
            rw [h, show (a.length + 1) % 2 = 1 by omega]
            cases odd <;> rfl
        | inr h =>
            rw [h, show (a.length + 1) % 2 = 0 by omega]
            cases odd <;> rfl
      rw [List.cons_append, weigh, ih, weigh, hflip, Nat.add_assoc]

/-- Whole words add up. -/
theorem weigh_append_words {odd : Bool} {a : List UInt8} (h : a.length % 2 = 0)
    (b : List UInt8) : weigh odd (a ++ b) = weigh odd a + weigh odd b := by
  rw [weigh_append, h]
  simp

theorem weigh_le (odd : Bool) (bytes : List UInt8) :
    weigh odd bytes ≤ 255 * 2 ^ 8 * bytes.length := by
  induction bytes generalizing odd with
  | nil => simp
  | cons b bytes ih =>
      have hrest := ih (!odd)
      have hb := b.toNat_lt
      rw [weigh, List.length_cons]
      split <;> omega

/-- One turn of the carry around the end. -/
def carry (n : Nat) : Nat := n / 2 ^ 16 + n % 2 ^ 16

theorem carry_mod (n : Nat) : carry n % 65535 = n % 65535 := by
  rw [carry]
  omega

theorem carry_pos {n : Nat} (h : 0 < n) : 0 < carry n := by
  rw [carry]
  omega

theorem carry_lt {n : Nat} (h : 2 ^ 16 ≤ n) : carry n < n := by
  rw [carry]
  omega

/-- The ones' complement sum: what is left when no more carry comes out. -/
def endAround (n : Nat) : Nat := if 2 ^ 16 ≤ n then endAround (carry n) else n
termination_by n
decreasing_by exact carry_lt ‹_›

/-- The sum is the remainder modulo 65535, with all bits set for zero unless nothing was
added. -/
theorem endAround_eq (n : Nat) : endAround n = if n = 0 then 0 else (n - 1) % 65535 + 1 := by
  induction n using endAround.induct with
  | case1 n hbig ih =>
      have hpos : 0 < carry n := carry_pos (by omega)
      have hmod := carry_mod n
      rw [endAround, if_pos hbig, ih, if_neg (by omega), if_neg (by omega)]
      omega
  | case2 n hsmall =>
      rw [endAround, if_neg hsmall]
      split <;> omega

theorem endAround_le (n : Nat) : endAround n ≤ 0xffff := by
  rw [endAround_eq]
  split <;> omega

/-- The sum has all its bits set exactly if it is a positive multiple of 65535. -/
theorem endAround_eq_iff (n : Nat) : endAround n = 0xffff ↔ 0 < n ∧ n % 65535 = 0 := by
  rw [endAround_eq]
  split <;> omega

/-- Carries may come around early. -/
theorem endAround_add (m n : Nat) : endAround (m + endAround n) = endAround (m + n) := by
  rw [endAround_eq n]
  split
  · next hzero => rw [hzero]
  · next hpos =>
      rw [endAround_eq, endAround_eq, if_neg (by omega), if_neg (by omega)]
      omega

/-- The words of the bytes, the high byte first; a last single byte is padded with zero. -/
def words : List UInt8 → List Nat
  | [] => []
  | [b] => [b.toNat * 2 ^ 8]
  | a :: b :: bytes => (a.toNat * 2 ^ 8 + b.toNat) :: words bytes

theorem weigh_eq_sum (bytes : List UInt8) : weigh false bytes = (words bytes).sum := by
  induction bytes using words.induct with
  | case1 => rfl
  | case2 b => rfl
  | case3 a b bytes ih =>
      rw [words, List.sum_cons, ← ih, Nat.add_assoc]
      rfl

/-- Addition of words, with the carry brought around. -/
def plus (a b : Nat) : Nat := endAround (a + b)

/-- All words added up, one by one. -/
def total (ws : List Nat) : Nat := ws.foldr plus 0

theorem total_eq (ws : List Nat) : total ws = endAround ws.sum := by
  induction ws with
  | nil =>
      rw [endAround_eq]
      rfl
  | cons w ws ih =>
      change plus w (total ws) = _
      rw [ih, plus, endAround_add, List.sum_cons]

end OnesComplement
