import Mathlib.Algebra.Ring.Nat
import Mathlib.Data.Nat.Dist
import Mathlib.Tactic.Common

/-!
32-bit sequence numbers relative to a zero point, and the 64-bit absolute numbers
they stand for. Absolute numbers are naturals; `u64` marks the places where the
source forms a 64-bit sum that its operands do not keep below 2^64.
-/

namespace Minnow

/-- The value a `uint64_t` holds after an addition. -/
def u64 (n : Nat) : Nat := n % 2 ^ 64

theorem u64_le (n : Nat) : u64 n ≤ n := Nat.mod_le _ _

theorem u64_lt (n : Nat) : u64 n < 2 ^ 64 := Nat.mod_lt n (by decide)

theorem u64_of_lt {n : Nat} (h : n < 2 ^ 64) : u64 n = n := Nat.mod_eq_of_lt h

structure Wrap32 where
  rawValue : UInt32
  deriving Repr, DecidableEq

namespace Wrap32

instance : HAdd Wrap32 UInt32 Wrap32 := ⟨fun w n => ⟨w.rawValue + n⟩⟩

def wrap (n : Nat) (zeroPoint : Wrap32) : Wrap32 := zeroPoint + UInt32.ofNat n

def unwrap (w zeroPoint : Wrap32) (checkpoint : Nat) : Nat :=
  let ckpt32 := wrap checkpoint zeroPoint
  let offset := (w.rawValue - ckpt32.rawValue).toNat
  if offset ≤ 2 ^ 31 ∨ u64 (checkpoint + offset) < 2 ^ 32 then u64 (checkpoint + offset)
  else u64 (checkpoint + offset) - 2 ^ 32

theorem wrap_toNat (n : Nat) (z : Wrap32) :
    (wrap n z).rawValue.toNat = (z.rawValue.toNat + n) % 2 ^ 32 := by
  change (z.rawValue + UInt32.ofNat n).toNat = _
  simp [UInt32.toNat_add]

theorem wrap_succ (n : Nat) (z : Wrap32) : wrap n z + (1 : UInt32) = wrap (n + 1) z := by
  have h : (wrap n z).rawValue + 1 = (wrap (n + 1) z).rawValue := by
    apply UInt32.toNat_inj.mp
    rw [UInt32.toNat_add, wrap_toNat, wrap_toNat, UInt32.toNat_one]
    omega
  exact congrArg mk h

theorem wrap_u64 (n : Nat) (z : Wrap32) : wrap (u64 n) z = wrap n z := by
  have h : (wrap (u64 n) z).rawValue = (wrap n z).rawValue := by
    apply UInt32.toNat_inj.mp
    rw [wrap_toNat, wrap_toNat, u64]
    omega
  exact congrArg Wrap32.mk h

/-- Unwrapping undoes wrapping for every number within 2^31 of the checkpoint. -/
theorem unwrap_wrap {n c : Nat} (z : Wrap32) (hc : c + 2 ^ 32 ≤ 2 ^ 64)
    (above : n < c + 2 ^ 31) (below : c < n + 2 ^ 31) :
    (wrap n z).unwrap z c = n := by
  have hz := z.rawValue.toNat_lt
  have hoff : ((wrap n z).rawValue - (wrap c z).rawValue).toNat =
      (n + 2 ^ 32 - c) % 2 ^ 32 := by
    rw [UInt32.toNat_sub, wrap_toNat, wrap_toNat]
    omega
  simp only [unwrap, hoff, u64]
  cases Nat.le_total c n with
  | inl hle =>
      have : (n + 2 ^ 32 - c) % 2 ^ 32 = n - c := by omega
      rw [this, if_pos (Or.inl (by omega))]
      omega
  | inr hle =>
      by_cases heq : c = n
      · subst heq
        have : (c + 2 ^ 32 - c) % 2 ^ 32 = 0 := by omega
        rw [this, if_pos (Or.inl (by omega))]
        omega
      · have : (n + 2 ^ 32 - c) % 2 ^ 32 = n + 2 ^ 32 - c := by omega
        rw [this, if_neg (by omega)]
        omega

/-- Unwrapping gives a number that wraps to the given one, the nearest to the
checkpoint among all of them. -/
theorem unwrap_nearest (w z : Wrap32) {c : Nat} (hc : c + 2 ^ 32 ≤ 2 ^ 64) :
    wrap (w.unwrap z c) z = w ∧
      ∀ n, wrap n z = w → Nat.dist (w.unwrap z c) c ≤ Nat.dist n c := by
  have hz := z.rawValue.toNat_lt
  have hw := w.rawValue.toNat_lt
  have hoff : (w.rawValue - (wrap c z).rawValue).toNat =
      (w.rawValue.toNat + 2 ^ 32 - (z.rawValue.toNat + c) % 2 ^ 32) % 2 ^ 32 := by
    rw [UInt32.toNat_sub, wrap_toNat]
    omega
  have hwrap (n : Nat) : wrap n z = w ↔ (z.rawValue.toNat + n) % 2 ^ 32 = w.rawValue.toNat := by
    rw [← wrap_toNat, UInt32.toNat_inj]
    exact ⟨congrArg rawValue, fun h => congrArg Wrap32.mk h⟩
  simp only [hwrap, unwrap, hoff, u64, Nat.dist]
  split
  · constructor
    · omega
    · intro n hn
      omega
  · constructor
    · omega
    · intro n hn
      omega

/-- How far, modulo 2^32, the wrapped checkpoint is below `w`: the `offset` of `unwrap`. -/
def offset (w zeroPoint : Wrap32) (checkpoint : Nat) : Nat :=
  (w.rawValue - (wrap checkpoint zeroPoint).rawValue).toNat

theorem unwrap_eq (w z : Wrap32) (c : Nat) : w.unwrap z c =
    if w.offset z c ≤ 2 ^ 31 ∨ u64 (c + w.offset z c) < 2 ^ 32 then u64 (c + w.offset z c)
    else u64 (c + w.offset z c) - 2 ^ 32 := rfl

theorem add_offset_lt (w z : Wrap32) {c : Nat} (hc : c + 2 ^ 32 ≤ 2 ^ 64) :
    c + w.offset z c < 2 ^ 64 := by
  have : w.offset z c < 2 ^ 32 := UInt32.toNat_lt _
  omega

/-- The sum of `unwrap` fits in 64 bits, and where 2^32 is taken off it is there. -/
theorem unwrap_cases (w z : Wrap32) {c : Nat} (hc : c + 2 ^ 32 ≤ 2 ^ 64) :
    ((w.offset z c ≤ 2 ^ 31 ∨ c + w.offset z c < 2 ^ 32) ∧ w.unwrap z c = c + w.offset z c) ∨
      (2 ^ 31 < w.offset z c ∧ 2 ^ 32 ≤ c + w.offset z c ∧
        w.unwrap z c = c + w.offset z c - 2 ^ 32) := by
  rw [unwrap_eq, u64_of_lt (add_offset_lt w z hc)]
  by_cases h : w.offset z c ≤ 2 ^ 31 ∨ c + w.offset z c < 2 ^ 32
  · rw [if_pos h]
    exact Or.inl ⟨h, rfl⟩
  · rw [if_neg h]
    exact Or.inr ⟨by omega, by omega, rfl⟩

/-- Two numbers that wrap to the same value differ by a multiple of 2^32. -/
theorem wrap_eq_iff (m n : Nat) (z : Wrap32) :
    wrap m z = wrap n z ↔ m % 2 ^ 32 = n % 2 ^ 32 := by
  have hz := z.rawValue.toNat_lt
  have hraw : wrap m z = wrap n z ↔ (wrap m z).rawValue = (wrap n z).rawValue :=
    ⟨congrArg rawValue, fun h => congrArg mk h⟩
  rw [hraw, ← UInt32.toNat_inj, wrap_toNat, wrap_toNat]
  omega

/-- On a tie the number above the checkpoint is the one returned. -/
theorem unwrap_tie (w z : Wrap32) {c : Nat} (hc : c + 2 ^ 32 ≤ 2 ^ 64) {n : Nat}
    (hn : wrap n z = w) (tie : Nat.dist n c = Nat.dist (w.unwrap z c) c) :
    n ≤ w.unwrap z c := by
  have hwrap := (unwrap_nearest w z hc).1
  rw [← hn, wrap_eq_iff, hn] at hwrap
  have hoff : w.offset z c < 2 ^ 32 := UInt32.toNat_lt _
  unfold Nat.dist at tie
  cases unwrap_cases w z hc with
  | inl h =>
      have := h.2
      omega
  | inr h =>
      have := h.2.2
      omega

/-- `unwrap` computes, without a 64-bit sum or difference that wraps around, the number
nearest to the checkpoint among those that wrap to the given value, the larger of two as
near; so it recovers every number less than 2^31 away. -/
theorem unwrap_is_closest (w z : Wrap32) {c : Nat} (hc : c ≤ 2 ^ 64 - 2 ^ 32) :
    wrap (w.unwrap z c) z = w ∧ w.unwrap z c < 2 ^ 64 ∧
      (∀ n, wrap n z = w → Nat.dist (w.unwrap z c) c ≤ Nat.dist n c ∧
        (Nat.dist n c = Nat.dist (w.unwrap z c) c → n ≤ w.unwrap z c)) ∧
      c + w.offset z c < 2 ^ 64 ∧
      (w.unwrap z c = c + w.offset z c ∨
        2 ^ 32 ≤ c + w.offset z c ∧ w.unwrap z c = c + w.offset z c - 2 ^ 32) ∧
      ∀ n, Nat.dist n c < 2 ^ 31 → (wrap n z).unwrap z c = n := by
  have hc' : c + 2 ^ 32 ≤ 2 ^ 64 := by omega
  have hsum := add_offset_lt w z hc'
  have hcases := unwrap_cases w z hc'
  refine ⟨(unwrap_nearest w z hc').1, ?_, ?_, hsum, ?_, ?_⟩
  · omega
  · intro n hn
    exact ⟨(unwrap_nearest w z hc').2 n hn, unwrap_tie w z hc' hn⟩
  · cases hcases with
    | inl h => exact Or.inl h.2
    | inr h => exact Or.inr h.2
  · intro n near
    unfold Nat.dist at near
    exact unwrap_wrap z hc' (by omega) (by omega)

/-- Half the circle away from the checkpoint the number above is returned. -/
theorem unwrap_is_closest_tie :
    Wrap32.unwrap ⟨0x80000000⟩ ⟨0⟩ (2 ^ 32) = 2 ^ 32 + 2 ^ 31 ∧
      Nat.dist (2 ^ 31) (2 ^ 32) = Nat.dist (2 ^ 32 + 2 ^ 31) (2 ^ 32) ∧
      2 ^ 31 ≤ Wrap32.unwrap ⟨0x80000000⟩ ⟨0⟩ (2 ^ 32) := by
  have tie : Nat.dist (2 ^ 31) (2 ^ 32) =
      Nat.dist (Wrap32.unwrap ⟨0x80000000⟩ ⟨0⟩ (2 ^ 32)) (2 ^ 32) := by decide
  have hnearest := (unwrap_is_closest ⟨0x80000000⟩ ⟨0⟩ (c := 2 ^ 32) (by decide)).2.2.1
  exact ⟨by decide, by decide, (hnearest (2 ^ 31) (by decide)).2 tie⟩

end Wrap32
end Minnow
