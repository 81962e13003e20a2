import Minnow.IPv4
import Minnow.ParserWire

/-!
The value of an InternetChecksum. As long as its sum has not overflowed it is the
complement of the sum of words, so a sum that contains it verifies.
-/

namespace Minnow
open OnesComplement
theorem weigh_wire (n : UInt16) : weigh false (wire n) = n.toNat := by
  have hn := n.toNat_lt
  have hbytes : wire n = [UInt8.ofNat (n.toNat / 256 ^ 1), UInt8.ofNat (n.toNat / 256 ^ 0)] := by
    change BigEndian.encode 2 n.toNat = _
    rw [BigEndian.encode_succ, BigEndian.encode_succ, BigEndian.encode_zero]
  rw [hbytes]
  simp only [weigh, Bool.false_eq_true, if_false, Bool.not_false, if_true, UInt8.toNat_ofNat']
  omega

/-- A word in its place adds its own value. -/
theorem weigh_word {front : Bytes} (h : front.length % 2 = 0) (n : UInt16) (back : Bytes) :
    weigh false (front ++ (wire n ++ back)) =
      weigh false front + weigh false back + n.toNat := by
  rw [weigh_append_words h, weigh_append_words (by rw [length_wire]; rfl), weigh_wire]
  omega

namespace InternetChecksum

theorem addByte_sum {c : InternetChecksum} {i : UInt8}
    (h : c.sum.toNat + weigh c.parity [i] < 2 ^ 32) :
    (c.addByte i).sum.toNat = c.sum.toNat + weigh c.parity [i] := by
  have hi := i.toNat_lt
  cases hparity : c.parity with
  | false =>
      simp only [addByte, hparity, weigh, Bool.false_eq_true, if_false] at h ⊢
      rw [UInt32.toNat_add, UInt16.toNat_toUInt32, UInt16.toNat_shiftLeft, UInt8.toNat_toUInt16]
      simp only [UInt16.reduceToNat, Nat.reduceMod, Nat.shiftLeft_eq]
      omega
  | true =>
      simp only [addByte, hparity, weigh, if_true] at h ⊢
      rw [UInt32.toNat_add, UInt16.toNat_toUInt32, UInt8.toNat_toUInt16]
      omega

theorem add_sum {c : InternetChecksum} {data : Bytes}
    (h : c.sum.toNat + weigh c.parity data < 2 ^ 32) :
    (c.add data).sum.toNat = c.sum.toNat + weigh c.parity data := by
  induction data generalizing c with
  | nil => rfl
  | cons i data ih =>
      have hsplit : weigh c.parity (i :: data) = weigh c.parity [i] + weigh (!c.parity) data := rfl
      rw [hsplit] at h ⊢
      have hbyte := addByte_sum (c := c) (i := i) (by omega)
      have hparity : (c.addByte i).parity = !c.parity := rfl
      rw [add, List.foldl_cons, ← add, ih (by rw [hbyte, hparity]; omega), hbyte, hparity,
        Nat.add_assoc]

/-- As long as the bytes are few enough the sum is exact. -/
theorem add_exact {sum : UInt32} {data : Bytes}
    (hsize : sum.toNat + 255 * 2 ^ 8 * data.length < 2 ^ 32) :
    (add { sum } data).sum.toNat = sum.toNat + weigh false data :=
  add_sum (c := { sum }) (Nat.lt_of_le_of_lt (Nat.add_le_add_left (weigh_le false data) _) hsize)

/-- The parity is carried from buffer to buffer. -/
theorem addBuffers_eq (c : InternetChecksum) (data : List Bytes) :
    c.addBuffers data = c.add data.flatten := by
  rw [add, List.foldl_flatten]
  rfl

theorem fold_mod (turns : Nat) (ret : UInt32) :
    (fold turns ret).toNat % 65535 = ret.toNat % 65535 := by
  induction turns generalizing ret with
  | zero => rfl
  | succ turns ih =>
      rw [fold]
      split
      · rw [ih, fold_turn, carry_mod]
      · rfl

theorem fold_pos (turns : Nat) {ret : UInt32} (h : 0 < ret.toNat) :
    0 < (fold turns ret).toNat := by
  induction turns generalizing ret with
  | zero => exact h
  | succ turns ih =>
      rw [fold]
      split
      · exact ih (by rw [fold_turn]; exact carry_pos h)
      · exact h

/-- Two turns bring every carry around. -/
theorem fold_toNat (ret : UInt32) : (fold 2 ret).toNat = endAround ret.toNat := by
  have hle : (fold 2 ret).toNat ≤ 65535 := fold_settles ret
  have hmod := fold_mod 2 ret
  rw [endAround_eq]
  split
  · next hzero =>
      have : ret = 0 := UInt32.toNat_inj.mp hzero
      rw [this]
      decide
  · next hne =>
      have hpos := fold_pos 2 (Nat.pos_of_ne_zero hne)
      omega

theorem value_toNat (c : InternetChecksum) : c.value.toNat = 65535 - endAround c.sum.toNat := by
  have hle := endAround_le c.sum.toNat
  rw [value, UInt16.toNat_not, UInt32.toNat_toUInt16, fold_toNat, Nat.mod_eq_of_lt (by omega)]
  rfl

/-- The value is zero exactly if the ones' complement sum has all its bits set. -/
theorem value_eq_zero_iff (c : InternetChecksum) :
    c.value = 0 ↔ endAround c.sum.toNat = 0xffff := by
  have hle := endAround_le c.sum.toNat
  rw [← UInt16.toNat_inj, value_toNat, UInt16.toNat_zero]
  omega

/-- A sum that contains its own checksum verifies. -/
theorem value_eq_zero {c d : InternetChecksum} (h : d.sum.toNat = c.sum.toNat + c.value.toNat) :
    d.value = 0 := by
  rw [value_eq_zero_iff, endAround_eq_iff, h, value_toNat, endAround_eq]
  split <;> omega

/-- A word that was zero, filled with the value, makes the sum verify. -/
theorem value_filled {sum : UInt32} {front back : Bytes} (hfront : front.length % 2 = 0)
    (hsize : sum.toNat +
      255 * 2 ^ 8 * (front ++ (wire (0 : UInt16) ++ back)).length < 2 ^ 32) :
    (add { sum } (front ++
      (wire (add { sum } (front ++ (wire (0 : UInt16) ++ back))).value ++ back))).value = 0 := by
  have hfilled (n : UInt16) :
      (add { sum } (front ++ (wire n ++ back))).sum.toNat =
        sum.toNat + (weigh false front + weigh false back + n.toNat) := by
    rw [add_exact, weigh_word hfront]
    simpa only [List.length_append, length_wire] using hsize
  apply value_eq_zero (c := add { sum } (front ++ (wire (0 : UInt16) ++ back)))
  rw [hfilled, hfilled, UInt16.toNat_zero, Nat.add_zero, Nat.add_assoc sum.toNat]

/-- A word is the value of a positive sum exactly if it brings the sum to all bits set; the
value is then never the other zero. -/
theorem value_eq_iff {c : InternetChecksum} (hpos : 0 < c.sum.toNat) (k : UInt16) :
    c.value = k ↔ endAround (c.sum.toNat + k.toNat) = 0xffff ∧ k ≠ 0xffff := by
  have hk := k.toNat_lt
  have hones : k ≠ 0xffff ↔ k.toNat ≠ 65535 := not_congr UInt16.toNat_inj.symm
  rw [← UInt16.toNat_inj, value_toNat, endAround_eq_iff, hones, endAround_eq, if_neg hpos.ne']
  omega

end InternetChecksum
end Minnow
