import ShadePay.Circuit.Gadgets

/-!
# The comparators over the integers

circomlib's comparators decompose a difference shifted by a power of two and read its top bit. What
an output of one asserts is that the difference, as a canonical representative, is short
(`lessEqThan_one_iff`, `greaterEqThan_one_iff`): the operands themselves are not bounded by it, so a
comparison modulo the prime is one of integers only where the operands are known to be small.
-/

namespace ShadePay

section
variable {p : ℕ} [Fact p.Prime] [WideModulus p] {n : ℕ}

/-- `LessThan` outputs one when the shifted difference fits its width. -/
theorem lessThan_one_iff (hn : n ≤ 252) (a b : ZMod p) :
    LessThan n a b 1 ↔ (a + 2 ^ n - b).val < 2 ^ n := by
  have hp : 2 ^ (n + 1) ≤ p :=
    le_trans (Nat.pow_le_pow_right (by norm_num) (by omega)) (le_of_lt WideModulus.wide)
  constructor
  · rintro ⟨bits, hb, hout⟩
    -- the top bit is zero, so the lower ones spell the value
    have htop : bits n = 0 := by
      have : (1 : ZMod p) = 1 - bits n := hout
      rw [eq_sub_iff_add_eq] at this
      simpa using this
    refine (inRange_iff (by omega) _).1 ⟨bits, fun i hi => hb.bits i (by omega), ?_⟩
    rw [← hb.sum, Bits.bitSum, Bits.bitSum, Finset.sum_range_succ, htop, zero_mul, add_zero]
  · intro hlt
    have hlt' : (a + 2 ^ n - b).val < 2 ^ (n + 1) := lt_trans hlt (Nat.pow_lt_pow_succ (by norm_num))
    refine ⟨Bits.ofNat (a + 2 ^ n - b).val, ⟨Bits.isBits_ofNat _ _, ?_⟩, ?_⟩
    · rw [Bits.bitSum_ofNat _ _ hlt', ZMod.natCast_zmod_val]
    · rw [Bits.ofNat, Nat.testBit_lt_two_pow hlt]
      simp

/-- Counting down from the largest number of a width stays within the width. -/
theorem val_reflect_lt (hn : n ≤ 253) (u : ZMod p) : (2 ^ n - 1 - u).val < 2 ^ n ↔ u.val < 2 ^ n := by
  have hp : 2 ^ n < p :=
    lt_of_le_of_lt (Nat.pow_le_pow_right (by norm_num) hn) WideModulus.wide
  have hpos : 0 < 2 ^ n := by positivity
  have hone : ((2 : ZMod p) ^ n - 1).val = 2 ^ n - 1 := by
    have : (2 : ZMod p) ^ n - 1 = ((2 ^ n - 1 : ℕ) : ZMod p) := by
      push_cast [Nat.cast_sub (show 1 ≤ 2 ^ n from hpos)]
      ring
    rw [this, ZMod.val_cast_of_lt (by omega)]
  have hle : ∀ v : ZMod p, v.val < 2 ^ n → (2 ^ n - 1 - v).val < 2 ^ n := by
    intro v hv
    have hsub : (2 ^ n - 1 - v).val = (2 ^ n - 1) - v.val := by
      rw [ZMod.val_sub (by omega), hone]
    omega
  refine ⟨fun h => ?_, hle u⟩
  have := hle _ h
  rwa [sub_sub_cancel] at this

/-- `LessEqThan` outputs one when the second operand exceeds the first by less than its width. -/
theorem lessEqThan_one_iff (hn : n ≤ 252) (a b : ZMod p) :
    LessEqThan n a b 1 ↔ (b - a).val < 2 ^ n := by
  rw [LessEqThan, lessThan_one_iff hn, ← val_reflect_lt (by omega) (b - a)]
  ring_nf

/-- `GreaterEqThan` outputs one when the first operand exceeds the second by less than its width. -/
theorem greaterEqThan_one_iff (hn : n ≤ 252) (a b : ZMod p) :
    GreaterEqThan n a b 1 ↔ (a - b).val < 2 ^ n := by
  rw [GreaterEqThan, lessThan_one_iff hn, ← val_reflect_lt (by omega) (a - b)]
  ring_nf

end

end ShadePay
