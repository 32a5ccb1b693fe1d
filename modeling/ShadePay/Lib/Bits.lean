import Mathlib.Data.ZMod.Basic
import Mathlib.Algebra.Field.ZMod
import Mathlib.Algebra.BigOperators.Ring.Finset
import Mathlib.Algebra.BigOperators.Intervals
import Mathlib.Tactic.Ring

/-!
# Bit decompositions in a prime field

A range check over a prime field is a list of Boolean signals whose weighted sum is the value.
`IsBits` is the Boolean constraint and `bitSum` the sum; `exists_bits_iff` says that a value has a
decomposition into `n` bits exactly when its canonical representative is below `2 ^ n`, for every
`n` with `2 ^ n ≤ p`. The lemmas on `ZMod.val` below carry equations between range-checked values
over to the integers.
-/

namespace Bits

open Finset

variable {F : Type*} [Field F]

/-- Each of the first `n` signals satisfies `b * (b - 1) = 0`. -/
def IsBits (n : ℕ) (b : ℕ → F) : Prop := ∀ i < n, b i * (b i - 1) = 0

/-- The linear combination `∑ b i * 2 ^ i` over the first `n` signals. -/
def bitSum (n : ℕ) (b : ℕ → F) : F := ∑ i ∈ range n, b i * 2 ^ i

/-- The Boolean a bit signal stands for. -/
noncomputable def toBool (b : ℕ → F) (i : ℕ) : Bool := open Classical in decide (b i = 1)

/-- A signal under the Boolean constraint is `0` or `1`. -/
theorem IsBits.eq_zero_or_one {n : ℕ} {b : ℕ → F} (h : IsBits n b) {i : ℕ} (hi : i < n) :
    b i = 0 ∨ b i = 1 := by
  rcases mul_eq_zero.1 (h i hi) with h0 | h1
  · exact .inl h0
  · exact .inr (sub_eq_zero.1 h1)

/-- A signal under the Boolean constraint is the field image of its Boolean. -/
theorem IsBits.eq_ite {n : ℕ} {b : ℕ → F} (h : IsBits n b) {i : ℕ} (hi : i < n) :
    b i = if toBool b i then 1 else 0 := by
  rcases h.eq_zero_or_one hi with h0 | h1
  · simp [toBool, h0]
  · simp [toBool, h1]

/-- The natural number a decomposition stands for. -/
noncomputable def natSum (n : ℕ) (b : ℕ → F) : ℕ :=
  ∑ i ∈ range n, if toBool b i then 2 ^ i else 0

/-- A sum of `n` bits is below `2 ^ n`. -/
theorem natSum_lt (n : ℕ) (b : ℕ → F) : natSum n b < 2 ^ n := by
  induction n with
  | zero => simp [natSum]
  | succ n ih =>
      rw [natSum, sum_range_succ, ← natSum, pow_succ]
      split <;> omega

/-- The bits of the number a decomposition stands for are its Booleans. -/
theorem toBool_eq_testBit {n : ℕ} {b : ℕ → F} {i : ℕ} (hi : i < n) :
    toBool b i = (natSum n b).testBit i := by
  induction n with
  | zero => omega
  | succ n ih =>
      have hlt := natSum_lt n b
      rw [natSum, sum_range_succ, ← natSum]
      rcases Nat.lt_succ_iff_lt_or_eq.1 hi with h | rfl
      · rw [ih h]
        split
        · rw [add_comm, Nat.testBit_two_pow_add_gt h]
        · rfl
      · cases hb : toBool b i with
        | false => simp [Nat.testBit_lt_two_pow hlt]
        | true => simp [add_comm (natSum i b), Nat.testBit_two_pow_add_eq, Nat.testBit_lt_two_pow hlt]

/-- The weighted sum of Boolean signals is the image of the number they spell. -/
theorem IsBits.bitSum_eq {n : ℕ} {b : ℕ → F} (h : IsBits n b) :
    bitSum n b = ((natSum n b : ℕ) : F) := by
  rw [bitSum, natSum, Nat.cast_sum]
  refine sum_congr rfl fun i hi => ?_
  rw [h.eq_ite (mem_range.1 hi)]
  split <;> simp

section ZMod
variable {p : ℕ} [Fact p.Prime]

/-- A decomposed value is below `2 ^ n`: the sum cannot wrap around the modulus. -/
theorem IsBits.val_bitSum {n : ℕ} {b : ℕ → ZMod p} (h : IsBits n b) (hn : 2 ^ n ≤ p) :
    (bitSum n b).val = natSum n b := by
  rw [h.bitSum_eq, ZMod.val_natCast, Nat.mod_eq_of_lt]
  exact lt_of_lt_of_le (natSum_lt n b) hn

/-- The bits of a number, as field elements. -/
def ofNat (x : ℕ) (i : ℕ) : ZMod p := if x.testBit i then 1 else 0

/-- The bits of a number are bits. -/
theorem isBits_ofNat (n x : ℕ) : IsBits n (ofNat x : ℕ → ZMod p) := by
  intro i _
  unfold ofNat
  split <;> simp

/-- The bits of a number below `2 ^ n` sum to the number. -/
theorem bitSum_ofNat (n x : ℕ) (hx : x < 2 ^ n) :
    bitSum n (ofNat x : ℕ → ZMod p) = (x : ZMod p) := by
  have key : ∀ m, (∑ i ∈ range m, if x.testBit i then 2 ^ i else 0) = x % 2 ^ m := by
    intro m
    induction m with
    | zero => simp [Nat.mod_one]
    | succ m ih =>
        rw [sum_range_succ, ih, Nat.mod_pow_succ, Nat.testBit_eq_decide_div_mod_eq]
        rcases Nat.mod_two_eq_zero_or_one (x / 2 ^ m) with h | h <;> simp [h]
  have hsum : x = ∑ i ∈ range n, if x.testBit i then 2 ^ i else 0 := by
    rw [key n, Nat.mod_eq_of_lt hx]
  conv_rhs => rw [hsum]
  rw [bitSum, Nat.cast_sum]
  refine sum_congr rfl fun i _ => ?_
  unfold ofNat
  split <;> simp

/-- **Range check.** A value has a decomposition into `n` Boolean signals exactly when its
canonical representative is below `2 ^ n`. -/
theorem exists_bits_iff {n : ℕ} (hn : 2 ^ n ≤ p) (x : ZMod p) :
    (∃ b : ℕ → ZMod p, IsBits n b ∧ bitSum n b = x) ↔ x.val < 2 ^ n := by
  constructor
  · rintro ⟨b, hb, rfl⟩
    rw [hb.val_bitSum hn]
    exact natSum_lt n b
  · intro hx
    refine ⟨ofNat x.val, isBits_ofNat n x.val, ?_⟩
    rw [bitSum_ofNat n x.val hx, ZMod.natCast_zmod_val]

/-! ## Equations over the integers -/

/-- A difference that stays small is the integer difference, when the subtrahend is small. -/
theorem val_eq_add_of_sub {a b c : ZMod p} (h : a - b = c) (hs : b.val + c.val < p) :
    a.val = b.val + c.val := by
  have ha : a = b + c := by rw [← h]; ring
  rw [ha, ZMod.val_add, Nat.mod_eq_of_lt hs]

/-- A sum that stays below the modulus is the integer sum. -/
theorem val_add_of_lt {a b : ZMod p} (h : a.val + b.val < p) : (a + b).val = a.val + b.val := by
  rw [ZMod.val_add, Nat.mod_eq_of_lt h]

end ZMod

end Bits
