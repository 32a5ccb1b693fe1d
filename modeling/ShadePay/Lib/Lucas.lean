import Mathlib.NumberTheory.LucasPrimality
import Mathlib.Data.List.Prime

/-!
# Primality certificates by Lucas's test

`lucas_primality` asks for one power that is `1` and for one power per prime factor of `p - 1`
that is not. `Certifies` is that test as a Boolean, with the powers taken by repeated squaring so
that the kernel can evaluate it at a 255-bit modulus, and `prime_of_certifies` is its soundness.
-/

namespace Lucas

/-- Repeated squaring: `acc * b ^ n` modulo `m`, at most `fuel` bits of `n`. -/
def powModAux (m : ℕ) : ℕ → ℕ → ℕ → ℕ → ℕ
  | 0, acc, _, _ => acc % m
  | fuel + 1, acc, b, n =>
      powModAux m fuel (if n % 2 = 1 then acc * b % m else acc) (b * b % m) (n / 2)

/-- `powModAux` is the power it accumulates, as long as the exponent fits the fuel. -/
theorem powModAux_eq (m : ℕ) : ∀ (fuel acc b n : ℕ), n < 2 ^ fuel →
    powModAux m fuel acc b n = acc * b ^ n % m
  | 0, acc, b, n, h => by
      obtain rfl : n = 0 := by simpa using h
      simp [powModAux]
  | fuel + 1, acc, b, n, h => by
      have hn : n / 2 < 2 ^ fuel := by rw [pow_succ] at h; omega
      rw [powModAux, powModAux_eq m fuel _ _ _ hn]
      -- the exponent splits as `2 * (n / 2) + n % 2`, whichever bit is consumed
      have hpow : b ^ n = b ^ (n % 2) * (b * b) ^ (n / 2) := by
        rw [← sq, ← pow_mul, ← pow_add, Nat.mod_add_div]
      rcases Nat.mod_two_eq_zero_or_one n with h0 | h1
      · rw [if_neg (by omega), hpow, h0, pow_zero, one_mul, Nat.mul_mod, ← Nat.pow_mod,
          ← Nat.mul_mod]
      · rw [if_pos h1, hpow, h1, pow_one, ← mul_assoc, Nat.mul_mod, ← Nat.pow_mod, Nat.mod_mod,
          ← Nat.mul_mod]

/-- `a ^ n` modulo `m`. -/
def powMod (m fuel a n : ℕ) : ℕ := powModAux m fuel 1 a n

/-- Lucas's test for `p` at the witness `a`: `qs` multiply to `p - 1`, Fermat's power is `1`, and
no power by a proper co-factor is. -/
def Certifies (fuel p a : ℕ) (qs : List ℕ) : Bool :=
  decide (2 ≤ p) && decide (p ≤ 2 ^ fuel) && decide (qs.prod = p - 1) &&
    decide (powMod p fuel a (p - 1) = 1) &&
    qs.all fun q => decide (powMod p fuel a ((p - 1) / q) ≠ 1)

/-- A power in `ZMod p` is `1` exactly when `powMod` says so. -/
theorem zmod_pow_eq_one_iff {p fuel a n : ℕ} (hp : 2 ≤ p) (hn : n < 2 ^ fuel) :
    (a : ZMod p) ^ n = 1 ↔ powMod p fuel a n = 1 := by
  rw [powMod, powModAux_eq p fuel 1 a n hn, one_mul, ← Nat.cast_pow, ← Nat.cast_one,
    ZMod.natCast_eq_natCast_iff', Nat.mod_eq_of_lt (show 1 < p by omega)]

/-- **Soundness of the test.** A number certified through prime factors is prime. -/
theorem prime_of_certifies {fuel p a : ℕ} {qs : List ℕ} (hqs : ∀ q ∈ qs, q.Prime)
    (h : Certifies fuel p a qs = true) : p.Prime := by
  simp only [Certifies, Bool.and_eq_true, decide_eq_true_eq, List.all_eq_true] at h
  obtain ⟨⟨⟨⟨h2, hle⟩, hprod⟩, hone⟩, hne⟩ := h
  have hlt : ∀ k, (p - 1) / k < 2 ^ fuel := fun k =>
    lt_of_le_of_lt (Nat.div_le_self _ _) (by omega)
  refine lucas_primality p (a : ZMod p) ((zmod_pow_eq_one_iff h2 (by omega)).2 hone) ?_
  intro q hq hdvd
  rw [← hprod, Prime.dvd_prod_iff hq.prime] at hdvd
  obtain ⟨q', hq', hd⟩ := hdvd
  obtain rfl : q = q' := (Nat.prime_dvd_prime_iff_eq hq (hqs q' hq')).1 hd
  rw [Ne, zmod_pow_eq_one_iff h2 (hlt q)]
  exact hne q hq'

end Lucas
