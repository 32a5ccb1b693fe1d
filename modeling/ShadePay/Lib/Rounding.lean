import Mathlib.Data.Int.Log
import Mathlib.Data.Rat.Floor
import Mathlib.Tactic.Linarith
import Mathlib.Tactic.Positivity
import Mathlib.Tactic.FieldSimp
import Mathlib.Tactic.Ring

/-!
# Rounding to a binary floating-point format

`round p emin q` is the value nearest to `q` among the multiples of `2 ^ e` with a significand of `p`
bits, ties going to the even significand; `e` is the exponent of the binade of `q`, and at least
`emin`. Rounding is monotone (`round_mono`), keeps the values that fit (`round_of_fits`), and so the
integers up to `2 ^ p` (`round_intCast`), and gives values that fit (`round_round`).
-/

namespace Rounding

/-! ## To an integer -/

/-- The nearest integer, ties to even. -/
def roundEven (x : ℚ) : ℤ :=
  if x - ⌊x⌋ < 1 / 2 then ⌊x⌋
  else if 1 / 2 < x - ⌊x⌋ then ⌊x⌋ + 1
  else if ⌊x⌋ % 2 = 0 then ⌊x⌋ else ⌊x⌋ + 1

@[simp] theorem roundEven_intCast (n : ℤ) : roundEven n = n := by
  simp [roundEven]

/-- Rounding goes to the floor or above. -/
theorem floor_le_roundEven (x : ℚ) : ⌊x⌋ ≤ roundEven x := by
  unfold roundEven
  split_ifs <;> omega

/-- Rounding goes to the floor or to the next integer. -/
theorem roundEven_le_floor (x : ℚ) : roundEven x ≤ ⌊x⌋ + 1 := by
  unfold roundEven
  split_ifs <;> omega

/-- Rounding keeps the order. -/
theorem roundEven_mono {x y : ℚ} (h : x ≤ y) : roundEven x ≤ roundEven y := by
  rcases (Int.floor_le_floor h).lt_or_eq with hlt | heq
  · have := roundEven_le_floor x
    have := floor_le_roundEven y
    omega
  · unfold roundEven
    rw [heq]
    split_ifs <;> first | omega | (exfalso; linarith)

theorem roundEven_le {x : ℚ} {n : ℤ} (h : x ≤ n) : roundEven x ≤ n := by
  simpa using roundEven_mono h

theorem le_roundEven {x : ℚ} {n : ℤ} (h : (n : ℚ) ≤ x) : n ≤ roundEven x := by
  simpa using roundEven_mono h

/-! ## To a format -/

section
variable (p : ℕ) (emin : ℤ)

/-- The exponent of the last place of a positive number. -/
def quantum (q : ℚ) : ℤ := max (Int.log 2 q + 1 - p) emin

/-- The rounding of a number that is not negative. -/
def roundMag (q : ℚ) : ℚ := roundEven (q / 2 ^ quantum p emin q) * 2 ^ quantum p emin q

/-- Round to nearest, ties to even. -/
def round (q : ℚ) : ℚ := if 0 ≤ q then roundMag p emin q else -roundMag p emin (-q)

/-- The number is a multiple of `2 ^ e` by a significand of `p` bits, for an exponent from `emin` on. -/
def Fits (q : ℚ) : Prop := ∃ m e : ℤ, |m| ≤ 2 ^ p ∧ emin ≤ e ∧ q = m * 2 ^ e

end

section
variable {p : ℕ} {emin : ℤ} {q r : ℚ}

theorem two_zpow_pos (e : ℤ) : (0 : ℚ) < 2 ^ e := zpow_pos (by norm_num) e

/-- Zero is exact. -/
@[simp] theorem roundMag_zero : roundMag p emin 0 = 0 := by
  have : roundEven (0 : ℚ) = 0 := by simpa using roundEven_intCast 0
  simp [roundMag, this]

/-- The rounding of a magnitude is one. -/
theorem roundMag_nonneg (h : 0 ≤ q) : 0 ≤ roundMag p emin q := by
  have hdiv : 0 ≤ q / 2 ^ quantum p emin q := div_nonneg h (two_zpow_pos _).le
  have hr : 0 ≤ roundEven (q / 2 ^ quantum p emin q) := le_roundEven (by exact_mod_cast hdiv)
  exact mul_nonneg (by exact_mod_cast hr) (two_zpow_pos _).le

/-- A multiple of the last place bounds the rounding from above. -/
theorem roundMag_le_of_multiple {m : ℤ} (h : q ≤ m * 2 ^ quantum p emin q) :
    roundMag p emin q ≤ m * 2 ^ quantum p emin q := by
  have hpos := two_zpow_pos (quantum p emin q)
  refine mul_le_mul_of_nonneg_right ?_ hpos.le
  exact_mod_cast roundEven_le ((div_le_iff₀ hpos).2 h)

/-- A multiple of the last place bounds the rounding from below. -/
theorem le_roundMag_of_multiple {m : ℤ} (h : m * 2 ^ quantum p emin q ≤ q) :
    m * 2 ^ quantum p emin q ≤ roundMag p emin q := by
  have hpos := two_zpow_pos (quantum p emin q)
  refine mul_le_mul_of_nonneg_right ?_ hpos.le
  exact_mod_cast le_roundEven ((le_div_iff₀ hpos).2 h)

/-- The larger power of two is a multiple of the smaller one. -/
theorem zpow_eq_mul {e f : ℤ} (h : e ≤ f) : ∃ m : ℤ, (2 : ℚ) ^ f = m * 2 ^ e := by
  refine ⟨2 ^ (f - e).toNat, ?_⟩
  have : (f - e).toNat = f - e := Int.toNat_of_nonneg (by omega)
  rw [Int.cast_pow, Int.cast_ofNat, ← zpow_natCast, this, ← zpow_add₀ (by norm_num)]
  congr 1
  omega

/-- Larger magnitudes have larger quanta. -/
theorem quantum_mono (hq : 0 < q) (h : q ≤ r) : quantum p emin q ≤ quantum p emin r := by
  have := Int.log_mono_right (b := 2) hq h
  simp only [quantum]
  omega

/-- The rounding of magnitudes keeps the order. -/
theorem roundMag_mono (hp : 1 ≤ p) (hq : 0 ≤ q) (h : q ≤ r) :
    roundMag p emin q ≤ roundMag p emin r := by
  rcases hq.eq_or_lt with rfl | hq
  · rw [roundMag_zero]
    exact roundMag_nonneg h
  rcases (@quantum_mono p emin q r hq h).lt_or_eq with hlt | heq
  · -- the power of two that starts the binade of `r` lies between them
    have hlog : Int.log 2 q < Int.log 2 r := by
      simp only [quantum] at hlt
      omega
    have hqr : quantum p emin r = Int.log 2 r + 1 - p := by
      simp only [quantum] at hlt ⊢
      omega
    have hlow : q ≤ 2 ^ Int.log 2 r := by
      refine (Int.lt_zpow_succ_log_self (b := 2) (by norm_num) q).le.trans ?_
      exact_mod_cast zpow_le_zpow_right₀ (by norm_num : (1 : ℚ) ≤ 2) (by omega)
    have hhigh : 2 ^ Int.log 2 r ≤ r := by
      exact_mod_cast Int.zpow_log_le_self (b := 2) (by norm_num) (hq.trans_le h)
    obtain ⟨m, hm⟩ := zpow_eq_mul (show quantum p emin q ≤ Int.log 2 r by omega)
    obtain ⟨m', hm'⟩ := zpow_eq_mul (show quantum p emin r ≤ Int.log 2 r by omega)
    calc roundMag p emin q ≤ 2 ^ Int.log 2 r := by
          rw [hm] at hlow ⊢
          exact roundMag_le_of_multiple hlow
      _ ≤ roundMag p emin r := by
          rw [hm'] at hhigh ⊢
          exact le_roundMag_of_multiple hhigh
  · have hpos := two_zpow_pos (quantum p emin r)
    rw [roundMag, roundMag, heq]
    refine mul_le_mul_of_nonneg_right ?_ hpos.le
    exact_mod_cast roundEven_mono (div_le_div_of_nonneg_right h hpos.le)

/-- **Rounding is monotone.** -/
theorem round_mono (hp : 1 ≤ p) (h : q ≤ r) : round p emin q ≤ round p emin r := by
  unfold round
  split_ifs with h1 h2 h2
  · exact roundMag_mono hp h1 h
  · linarith
  · have := @roundMag_nonneg p emin r h2
    have := @roundMag_nonneg p emin (-q) (by linarith)
    linarith
  · have := @roundMag_mono p emin (-r) (-q) hp (by linarith) (neg_le_neg h)
    linarith

/-- Rounding is symmetric. -/
theorem round_neg : round p emin (-q) = -round p emin q := by
  unfold round
  rcases lt_trichotomy q 0 with h | rfl | h
  · rw [if_pos (by linarith), if_neg (by linarith), neg_neg]
  · simp
  · rw [if_neg (by linarith), if_pos (by linarith), neg_neg]

/-- A number is representable with its negative. -/
theorem Fits.neg (h : Fits p emin q) : Fits p emin (-q) := by
  obtain ⟨m, e, hm, he, rfl⟩ := h
  exact ⟨-m, e, by rwa [abs_neg], he, by push_cast; ring⟩

/-- A number that fits is a multiple of its last place. -/
theorem Fits.multiple (hp : 1 ≤ p) (h : Fits p emin q) (hq : 0 < q) :
    ∃ m : ℤ, q = m * 2 ^ quantum p emin q := by
  obtain ⟨m, e, hm, he, rfl⟩ := h
  have hpos := two_zpow_pos e
  have hm0 : 0 < m := by
    have : (0 : ℚ) < m := pos_of_mul_pos_left hq hpos.le
    exact_mod_cast this
  rw [abs_of_pos hm0] at hm
  have hpow : (2 : ℚ) ^ p * 2 ^ e = 2 ^ (p + e) := by
    rw [zpow_add₀ (by norm_num), zpow_natCast]
  rcases hm.lt_or_eq with hlt | rfl
  · have hlog : Int.log 2 (m * 2 ^ e : ℚ) < p + e := by
      refine (Int.lt_zpow_iff_log_lt (by norm_num) hq).1 ?_
      rw [Nat.cast_ofNat, ← hpow]
      exact mul_lt_mul_of_pos_right (by exact_mod_cast hlt) hpos
    obtain ⟨k, hk⟩ := zpow_eq_mul (show quantum p emin (m * 2 ^ e) ≤ e by
      simp only [quantum]
      omega)
    exact ⟨m * k, by rw [Int.cast_mul, mul_assoc, ← hk]⟩
  · -- the power of two above the binade
    have hval : ((2 ^ p : ℤ) : ℚ) * 2 ^ e = 2 ^ (p + e) := by rw [← hpow]; push_cast; rfl
    have hlog : Int.log 2 ((2 : ℚ) ^ (p + e)) = p + e := by
      exact_mod_cast Int.log_zpow (R := ℚ) (b := 2) (by norm_num) (p + e)
    obtain ⟨k, hk⟩ := zpow_eq_mul (show quantum p emin (2 ^ (p + e)) ≤ p + e by
      simp only [quantum, hlog]
      omega)
    rw [hval]
    exact ⟨k, hk⟩

/-- A multiple of its quantum is exact. -/
theorem roundMag_of_multiple {m : ℤ} (h : q = m * 2 ^ quantum p emin q) :
    roundMag p emin q = q :=
  le_antisymm ((roundMag_le_of_multiple h.le).trans h.ge) (h.le.trans (le_roundMag_of_multiple h.ge))

/-- **Values of the format are kept.** -/
theorem round_of_fits (hp : 1 ≤ p) (h : Fits p emin q) : round p emin q = q := by
  have hpos : ∀ {q}, Fits p emin q → 0 < q → round p emin q = q := fun h hq => by
    obtain ⟨m, hm⟩ := h.multiple hp hq
    rw [round, if_pos hq.le, roundMag_of_multiple hm]
  rcases lt_trichotomy q 0 with hq | rfl | hq
  · have := hpos h.neg (by linarith)
    rw [round_neg] at this
    linarith
  · simp [round]
  · exact hpos h hq

/-- Integers up to `2 ^ p` are values of the format. -/
theorem fits_intCast (he : emin ≤ 0) {n : ℤ} (h : |n| ≤ 2 ^ p) : Fits p emin n :=
  ⟨n, 0, h, he, by simp⟩

/-- A rounded magnitude is representable. -/
theorem fits_roundMag (hq : 0 ≤ q) : Fits p emin (roundMag p emin q) := by
  refine ⟨roundEven (q / 2 ^ quantum p emin q), quantum p emin q, ?_, le_max_right _ _, rfl⟩
  have hpos := two_zpow_pos (quantum p emin q)
  have hle : q ≤ ((2 ^ p : ℤ) : ℚ) * 2 ^ quantum p emin q := by
    have hlog : q < 2 ^ (Int.log 2 q + 1) := by
      exact_mod_cast Int.lt_zpow_succ_log_self (b := 2) (by norm_num) q
    have hmono : (2 : ℚ) ^ (Int.log 2 q + 1) ≤ 2 ^ (p + quantum p emin q) :=
      zpow_le_zpow_right₀ (by norm_num) (by simp only [quantum]; omega)
    have hpow : (2 : ℚ) ^ (p + quantum p emin q) = 2 ^ p * 2 ^ quantum p emin q := by
      rw [zpow_add₀ (by norm_num), zpow_natCast]
    rw [Int.cast_pow, Int.cast_ofNat, ← hpow]
    exact hlog.le.trans hmono
  have hnn : 0 ≤ roundEven (q / 2 ^ quantum p emin q) :=
    le_roundEven (by exact_mod_cast div_nonneg hq hpos.le)
  rw [abs_of_nonneg hnn]
  exact roundEven_le ((div_le_iff₀ hpos).2 hle)

/-- A rounded value is a value of the format. -/
theorem fits_round (q : ℚ) : Fits p emin (round p emin q) := by
  unfold round
  split_ifs with h
  · exact fits_roundMag h
  · exact (fits_roundMag (by linarith)).neg

/-- Rounding twice is rounding once. -/
theorem round_round (hp : 1 ≤ p) (q : ℚ) :
    round p emin (round p emin q) = round p emin q :=
  round_of_fits hp (fits_round q)

end

end Rounding
