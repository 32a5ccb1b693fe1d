import ShadePay.Lib.Rounding

/-!
# JavaScript numbers

The values of the type `number`: the doubles, two infinities and `NaN`. Zero has no sign here, since
nothing in this library tells the two zeros apart. Sums are rounded, comparisons with `NaN` are false,
and `slice` takes any number as an index.
-/

/-- Round to a double, the range aside. -/
def roundDouble (q : ℚ) : ℚ := Rounding.round 53 (-1074) q

theorem one_le_precision : 1 ≤ 53 := by norm_num

theorem roundDouble_roundDouble (q : ℚ) : roundDouble (roundDouble q) = roundDouble q :=
  Rounding.round_round one_le_precision q

/-- A finite double. -/
structure Double where
  val : ℚ
  rounded : roundDouble val = val
  range : |val| < 2 ^ 1024

/-- A JavaScript number. -/
inductive Number where
  | nan
  | infinity (negative : Bool)
  | finite (x : Double)

namespace Number

open Rounding

/-- The number nearest to a rational. -/
def ofRat (q : ℚ) : Number :=
  if h : |roundDouble q| < 2 ^ 1024 then .finite ⟨roundDouble q, roundDouble_roundDouble q, h⟩
  else .infinity (decide (q < 0))

instance : Coe ℕ Number := ⟨fun n => ofRat n⟩

/-- The operator `+`. -/
def add : Number → Number → Number
  | .finite x, .finite y => ofRat (x.val + y.val)
  | .infinity s, .infinity t => if s = t then .infinity s else .nan
  | .infinity s, .finite _ => .infinity s
  | .finite _, .infinity t => .infinity t
  | _, _ => .nan

/-- The operator `<`. -/
def lt : Number → Number → Bool
  | .finite x, .finite y => decide (x.val < y.val)
  | .infinity s, .infinity t => s && !t
  | .infinity s, .finite _ => s
  | .finite _, .infinity t => !t
  | _, _ => false

/-- The operator `<=`. -/
def le : Number → Number → Bool
  | .finite x, .finite y => decide (x.val ≤ y.val)
  | .infinity s, .infinity t => s || !t
  | .infinity s, .finite _ => s
  | .finite _, .infinity t => !t
  | _, _ => false

/-- Drop the fraction of a rational. -/
def trunc (q : ℚ) : ℤ := if 0 ≤ q then ⌊q⌋ else ⌈q⌉

/-- The position that an index of `slice` denotes in an array of the given length. -/
def position (length : ℕ) : Number → ℕ
  | .nan => 0
  | .infinity negative => if negative then 0 else length
  | .finite x =>
      if trunc x.val < 0 then (length + trunc x.val).toNat else min (trunc x.val).toNat length

/-- `Array.prototype.slice`. -/
def slice {α : Type} (l : List α) (start stop : Number) : List α :=
  (l.take (position l.length stop)).drop (position l.length start)

/-- Zero plus `m`, `k` times. -/
def multiple (m : Number) : ℕ → Number
  | 0 => ofRat 0
  | k + 1 => (multiple m k).add m

/-! ## Whole numbers -/

section
variable {n : ℕ}

/-- Integers up to `2 ^ 53` are exact. -/
theorem roundDouble_natCast (h : n ≤ 2 ^ 53) : roundDouble n = n := by
  have hfits : Fits 53 (-1074) ((n : ℤ) : ℚ) :=
    fits_intCast (by norm_num) (by rw [abs_of_nonneg (by positivity)]; exact_mod_cast h)
  exact_mod_cast round_of_fits one_le_precision hfits

theorem roundDouble_mono {q r : ℚ} (h : q ≤ r) : roundDouble q ≤ roundDouble r :=
  round_mono one_le_precision h

@[simp] theorem roundDouble_zero : roundDouble 0 = 0 := by
  exact_mod_cast roundDouble_natCast (n := 0) (by norm_num)

theorem roundDouble_nonneg {q : ℚ} (h : 0 ≤ q) : 0 ≤ roundDouble q := by
  simpa using roundDouble_mono h

/-- A whole number up to `2 ^ 53` is a number. -/
theorem ofRat_natCast (h : n ≤ 2 ^ 53) : ∃ x : Double, ofRat n = .finite x ∧ x.val = n := by
  have hr := roundDouble_natCast h
  have hlt : |roundDouble n| < 2 ^ 1024 := by
    rw [hr, abs_of_nonneg (by positivity)]
    have h1 : (n : ℚ) ≤ 2 ^ 53 := by exact_mod_cast h
    exact h1.trans_lt (pow_lt_pow_right₀ (by norm_num) (by norm_num))
  exact ⟨_, dif_pos hlt, hr⟩

/-- A rational that is rounded to a double is taken to it. -/
theorem ofRat_of_rounds {q : ℚ} {x : Double} (h : roundDouble q = x.val) : ofRat q = .finite x := by
  obtain ⟨v, hr, hlt⟩ := x
  have hlt' : |roundDouble q| < 2 ^ 1024 := by rwa [h]
  rw [ofRat, dif_pos hlt']
  simp only [h]

/-- A double is the number nearest to it. -/
theorem ofRat_val (x : Double) : ofRat x.val = .finite x := ofRat_of_rounds x.rounded

/-- Whole numbers are added exactly as long as the sum is a number. -/
theorem add_natCast {m : ℕ} (h : m + n ≤ 2 ^ 53) :
    add (ofRat m) (ofRat n) = ofRat ((m + n : ℕ) : ℚ) := by
  obtain ⟨x, hx, hxm⟩ := ofRat_natCast (n := m) (by omega)
  obtain ⟨y, hy, hyn⟩ := ofRat_natCast (n := n) (by omega)
  rw [hx, hy, add, hxm, hyn, Nat.cast_add]

/-- Integers up to `2 ^ 53` are compared as such. -/
theorem lt_natCast {m : ℕ} (hm : m ≤ 2 ^ 53) (hn : n ≤ 2 ^ 53) :
    (ofRat m).lt (ofRat n) = true ↔ m < n := by
  obtain ⟨x, hx, hxm⟩ := ofRat_natCast hm
  obtain ⟨y, hy, hyn⟩ := ofRat_natCast hn
  rw [hx, hy, lt, decide_eq_true_eq, hxm, hyn, Nat.cast_lt]

/-- Counting stops at `2 ^ 53`: the next whole number is not a double, and the tie goes down. -/
theorem add_one_stalls : add (ofRat ((2 ^ 53 : ℕ) : ℚ)) (ofRat ((1 : ℕ) : ℚ)) =
    ofRat ((2 ^ 53 : ℕ) : ℚ) := by
  obtain ⟨x, hx, hxv⟩ := ofRat_natCast (n := 2 ^ 53) le_rfl
  obtain ⟨y, hy, hyv⟩ := ofRat_natCast (n := 1) (by norm_num)
  have htie : roundDouble ((2 ^ 53 : ℕ) + (1 : ℕ)) = (2 ^ 53 : ℕ) := by decide +kernel
  rw [hx, hy, add, hyv]
  exact ofRat_of_rounds (by rw [hxv, htie])

/-- A rational is rounded to a double or overflows. -/
theorem ofRat_cases (q : ℚ) : (∃ x : Double, ofRat q = .finite x ∧ x.val = roundDouble q) ∨
    ofRat q = .infinity (decide (q < 0)) := by
  unfold ofRat
  split
  · exact .inl ⟨_, rfl, rfl⟩
  · exact .inr rfl


/-- Adding to zero. -/
theorem ofRat_zero_add (m : Number) : add (ofRat 0) m = m := by
  obtain ⟨z, hz, hz0⟩ := ofRat_natCast (n := 0) (by norm_num)
  rw [Nat.cast_zero] at hz
  rw [hz]
  cases m with
  | nan => rfl
  | infinity s => rfl
  | finite x =>
      rw [add, hz0, Nat.cast_zero, zero_add, ofRat_val]

end

/-! ## Signs -/

/-- The number is not negative. -/
def Nonneg (a : Number) : Prop := (∃ x, a = .finite x ∧ 0 ≤ x.val) ∨ a = .infinity false

/-- The number is not positive. -/
def Nonpos (a : Number) : Prop := (∃ x, a = .finite x ∧ x.val ≤ 0) ∨ a = .infinity true

section
variable {a b : Number} {n t : ℕ} {q : ℚ}

/-- The double next to a non-negative number is non-negative. -/
theorem nonneg_ofRat (h : 0 ≤ q) : Nonneg (ofRat q) := by
  rcases ofRat_cases q with ⟨x, hx, hxq⟩ | hx
  · exact .inl ⟨x, hx, hxq ▸ roundDouble_nonneg h⟩
  · rw [hx, decide_eq_false (not_lt.2 h)]
    exact .inr rfl

/-- The double next to a number that is not positive is not positive. -/
theorem nonpos_ofRat (h : q ≤ 0) : Nonpos (ofRat q) := by
  rcases h.lt_or_eq with hlt | rfl
  · rcases ofRat_cases q with ⟨x, hx, hxq⟩ | hx
    · refine .inl ⟨x, hx, ?_⟩
      simpa [hxq] using roundDouble_mono h
    · rw [hx, decide_eq_true hlt]
      exact .inr rfl
  · obtain ⟨z, hz, hz0⟩ := ofRat_natCast (n := 0) (by norm_num)
    rw [Nat.cast_zero] at hz hz0
    exact .inl ⟨z, hz, hz0.le⟩

/-- A sum of non-negative numbers. -/
theorem Nonneg.add (ha : Nonneg a) (hb : Nonneg b) : Nonneg (a.add b) := by
  rcases ha with ⟨x, rfl, hx⟩ | rfl <;> rcases hb with ⟨y, rfl, hy⟩ | rfl
  · exact nonneg_ofRat (add_nonneg hx hy)
  all_goals exact .inr rfl

/-- A sum of numbers that are not positive. -/
theorem Nonpos.add (ha : Nonpos a) (hb : Nonpos b) : Nonpos (a.add b) := by
  rcases ha with ⟨x, rfl, hx⟩ | rfl <;> rcases hb with ⟨y, rfl, hy⟩ | rfl
  · exact nonpos_ofRat (add_nonpos hx hy)
  all_goals exact .inr rfl

/-- A number that is not positive is below every positive integer up to `2 ^ 53`. -/
theorem Nonpos.lt (ha : Nonpos a) (h0 : 0 < n) (hn : n ≤ 2 ^ 53) : a.lt (ofRat n) = true := by
  obtain ⟨z, hz, hzn⟩ := ofRat_natCast hn
  rw [hz]
  rcases ha with ⟨x, rfl, hx⟩ | rfl
  · have : (0 : ℚ) < n := by exact_mod_cast h0
    simp only [Number.lt, decide_eq_true_eq]
    linarith
  · rfl

/-- The multiples of a non-negative number. -/
theorem Nonneg.multiple (ha : Nonneg a) : ∀ k, Nonneg (a.multiple k)
  | 0 => nonneg_ofRat le_rfl
  | k + 1 => (Nonneg.multiple ha k).add ha

/-- The multiples of a number that is not positive. -/
theorem Nonpos.multiple (ha : Nonpos a) : ∀ k, Nonpos (a.multiple k)
  | 0 => nonpos_ofRat le_rfl
  | k + 1 => (Nonpos.multiple ha k).add ha

/-- A finite number stands at its floor. -/
theorem position_finite {x : Double} (hx : 0 ≤ x.val) :
    position n (.finite x) = min ⌊x.val⌋₊ n := by
  have h0 : ¬ ⌊x.val⌋ < 0 := not_lt.2 (Int.floor_nonneg.2 hx)
  simp only [position, trunc, if_pos hx, if_neg h0, Int.floor_toNat]

/-- No number stands above `n`. -/
theorem position_le (n : ℕ) (a : Number) : position n a ≤ n := by
  unfold position
  split
  · omega
  · split <;> omega
  · split <;> omega

/-- A number that is not negative is below the length when its position is. -/
theorem Nonneg.lt_iff (ha : Nonneg a) (hn : n ≤ 2 ^ 53) :
    a.lt (ofRat n) = true ↔ position n a < n := by
  obtain ⟨z, hz, hzn⟩ := ofRat_natCast hn
  rw [hz]
  rcases ha with ⟨x, rfl, hx⟩ | rfl
  · rw [position_finite hx]
    simp only [Number.lt, decide_eq_true_eq, hzn, min_lt_iff, lt_irrefl, or_false]
    exact (Nat.floor_lt hx).symm
  · simp [Number.lt, position]

/-- The position of a rounded number is at least each whole number below it. -/
theorem le_position_ofRat (ht : t ≤ 2 ^ 53) (h : (t : ℚ) ≤ q) : min t n ≤ position n (ofRat q) := by
  have hle : (t : ℚ) ≤ roundDouble q :=
    (roundDouble_natCast ht).symm.le.trans (roundDouble_mono h)
  have hq : 0 ≤ q := (Nat.cast_nonneg t).trans h
  rcases ofRat_cases q with ⟨x, hx, hxq⟩ | hx
  · rw [hx, position_finite (by rw [hxq]; exact roundDouble_nonneg hq), hxq]
    exact min_le_min_right _ (Nat.le_floor hle)
  · rw [hx, decide_eq_false (not_lt.2 hq)]
    exact min_le_right _ _

/-- A whole number is at most a double when it is at most its whole part. -/
theorem ofRat_le_finite {x : Double} (hx : 0 ≤ x.val) (hn : n ≤ 2 ^ 53) :
    (ofRat n).le (.finite x) = true ↔ n ≤ ⌊x.val⌋₊ := by
  obtain ⟨z, hz, hzn⟩ := ofRat_natCast hn
  rw [hz, Number.le, decide_eq_true_eq, hzn, Nat.le_floor_iff hx]

/-- Each summand moves the position on by its whole part at least. -/
theorem le_position_multiple {x : Double} {k : ℕ} (hx : 0 ≤ x.val) (hn : n ≤ 2 ^ 53)
    (hk : position n (multiple (.finite x) k) < n) :
    min (position n (multiple (.finite x) k) + ⌊x.val⌋₊) n ≤
      position n (multiple (.finite x) (k + 1)) := by
  have ha : Nonneg (.finite x) := .inl ⟨x, rfl, hx⟩
  rcases ha.multiple k with ⟨y, hy, hy0⟩ | hinf
  · have hpos : position n (multiple (.finite x) k) = ⌊y.val⌋₊ := by
      rw [hy, position_finite hy0] at hk ⊢
      omega
    rw [hpos, multiple, hy, add]
    have hle : ((min (⌊y.val⌋₊ + ⌊x.val⌋₊) n : ℕ) : ℚ) ≤ y.val + x.val := by
      have h1 := Nat.floor_le hy0
      have h2 := Nat.floor_le hx
      have h3 : ((min (⌊y.val⌋₊ + ⌊x.val⌋₊) n : ℕ) : ℚ) ≤ ((⌊y.val⌋₊ + ⌊x.val⌋₊ : ℕ) : ℚ) := by
        exact_mod_cast min_le_left _ _
      push_cast at h3 ⊢
      linarith
    have := le_position_ofRat (n := n) (by omega) hle
    omega
  · rw [hinf] at hk
    simp [position] at hk

end

end Number
