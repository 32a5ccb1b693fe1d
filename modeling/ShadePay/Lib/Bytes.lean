import Mathlib.Tactic

/-!
# Big-endian byte strings

Numbers as byte strings of a fixed width, most significant byte first. `toNat_ofNat` and
`ofNat_toNat` are the two round trips; `toNat_injective` says that strings of one width that spell
the same number are the same string.
-/

namespace Bytes

/-- The number a byte string spells. -/
def toNat : List UInt8 → ℕ
  | [] => 0
  | b :: bs => b.toNat * 256 ^ bs.length + toNat bs

/-- The `n` low bytes of a number. -/
def ofNat : ℕ → ℕ → List UInt8
  | 0, _ => []
  | n + 1, x => UInt8.ofNat (x / 256 ^ n % 256) :: ofNat n x

/-- A number of `n` bytes. -/
@[simp] theorem length_ofNat (n x : ℕ) : (ofNat n x).length = n := by
  induction n with
  | zero => rfl
  | succ n ih => simp [ofNat, ih]

/-- A text of `n` bytes is below `256 ^ n`. -/
theorem toNat_lt (b : List UInt8) : toNat b < 256 ^ b.length := by
  induction b with
  | nil => simp [toNat]
  | cons b bs ih =>
      have hb := UInt8.toNat_lt b
      rw [toNat, List.length_cons, pow_succ]
      nlinarith

/-- Two texts one after the other. -/
theorem toNat_append (b c : List UInt8) : toNat (b ++ c) = toNat b * 256 ^ c.length + toNat c := by
  induction b with
  | nil => simp [toNat]
  | cons b bs ih =>
      rw [List.cons_append, toNat, toNat, ih, List.length_append, pow_add]
      ring

/-- A number is cut to its bytes. -/
theorem toNat_ofNat (n x : ℕ) : toNat (ofNat n x) = x % 256 ^ n := by
  induction n with
  | zero => simp [ofNat, toNat, Nat.mod_one]
  | succ n ih =>
      have hb : (UInt8.ofNat (x / 256 ^ n % 256)).toNat = x / 256 ^ n % 256 := by simp
      rw [ofNat, toNat, ih, hb, length_ofNat, Nat.mod_pow_succ]
      ring

theorem toNat_ofNat_of_lt {n x : ℕ} (hx : x < 256 ^ n) : toNat (ofNat n x) = x := by
  rw [toNat_ofNat, Nat.mod_eq_of_lt hx]

/-- The lowest byte is the last one. -/
theorem ofNat_succ_last (n x : ℕ) : ofNat (n + 1) x = ofNat n (x / 256) ++ [UInt8.ofNat (x % 256)] := by
  induction n generalizing x with
  | zero => simp [ofNat]
  | succ n ih => rw [ofNat, ih, ofNat, Nat.div_div_eq_div_mul, ← pow_succ', List.cons_append]

/-- Strings of one width are determined by the number they spell. -/
theorem toNat_injective {b c : List UInt8} (hlen : b.length = c.length) (h : toNat b = toNat c) :
    b = c := by
  induction b generalizing c with
  | nil => simpa using (List.length_eq_zero_iff.1 hlen.symm).symm
  | cons b bs ih =>
      cases c with
      | nil => simp at hlen
      | cons c cs =>
          have hl : bs.length = cs.length := by simpa using hlen
          rw [toNat, toNat, hl] at h
          have hb := toNat_lt bs
          have hc := toNat_lt cs
          rw [hl] at hb
          have hpos : 0 < 256 ^ cs.length := by positivity
          have hdiv := congrArg (· / 256 ^ cs.length) h
          have hmod := congrArg (· % 256 ^ cs.length) h
          simp only [mul_comm _ (256 ^ cs.length), Nat.mul_add_div hpos, Nat.div_eq_of_lt hb,
            Nat.div_eq_of_lt hc, add_zero] at hdiv
          simp only [mul_comm _ (256 ^ cs.length), Nat.mul_add_mod, Nat.mod_eq_of_lt hb,
            Nat.mod_eq_of_lt hc] at hmod
          rw [UInt8.toNat_inj.1 hdiv, ih hl hmod]

/-- A text is read back from its number. -/
theorem ofNat_toNat (b : List UInt8) : ofNat b.length (toNat b) = b := by
  refine toNat_injective (by simp) ?_
  rw [toNat_ofNat_of_lt (toNat_lt b)]

end Bytes
