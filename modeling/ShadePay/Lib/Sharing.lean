import Mathlib.LinearAlgebra.Lagrange
import Mathlib.Tactic

/-!
# Threshold sharing over a field

A secret is the constant coefficient of a polynomial and a share is a point of its graph.
`recover_eq` reads the secret back from as many points as there are coefficients, in any order, and
`existsUnique_coeffs` is why one point fewer says nothing about it: whatever values those points
carry, every secret explains them by exactly one choice of the other coefficients.
-/

open Polynomial

namespace Sharing

section
variable {K : Type*} [Field K]

/-- Horner's rule, lowest coefficient first. -/
def horner (coeffs : List K) (x : K) : K := coeffs.foldr (fun c y => y * x + c) 0

/-- The polynomial with the given coefficients. -/
noncomputable def poly (coeffs : List K) : K[X] := coeffs.foldr (fun c p => p * X + C c) 0

@[simp] theorem horner_nil (x : K) : horner [] x = 0 := rfl

@[simp] theorem horner_cons (c : K) (cs : List K) (x : K) :
    horner (c :: cs) x = horner cs x * x + c := rfl

@[simp] theorem poly_nil : poly ([] : List K) = 0 := rfl

@[simp] theorem poly_cons (c : K) (cs : List K) : poly (c :: cs) = poly cs * X + C c := rfl

/-- The value of the polynomial is that of Horner's rule. -/
theorem eval_poly (coeffs : List K) (x : K) : (poly coeffs).eval x = horner coeffs x := by
  induction coeffs with
  | nil => simp
  | cons c cs ih => simp [ih]

/-- The coefficients of the polynomial. -/
theorem coeff_poly (coeffs : List K) (i : ℕ) : (poly coeffs).coeff i = (coeffs[i]?).getD 0 := by
  induction coeffs generalizing i with
  | nil => simp
  | cons c cs ih =>
      cases i with
      | zero => simp
      | succ i => simp [ih]

/-- The degree is below the number of coefficients. -/
theorem degree_poly_lt (coeffs : List K) : (poly coeffs).degree < coeffs.length := by
  rw [degree_lt_iff_coeff_zero]
  intro i hi
  rw [coeff_poly, List.getElem?_eq_none hi, Option.getD_none]

/-- Coefficients of one number are determined by the polynomial. -/
theorem poly_injective {cs ds : List K} (hlen : cs.length = ds.length) (h : poly cs = poly ds) :
    cs = ds := by
  refine List.ext_getElem hlen fun i hc hd => ?_
  have hi := congrArg (fun p => p.coeff i) h
  simpa only [coeff_poly, List.getElem?_eq_getElem hc, List.getElem?_eq_getElem hd,
    Option.getD_some] using hi

/-- Every polynomial of degree below `n` has `n` coefficients. -/
theorem poly_ofFn_coeff {n : ℕ} {p : K[X]} (hp : p.degree < n) :
    poly (List.ofFn fun i : Fin n => p.coeff i) = p := by
  ext i
  rw [coeff_poly]
  by_cases hi : i < n
  · rw [List.getElem?_eq_getElem (by simpa using hi), List.getElem_ofFn, Option.getD_some]
  · rw [List.getElem?_eq_none (by simpa using hi), Option.getD_none,
      (degree_lt_iff_coeff_zero _ _).1 hp i (not_lt.1 hi)]

/-- The value at zero that interpolation gives `n` points. -/
def recover {n : ℕ} (x y : Fin n → K) : K :=
  ∑ i, y i * ((∏ j ∈ Finset.univ.erase i, -x j) * (∏ j ∈ Finset.univ.erase i, (x i - x j))⁻¹)

/-- **The secret comes back.** Points at distinct abscissas, no fewer than the polynomial has
coefficients, interpolate to its value at zero. -/
theorem recover_eq {n : ℕ} {x : Fin n → K} (hx : Function.Injective x) {secret : K} {cs : List K}
    (hn : cs.length < n) :
    recover x (fun i => horner (secret :: cs) (x i)) = secret := by
  have hdeg : (poly (secret :: cs)).degree < (Finset.univ : Finset (Fin n)).card := by
    refine lt_of_lt_of_le (degree_poly_lt _) ?_
    rw [Finset.card_univ, Fintype.card_fin]
    exact_mod_cast hn
  have hinterp := Lagrange.eq_interpolate_of_eval_eq (fun i => horner (secret :: cs) (x i))
    (v := x) hx.injOn hdeg fun i _ => eval_poly _ _
  have hzero : (poly (secret :: cs)).eval 0 = secret := by simp
  rw [hinterp, Lagrange.interpolate_apply, eval_finsetSum] at hzero
  refine Eq.trans (Finset.sum_congr rfl fun i _ => ?_) hzero
  rw [eval_mul, eval_C, Lagrange.basis, eval_prod, ← Finset.prod_inv_distrib,
    ← Finset.prod_mul_distrib]
  refine congrArg _ (Finset.prod_congr rfl fun j _ => ?_)
  rw [Lagrange.basisDivisor]
  simp [mul_comm]

/-- **Fewer points fix nothing.** For values at `m` distinct non-zero abscissas, each secret has
exactly one choice of `m` further coefficients that takes those values. -/
theorem existsUnique_coeffs {ι : Type*} [DecidableEq ι] {s : Finset ι} {x : ι → K} (hx : Set.InjOn x s)
    (hne : ∀ i ∈ s, x i ≠ 0) (secret : K) (y : ι → K) :
    ∃! c : Fin s.card → K, ∀ i ∈ s, horner (secret :: List.ofFn c) (x i) = y i := by
  -- the values asked of the part of the polynomial above its constant coefficient
  have hpoly : ∀ c : Fin s.card → K, (∀ i ∈ s, horner (secret :: List.ofFn c) (x i) = y i) ↔
      poly (List.ofFn c) = Lagrange.interpolate s x fun i => (y i - secret) / x i := by
    intro c
    have hdeg : (poly (List.ofFn c)).degree < s.card := by
      simpa using degree_poly_lt (List.ofFn c)
    constructor
    · intro h
      refine Lagrange.eq_interpolate_of_eval_eq _ hx hdeg fun i hi => ?_
      rw [eval_poly, eq_div_iff (hne i hi), eq_sub_iff_add_eq]
      exact h i hi
    · intro h i hi
      have hi' := congrArg (eval (x i)) h
      rw [eval_poly, Lagrange.eval_interpolate_at_node _ hx hi, eq_div_iff (hne i hi),
        eq_sub_iff_add_eq] at hi'
      exact hi'
  refine ⟨fun i => (Lagrange.interpolate s x fun i => (y i - secret) / x i).coeff i,
    (hpoly _).2 (poly_ofFn_coeff (Lagrange.degree_interpolate_lt _ hx)), fun c hc => ?_⟩
  refine List.ofFn_injective (poly_injective (by simp) ?_)
  rw [(hpoly c).1 hc, poly_ofFn_coeff (Lagrange.degree_interpolate_lt _ hx)]

end

end Sharing
