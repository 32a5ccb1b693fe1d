import Mathlib

/-!
# Rejection sampling on a tape of draws

A sampler reads independent draws from a tape and keeps those its test accepts. When every value
is accepted with one probability, the values kept are uniform however long the tape is
(`map_collect_eq`), and on a tape as long as needed each single value has its full share
(`iSup_collect_one`).
-/

open scoped ENNReal

namespace Rejection

/-- A distribution read through an injective function keeps its masses. -/
theorem map_apply_of_injective {α γ : Type*} (p : PMF α) {f : α → γ} (hf : Function.Injective f)
    (a : α) : p.map f (f a) = p a := by
  rw [PMF.map_apply, tsum_eq_single a fun b hb => if_neg fun h => hb (hf h).symm, if_pos rfl]

/-- A distribution read through two functions is the same when a permutation that keeps its masses
carries one function to the other. -/
theorem map_eq_of_perm {α γ : Type*} {p : PMF α} (e : Equiv.Perm α) (hp : ∀ a, p (e a) = p a)
    {f g : α → γ} (h : ∀ a, g (e a) = f a) : p.map f = p.map g := by
  have hmap : p.map e = p := by
    ext b
    have hb := map_apply_of_injective p e.injective (e.symm b)
    rwa [e.apply_symm_apply, ← hp, e.apply_symm_apply] at hb
  calc p.map f = p.map (g ∘ e) := congrArg p.map (funext fun a => (h a).symm)
    _ = (p.map e).map g := (PMF.map_comp e p g).symm
    _ = p.map g := by rw [hmap]

section
variable {α β : Type*}

/-- The first `n` accepted draws of a tape; `none` when the tape ends before. -/
def collect (accept : α → Option β) : (n : ℕ) → List α → Option (Fin n → β)
  | 0, _ => some Fin.elim0
  | _ + 1, [] => none
  | n + 1, a :: tape =>
      match accept a with
      | none => collect accept (n + 1) tape
      | some b => (collect accept n tape).map fun c => @Fin.cons n (fun _ => β) b c

/-- A tape of `k` independent draws. -/
noncomputable def draws (μ : PMF α) : ℕ → PMF (List α)
  | 0 => PMF.pure []
  | k + 1 => μ.bind fun a => (draws μ k).map (a :: ·)

/-- The distribution of the first `n` accepted draws of a tape of `k`. -/
noncomputable def law (μ : PMF α) (accept : α → Option β) (k n : ℕ) : PMF (Option (Fin n → β)) :=
  (draws μ k).map (collect accept n)

variable {μ : PMF α} {accept : α → Option β}

/-- No sample is asked for. -/
theorem law_zero (k : ℕ) : law μ accept k 0 = PMF.pure (some Fin.elim0) := by
  have hconst : collect accept 0 = Function.const (List α) (some Fin.elim0) :=
    funext fun tape => by rw [collect]; rfl
  rw [law, hconst, PMF.map_const]

theorem law_nil (n : ℕ) : law μ accept 0 (n + 1) = PMF.pure none := by
  rw [law, draws, PMF.pure_map, collect]

/-- The first draw is rejected and the rest of the tape answers, or it is the first value kept. -/
theorem law_succ (k n : ℕ) :
    law μ accept (k + 1) (n + 1) = (μ.map accept).bind fun
      | none => law μ accept k (n + 1)
      | some b => (law μ accept k n).map (Option.map fun c => @Fin.cons n (fun _ => β) b c) := by
  rw [law, draws, PMF.map_bind, PMF.bind_map]
  congr 1
  funext a
  rw [PMF.map_comp, Function.comp_apply]
  cases ha : accept a with
  | none =>
      refine congrArg (PMF.map · _) (funext fun tape => ?_)
      rw [Function.comp_apply, collect, ha]
  | some b =>
      simp only
      rw [law, PMF.map_comp]
      refine congrArg (PMF.map · _) (funext fun tape => ?_)
      rw [Function.comp_apply, collect, ha, Function.comp_apply]

/-- Values that start with `b` are `b` and the values after it. -/
theorem map_cons_apply [DecidableEq β] {n : ℕ} (p : PMF (Option (Fin n → β))) (b : β)
    (c : Fin (n + 1) → β) :
    (p.map (Option.map fun c => @Fin.cons n (fun _ => β) b c)) (some c) =
      if b = c 0 then p (some (Fin.tail c)) else 0 := by
  rw [PMF.map_apply]
  have hcons : ∀ o : Option (Fin n → β),
      some c = o.map (fun c => @Fin.cons n (fun _ => β) b c) ↔
        b = c 0 ∧ o = some (Fin.tail c) := by
    intro o
    cases o with
    | none => simp
    | some d =>
        simp only [Option.map_some, Option.some.injEq]
        constructor
        · rintro rfl
          exact ⟨rfl, rfl⟩
        · rintro ⟨rfl, rfl⟩
          exact (Fin.cons_self_tail c).symm
  simp only [hcons]
  by_cases hb : b = c 0
  · simp only [hb, true_and, if_true]
    rw [tsum_eq_single (some (Fin.tail c)) fun o ho => if_neg ho, if_pos rfl]
  · simp [hb]

/-- How likely a tape one draw longer is to give the values `c`. -/
theorem law_succ_apply [Fintype β] (k n : ℕ) (c : Fin (n + 1) → β) :
    law μ accept (k + 1) (n + 1) (some c) =
      μ.map accept none * law μ accept k (n + 1) (some c) +
        μ.map accept (some (c 0)) * law μ accept k n (some (Fin.tail c)) := by
  classical
  rw [law_succ, PMF.bind_apply, tsum_fintype, Fintype.sum_option]
  simp only [map_cons_apply]
  rw [Finset.sum_eq_single (c 0) (fun b _ hb => by rw [if_neg hb, mul_zero])
    fun h => absurd (Finset.mem_univ _) h, if_pos rfl]

/-- Values accepted with one probability come out in every combination alike. -/
theorem law_const [Fintype β]
    (haccept : ∀ b b', μ.map accept (some b) = μ.map accept (some b'))
    (k : ℕ) : ∀ (n : ℕ) (c c' : Fin n → β), law μ accept k n (some c) = law μ accept k n (some c') := by
  induction k with
  | zero =>
      intro n c c'
      cases n with
      | zero => rw [Subsingleton.elim c c']
      | succ n => rw [law_nil, PMF.pure_apply, PMF.pure_apply, if_neg (by simp), if_neg (by simp)]
  | succ k ih =>
      intro n c c'
      cases n with
      | zero => rw [Subsingleton.elim c c']
      | succ n => rw [law_succ_apply, law_succ_apply, ih (n + 1) c c', haccept (c 0) (c' 0),
          ih n (Fin.tail c) (Fin.tail c')]

/-- **The values kept are uniform.** On a tape of any length, what is read of them does not change
when they are permuted. -/
theorem map_collect_eq [Fintype β]
    (haccept : ∀ b b', μ.map accept (some b) = μ.map accept (some b'))
    {γ : Type*} {n : ℕ} (e : Equiv.Perm (Fin n → β)) {f g : (Fin n → β) → γ}
    (h : ∀ c, g (e c) = f c) (k : ℕ) :
    (draws μ k).map (fun tape => (collect accept n tape).map f) =
      (draws μ k).map fun tape => (collect accept n tape).map g := by
  have hperm := @map_eq_of_perm _ _ (law μ accept k n) e.optionCongr
    (fun o => by
      cases o with
      | none => rfl
      | some c => exact law_const haccept k n (e c) c)
    (Option.map f) (Option.map g)
    (fun o => by
      cases o with
      | none => rfl
      | some c => exact congrArg some (h c))
  rwa [law, PMF.map_comp, PMF.map_comp] at hperm

/-- A single value on a tape of `k` draws: accepted at some draw after rejections only. -/
theorem law_one [Fintype β] (k : ℕ) (c : Fin 1 → β) :
    law μ accept k 1 (some c) =
      ∑ i ∈ Finset.range k, μ.map accept none ^ i * μ.map accept (some (c 0)) := by
  induction k with
  | zero => simp [law_nil]
  | succ k ih =>
      rw [law_succ_apply, ih, Finset.sum_range_succ', law_zero, Finset.mul_sum, PMF.pure_apply,
        if_pos (congrArg some (Subsingleton.elim _ _))]
      congr 1
      · exact Finset.sum_congr rfl fun i _ => by rw [pow_succ', mul_assoc]
      · simp

/-- **Each value has its full share.** As the tape grows, a value kept with one probability among
finitely many is kept with the inverse of their number. -/
theorem iSup_collect_one [Fintype β] [Nonempty β]
    (haccept : ∀ b b', μ.map accept (some b) = μ.map accept (some b'))
    (hpos : ∀ b, μ.map accept (some b) ≠ 0) (c : Fin 1 → β) :
    ⨆ k, law μ accept k 1 (some c) = (Fintype.card β : ℝ≥0∞)⁻¹ := by
  have hcard : (Fintype.card β : ℝ≥0∞) ≠ 0 := by simp
  -- what is not rejected is spread evenly
  have hsum : μ.map accept none + Fintype.card β * μ.map accept (some (c 0)) = 1 := by
    have htotal := (μ.map accept).tsum_coe
    rw [tsum_fintype, Fintype.sum_option,
      Finset.sum_congr rfl fun b _ => haccept b (c 0), Finset.sum_const, nsmul_eq_mul,
      Finset.card_univ] at htotal
    exact htotal
  have hnone : 1 - μ.map accept none = Fintype.card β * μ.map accept (some (c 0)) := by
    rw [← hsum]
    exact ENNReal.add_sub_cancel_left (PMF.apply_ne_top _ _)
  simp only [law_one]
  rw [← ENNReal.tsum_eq_iSup_nat, ENNReal.tsum_mul_right, ENNReal.tsum_geometric, hnone,
    ENNReal.mul_inv (Or.inl hcard) (Or.inl (ENNReal.natCast_ne_top _)), mul_assoc,
    ENNReal.inv_mul_cancel (hpos _) (PMF.apply_ne_top _ _), mul_one]

end

end Rejection
