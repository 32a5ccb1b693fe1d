import ShadePay.Lib.Rejection
import ShadePay.Mpc.Sharing

/-!
# What too few shares say

`randomFieldElement` of `packages/mpc-crypto/src/shamir.ts` rejects a draw above the largest
multiple of `P`, so its values are uniform. With uniform coefficients any `threshold - 1` shares of
`shamirSplit` have one distribution whatever the secret is.
-/

open scoped ENNReal

namespace ShadePay.Mpc

/-! ## The sampler -/

/-- A byte is one of 256. -/
instance instFintypeUInt8 : Fintype UInt8 :=
  Fintype.ofEquiv (Fin 256) ⟨UInt8.ofFin, UInt8.toFin, fun _ => rfl, fun _ => rfl⟩

instance : Nonempty Buffer := ⟨⟨List.replicate 32 0, List.length_replicate⟩⟩

/-- The value one draw of `randomFieldElement` yields; `none` when it draws again. -/
def accept (buf : Buffer) : Option (Fin bn254) :=
  if rejectionLimit ≤ raw buf then none else some (Fin.ofNat bn254 (Bytes.toNat buf.toList))

/-- Values drawn, as coefficients. -/
def coefficients {n : ℕ} (c : Fin n → Fin bn254) : List ℤ := List.ofFn fun i => ((c i : ℕ) : ℤ)

/-- `randomFieldElement` returns the first value accepted. -/
theorem randomFieldElement_fst (tape : List Buffer) :
    (randomFieldElement tape).map Prod.fst =
      (Rejection.collect accept 1 tape).map fun c => ((c 0 : ℕ) : ℤ) := by
  induction tape with
  | nil => rfl
  | cons buf tape ih =>
      rw [randomFieldElement, Rejection.collect, accept]
      split
      · exact ih
      · simp [Rejection.collect, raw, P, Int.tmod_eq_emod_of_nonneg]

/-- The coefficients of `shamirSplit` are the first values accepted. -/
theorem randomCoefficients_eq (n : ℕ) (tape : List Buffer) :
    randomCoefficients n tape = (Rejection.collect accept n tape).map coefficients := by
  induction tape generalizing n with
  | nil => cases n <;> rfl
  | cons buf tape ih =>
      cases n with
      | zero => rfl
      | succ n =>
          have ih' := ih (n + 1)
          rw [randomCoefficients] at ih' ⊢
          rw [randomFieldElement, Rejection.collect, accept]
          split
          · exact ih'
          · simp only [Option.bind_eq_bind, Option.bind_some, ih, Option.pure_def]
            cases Rejection.collect accept n tape with
            | none => rfl
            | some c =>
                simp [coefficients, List.ofFn_succ, raw, P, Int.tmod_eq_emod_of_nonneg]

/-- `2 ^ 256` holds five multiples of the prime. -/
theorem rejectionLimit_eq : rejectionLimit = 5 * bn254 ∧ 5 * bn254 ≤ 256 ^ 32 := by decide

/-- A draw is accepted as `r` when it is one of the five numbers below the limit that leave `r`. -/
theorem accept_eq_some_iff (r : Fin bn254) (buf : Buffer) :
    some r = accept buf ↔
      Bytes.toNat buf.toList < 5 * bn254 ∧ Bytes.toNat buf.toList % bn254 = r := by
  rw [accept, rejectionLimit_eq.1, raw]
  split
  · simp only [reduceCtorEq, false_iff, not_and]
    omega
  · rw [Option.some.injEq, Fin.ext_iff, Fin.val_ofNat, eq_comm]
    exact ⟨fun h => ⟨by omega, h⟩, And.right⟩

/-- Each value has five buffers. -/
theorem card_accept (r : Fin bn254) [DecidablePred fun buf => some r = accept buf] :
    (Finset.univ.filter fun buf => some r = accept buf).card = 5 := by
  have hpos : 0 < bn254 := bn254_prime.pos
  rw [Finset.filter_congr fun buf _ => accept_eq_some_iff r buf]
  refine Eq.trans ?_ (Finset.card_range 5)
  refine Finset.card_bij (fun buf _ => Bytes.toNat buf.toList / bn254) ?_ ?_ ?_
  · simp only [Finset.mem_filter_univ]
    intro buf hbuf
    exact Finset.mem_range.2 ((Nat.div_lt_iff_lt_mul hpos).2 hbuf.1)
  · simp only [Finset.mem_filter_univ]
    intro buf hbuf buf' hbuf' heq
    refine List.Vector.toList_injective (Bytes.toNat_injective (by simp) ?_)
    rw [← Nat.div_add_mod (Bytes.toNat buf.toList) bn254, heq, hbuf.2, ← hbuf'.2, Nat.div_add_mod]
  · intro j hj
    have hj' := Finset.mem_range.1 hj
    have hr := r.isLt
    have hlt : bn254 * j + r < 5 * bn254 := by nlinarith
    have hval : Bytes.toNat (Bytes.ofNat 32 (bn254 * j + r)) = bn254 * j + r :=
      Bytes.toNat_ofNat_of_lt (lt_of_lt_of_le hlt rejectionLimit_eq.2)
    obtain ⟨buf, hbuf⟩ : ∃ buf : Buffer, buf.toList = Bytes.ofNat 32 (bn254 * j + r) :=
      ⟨⟨_, Bytes.length_ofNat _ _⟩, rfl⟩
    refine ⟨buf, ?_, ?_⟩
    · rw [Finset.mem_filter_univ, hbuf, hval, Nat.mul_add_mod, Nat.mod_eq_of_lt hr]
      exact ⟨hlt, rfl⟩
    · rw [hbuf, hval, Nat.mul_add_div hpos, Nat.div_eq_of_lt hr, add_zero]

/-- A draw is accepted as any value with one probability. -/
theorem map_accept_some (r : Fin bn254) :
    (PMF.uniformOfFintype Buffer).map accept (some r) = 5 * (Fintype.card Buffer : ℝ≥0∞)⁻¹ := by
  classical
  rw [PMF.map_apply, tsum_fintype]
  simp only [PMF.uniformOfFintype_apply]
  rw [← Finset.sum_filter, Finset.sum_const, card_accept, nsmul_eq_mul, Nat.cast_ofNat]

/-- How likely `randomFieldElement` is to return a number on a tape of `k` buffers. -/
theorem map_randomFieldElement (k : ℕ) {r : ℤ} (hr : 0 ≤ r) (hP : r < P) :
    (Rejection.draws (PMF.uniformOfFintype Buffer) k).map
        (fun tape => (randomFieldElement tape).map Prod.fst) (some r) =
      Rejection.law (PMF.uniformOfFintype Buffer) accept k 1
        (some fun _ => Fin.ofNat bn254 r.toNat) := by
  have hinj : Function.Injective fun c : Fin 1 → Fin bn254 => ((c 0 : ℕ) : ℤ) := by
    intro c c' h
    refine funext fun i => ?_
    rw [Subsingleton.elim i 0]
    exact Fin.ext (Int.natCast_inj.1 h)
  have hval : ((Fin.ofNat bn254 r.toNat : ℕ) : ℤ) = r := by
    rw [Fin.val_ofNat, Nat.mod_eq_of_lt, Int.toNat_of_nonneg hr]
    rw [P] at hP
    omega
  have hmap := Rejection.map_apply_of_injective
    (Rejection.law (PMF.uniformOfFintype Buffer) accept k 1) (Option.map_injective hinj)
    (some fun _ => Fin.ofNat bn254 r.toNat)
  rw [Option.map_some, hval, Rejection.law, PMF.map_comp] at hmap
  refine Eq.trans ?_ hmap
  exact congrArg (fun f => PMF.map f _ (some r)) (funext randomFieldElement_fst)

/-! ## Too few shares -/

/-- A number below the prime is a residue. -/
def residue : Fin bn254 ≃ Bn254 where
  toFun x := ((x : ℕ) : Bn254)
  invFun z := ⟨z.val, ZMod.val_lt z⟩
  left_inv x := Fin.ext (ZMod.val_cast_of_lt x.isLt)
  right_inv z := ZMod.natCast_zmod_val z

theorem getElem?_sharesOf (coeffs : List ℤ) {total i : ℕ} (hi : i < total) :
    (sharesOf coeffs total)[i]? = some ⟨(i : ℤ) + 1, evaluate coeffs ((i : ℤ) + 1)⟩ := by
  simp [sharesOf, hi]

theorem evaluate_mem (c : ℤ) (cs : List ℤ) (x : ℤ) :
    0 ≤ evaluate (c :: cs) x ∧ evaluate (c :: cs) x < P := by
  rw [evaluate, List.foldr_cons]
  exact ⟨modp_nonneg _, modp_lt _⟩

/-- The share at a position carries a value exactly when the polynomial takes it there. -/
theorem getElem?_sharesOf_eq_some_iff (secret : ℤ) {n total i : ℕ} (c : Fin n → Fin bn254)
    (hi : i < total) {y : ℤ} (hy : 0 ≤ y ∧ y < P) :
    (sharesOf (modp secret :: coefficients c) total)[i]? = some ⟨(i : ℤ) + 1, y⟩ ↔
      Sharing.horner ((secret : Bn254) :: List.ofFn fun j => residue (c j)) (i + 1) = y := by
  have hcast : ((evaluate (modp secret :: coefficients c) ((i : ℤ) + 1) : ℤ) : Bn254) =
      Sharing.horner ((secret : Bn254) :: List.ofFn fun j => residue (c j)) (i + 1) := by
    rw [cast_evaluate, List.map_cons, cast_modp, coefficients, List.map_ofFn]
    simp [residue, Function.comp_def]
  rw [getElem?_sharesOf _ hi, ← hcast, Option.some.injEq, Share.mk.injEq]
  refine ⟨fun h => congrArg _ h.2, fun h => ⟨rfl, eq_of_cast_eq (evaluate_mem _ _ _) hy h⟩⟩

/-- **One choice of coefficients explains each secret.** -/
theorem existsUnique_coefficients (secret : ℤ) {total : ℕ} (hP : (total : ℤ) < P) {I : Finset ℕ}
    (hI : ∀ i ∈ I, i < total) {y : ℕ → ℤ} (hy : ∀ i ∈ I, 0 ≤ y i ∧ y i < P) :
    ∃! c : Fin I.card → Fin bn254, ∀ i ∈ I,
      (sharesOf (modp secret :: coefficients c) total)[i]? = some ⟨(i : ℤ) + 1, y i⟩ := by
  -- the positions are below `P`, so they are distinct residues other than zero
  have hpos : ∀ i ∈ I, 0 ≤ (i : ℤ) + 1 ∧ (i : ℤ) + 1 < P := by
    intro i hi
    have := hI i hi
    omega
  have hinj : Set.InjOn (fun i : ℕ => (i : Bn254) + 1) I := by
    intro i hi j hj hij
    have := @eq_of_cast_eq ((i : ℤ) + 1) ((j : ℤ) + 1) (hpos i hi) (hpos j hj) (by simpa using hij)
    omega
  have hne : ∀ i ∈ I, (i : Bn254) + 1 ≠ 0 := by
    intro i hi h
    have := @eq_of_cast_eq ((i : ℤ) + 1) 0 (hpos i hi) ⟨le_rfl, P_pos⟩ (by simpa using h)
    omega
  refine ((Equiv.piCongrRight fun _ : Fin I.card => residue).existsUnique_congr ?_).2
    (Sharing.existsUnique_coeffs hinj hne (secret : Bn254) fun i => (y i : Bn254))
  intro c
  exact forall₂_congr fun i hi => getElem?_sharesOf_eq_some_iff secret c (hI i hi) (hy i hi)

/-- The shares at some positions of a list of shares. -/
def sharesAt (I : Finset ℕ) (shares : List Share) : I → Option Share := fun i => shares[(i : ℕ)]?

/-- Coefficients that give one secret the shares that others give another secret. -/
theorem exists_perm (secret secret' : ℤ) {total : ℕ} (hP : (total : ℤ) < P) {I : Finset ℕ}
    (hI : ∀ i ∈ I, i < total) :
    ∃ e : Equiv.Perm (Fin I.card → Fin bn254), ∀ c,
      sharesAt I (sharesOf (modp secret' :: coefficients (e c)) total) =
        sharesAt I (sharesOf (modp secret :: coefficients c) total) := by
  have hexplain : ∀ (s s' : ℤ) (c : Fin I.card → Fin bn254),
      ∃! c' : Fin I.card → Fin bn254, ∀ i ∈ I,
        (sharesOf (modp s' :: coefficients c') total)[i]? =
          some ⟨(i : ℤ) + 1, evaluate (modp s :: coefficients c) ((i : ℤ) + 1)⟩ :=
    fun s s' c => existsUnique_coefficients s' hP hI fun i _ => evaluate_mem _ _ _
  choose e he using fun c => (hexplain secret secret' c).exists
  -- coefficients that are sent to the same ones have the same shares
  have hinj : Function.Injective e := by
    intro c c' hcc
    refine (hexplain secret secret c).unique (fun i hi => getElem?_sharesOf _ (hI i hi)) ?_
    intro i hi
    rw [getElem?_sharesOf _ (hI i hi), ← getElem?_sharesOf (modp secret :: coefficients c') (hI i hi),
      getElem?_sharesOf _ (hI i hi), ← he c' i hi, ← hcc, he c i hi]
  refine ⟨Equiv.ofBijective e (Finite.injective_iff_bijective.1 hinj), fun c => ?_⟩
  funext i
  rw [sharesAt, sharesAt, Equiv.ofBijective_apply, he c i i.2, getElem?_sharesOf _ (hI i i.2)]

/-- **Fewer shares than the threshold reveal nothing.** Whatever `threshold - 1` shares say, each
secret has exactly one choice of coefficients that produces them. So uniform coefficients give
those shares one distribution for every two secrets, and so does `shamirSplit` on a tape of random
buffers of any length: `randomFieldElement` yields each number below `P` with the same probability,
`1 / P` when the tape does not end. -/
theorem shares_reveal_nothing {threshold total : ℕ} (ht : 2 ≤ threshold) (hle : threshold ≤ total)
    (hP : (total : ℤ) < P) {I : Finset ℕ} (hI : ∀ i ∈ I, i < total)
    (hcard : I.card = threshold - 1) :
    (∀ (secret : ℤ) (y : ℕ → ℤ), (∀ i ∈ I, 0 ≤ y i ∧ y i < P) →
      ∃! c : Fin (threshold - 1) → Fin bn254, ∀ i ∈ I,
        (sharesOf (modp secret :: coefficients c) total)[i]? = some ⟨(i : ℤ) + 1, y i⟩) ∧
    (∀ secret secret' : ℤ,
      (PMF.uniformOfFintype (Fin (threshold - 1) → Fin bn254)).map
          (fun c => sharesAt I (sharesOf (modp secret :: coefficients c) total)) =
        (PMF.uniformOfFintype (Fin (threshold - 1) → Fin bn254)).map
          fun c => sharesAt I (sharesOf (modp secret' :: coefficients c) total)) ∧
    (∀ (k : ℕ) (secret secret' : ℤ),
      (Rejection.draws (PMF.uniformOfFintype Buffer) k).map
          (fun tape => (shamirSplit secret threshold total tape).map (Option.map (sharesAt I))) =
        (Rejection.draws (PMF.uniformOfFintype Buffer) k).map
          fun tape => (shamirSplit secret' threshold total tape).map (Option.map (sharesAt I))) ∧
    ∀ r : ℤ, 0 ≤ r → r < P →
      (∀ (k : ℕ) (r' : ℤ), 0 ≤ r' → r' < P →
        (Rejection.draws (PMF.uniformOfFintype Buffer) k).map
            (fun tape => (randomFieldElement tape).map Prod.fst) (some r) =
          (Rejection.draws (PMF.uniformOfFintype Buffer) k).map
            (fun tape => (randomFieldElement tape).map Prod.fst) (some r')) ∧
      ⨆ k, (Rejection.draws (PMF.uniformOfFintype Buffer) k).map
          (fun tape => (randomFieldElement tape).map Prod.fst) (some r) = (bn254 : ℝ≥0∞)⁻¹ := by
  have haccept : ∀ b b', (PMF.uniformOfFintype Buffer).map accept (some b) =
      (PMF.uniformOfFintype Buffer).map accept (some b') := by
    intro b b'
    rw [map_accept_some, map_accept_some]
  refine ⟨?_, ?_, ?_, ?_⟩
  · rw [← hcard]
    exact fun secret y hy => existsUnique_coefficients secret hP hI hy
  · intro secret secret'
    rw [← hcard]
    obtain ⟨e, he⟩ := exists_perm secret secret' hP hI
    exact Rejection.map_eq_of_perm e (fun c => by simp) he
  · intro k secret secret'
    obtain ⟨e, he⟩ := exists_perm secret secret' hP hI
    have hsplit : ∀ (s : ℤ) (tape : List Buffer),
        (shamirSplit s threshold total tape).map (Option.map (sharesAt I)) =
          .ok ((Rejection.collect accept I.card tape).map fun c =>
            sharesAt I (sharesOf (modp s :: coefficients c) total)) := by
      intro s tape
      rw [shamirSplit, if_neg (by omega), randomCoefficients_eq, hcard, Except.map, Option.map_map,
        Option.map_map]
      rfl
    simp only [hsplit]
    have hmap := Rejection.map_collect_eq
      (f := fun c => sharesAt I (sharesOf (modp secret :: coefficients c) total))
      (g := fun c => sharesAt I (sharesOf (modp secret' :: coefficients c) total)) haccept e he k
    have hok := congrArg (PMF.map (@Except.ok String _)) hmap
    rwa [PMF.map_comp, PMF.map_comp] at hok
  · intro r hr hrP
    refine ⟨fun k r' hr' hrP' => ?_, ?_⟩
    · rw [map_randomFieldElement k hr hrP, map_randomFieldElement k hr' hrP']
      exact Rejection.law_const haccept k 1 _ _
    · simp only [fun k => map_randomFieldElement k hr hrP]
      rw [Rejection.iSup_collect_one haccept, Fintype.card_fin]
      intro b
      rw [map_accept_some]
      exact mul_ne_zero (by norm_num) (ENNReal.inv_ne_zero.2 (ENNReal.natCast_ne_top _))

/-- One coefficient puts `11` at share 2 of the secret 5, for a threshold of two among three. -/
theorem shares_reveal_nothing_two :
    ∃! c : Fin 1 → Fin bn254, ∀ i ∈ ({1} : Finset ℕ),
      (sharesOf (modp 5 :: coefficients c) 3)[i]? = some ⟨(i : ℤ) + 1, 11⟩ :=
  (@shares_reveal_nothing 2 3 (by decide) (by decide) (by decide) {1} (by decide)
    (by decide)).1 5 (fun _ => 11) (by decide)

end ShadePay.Mpc
