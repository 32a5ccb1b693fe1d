import ShadePay.Mpc.Shamir
import ShadePay.Lib.Bytes
import ShadePay.Lib.Sharing

/-!
# Splitting an amount and putting it together again

`shamirSplit` of `packages/mpc-crypto/src/shamir.ts` and the one of `packages/sdk/src/mpc.ts`, both
read by the committee's `shamirReconstruct`. The bytes a random source returns are a tape of 32-byte
buffers. Shares of either split, as many as the threshold and at distinct positions, give the secret
back.
-/

namespace ShadePay.Mpc

/-! ## The two splits -/

/-- The 32 bytes of one `randomBytes(32)`. -/
abbrev Buffer := List.Vector UInt8 32

/-- `BigInt("0x" + hex)` of a buffer. -/
def raw (buf : Buffer) : ℤ := Bytes.toNat buf.toList

/-- `REJECTION_LIMIT`. -/
def rejectionLimit : ℤ := (2 ^ 256 : ℤ).tdiv P * P

/-- `randomFieldElement`, and the buffers it leaves; `none` when the tape ends inside the loop. -/
def randomFieldElement : List Buffer → Option (ℤ × List Buffer)
  | [] => none
  | buf :: tape =>
      if rejectionLimit ≤ raw buf then randomFieldElement tape else some ((raw buf).tmod P, tape)

/-- The coefficients that the first loop of `shamirSplit` pushes. -/
def randomCoefficients : ℕ → List Buffer → Option (List ℤ)
  | 0, _ => some []
  | n + 1, tape => do
      let (c, tape) ← randomFieldElement tape
      let cs ← randomCoefficients n tape
      return c :: cs

/-- The inner loop of `shamirSplit`, from the highest coefficient down. -/
def evaluate (coeffs : List ℤ) (x : ℤ) : ℤ := coeffs.foldr (fun c y => modp (y * x + c)) 0

/-- The shares `1, …, total` of a polynomial. -/
def sharesOf (coeffs : List ℤ) (total : ℕ) : List Share :=
  (List.range total).map fun i : ℕ => ⟨(i : ℤ) + 1, evaluate coeffs ((i : ℤ) + 1)⟩

/-- `shamirSplit`: `none` when it still waits for bytes. -/
def shamirSplit (secret : ℤ) (threshold total : ℕ) (tape : List Buffer) :
    Except String (Option (List Share)) :=
  if threshold < 2 ∨ threshold > total then .error "invalid threshold"
  else .ok ((randomCoefficients (threshold - 1) tape).map fun cs =>
    sharesOf (modp secret :: cs) total)

/-- `randomFieldElement` of the SDK, which reduces whatever it draws. -/
def Sdk.randomFieldElement (buf : Buffer) : ℤ := modp (raw buf)

/-- `shamirSplit` of the SDK, which does not look at the threshold. -/
def Sdk.shamirSplit (secret : ℤ) (threshold total : ℕ) (tape : List Buffer) :
    Option (List Share) :=
  if tape.length < threshold - 1 then none
  else some (sharesOf
    (modp secret :: (tape.take (threshold - 1)).map Sdk.randomFieldElement) total)

/-! ## Arithmetic modulo the prime -/

theorem P_pos : 0 < P := by decide

/-- `modp` is the remainder that is not negative. -/
theorem modp_eq (x : ℤ) : modp x = x % P := by
  have hP := P_pos
  have hlt : -P < x.tmod P := by
    have := Int.lt_tmod_of_pos x hP
    omega
  rw [modp, Int.tmod_eq_emod_of_nonneg (by omega), Int.add_emod_right]
  -- both remainders are congruent to `x`
  have hx : x.tmod P = x - P * x.tdiv P := by rw [Int.tmod_def]
  rw [hx, Int.sub_mul_emod_self_left]

/-- A residue is not negative. -/
theorem modp_nonneg (x : ℤ) : 0 ≤ modp x := by
  rw [modp_eq]
  exact Int.emod_nonneg _ P_pos.ne'

/-- A residue is below the modulus. -/
theorem modp_lt (x : ℤ) : modp x < P := by
  rw [modp_eq]
  exact Int.emod_lt_of_pos _ P_pos

@[simp] theorem cast_P : ((P : ℤ) : Bn254) = 0 := by
  rw [P, Int.cast_natCast, CharP.cast_eq_zero]

/-- `modp` keeps the residue. -/
@[simp] theorem cast_modp (x : ℤ) : ((modp x : ℤ) : Bn254) = x := by
  rw [modp_eq, ZMod.intCast_eq_intCast_iff]
  exact Int.mod_modEq x P

/-- Numbers of `[0, P)` are their residues. -/
theorem eq_of_cast_eq {a b : ℤ} (ha : 0 ≤ a ∧ a < P) (hb : 0 ≤ b ∧ b < P)
    (h : (a : Bn254) = b) : a = b := by
  rw [ZMod.intCast_eq_intCast_iff] at h
  have hmod : a % P = b % P := h
  rwa [Int.emod_eq_of_lt ha.1 ha.2, Int.emod_eq_of_lt hb.1 hb.2] at hmod

/-- The loop of `modinv` keeps both rows of Euclid's scheme and the divisor they share. -/
theorem modinvLoop_mul (a : Bn254) (oldR r oldS s : ℤ) (hold : 0 ≤ oldR) (hr : 0 ≤ r)
    (holdS : (oldS : Bn254) * a = oldR) (hs : (s : Bn254) * a = r) (hgcd : Int.gcd oldR r = 1) :
    (modinvLoop oldR r oldS s : Bn254) * a = 1 := by
  induction oldR, r, oldS, s using modinvLoop.induct with
  | case1 oldR oldS s =>
      rw [Int.gcd_zero_right] at hgcd
      have hone : oldR = 1 := by omega
      rw [modinvLoop, if_pos rfl, holdS, hone, Int.cast_one]
  | case2 oldR r oldS s h q ih =>
      have hmod : oldR - q * r = oldR.tmod r := by rw [Int.tmod_def, mul_comm]
      rw [modinvLoop, if_neg h]
      refine ih hr (by rw [hmod]; exact Int.tmod_nonneg _ hold) hs ?_ ?_
      · rw [Int.cast_sub, Int.cast_sub, Int.cast_mul, Int.cast_mul, sub_mul, mul_assoc, holdS, hs]
      · rw [Int.gcd_comm, mul_comm q r, Int.gcd_sub_mul_left_left]
        exact hgcd

/-- A residue is zero in the field if and only if it is zero. -/
theorem cast_ne_zero_iff (a : ℤ) : (a : Bn254) ≠ 0 ↔ modp a ≠ 0 := by
  rw [modp_eq, ne_eq, ne_eq, ZMod.intCast_zmod_eq_zero_iff_dvd, ← Int.dvd_iff_emod_eq_zero]
  rfl

/-- `modinv` inverts every residue but zero. -/
theorem cast_modinv {a : ℤ} (ha : (a : Bn254) ≠ 0) : ((modinv a : ℤ) : Bn254) = (a : Bn254)⁻¹ := by
  refine eq_inv_of_mul_eq_one_left ?_
  rw [modinv, cast_modp]
  refine modinvLoop_mul a _ _ _ _ (modp_nonneg a) P_pos.le (by simp) (by simp) ?_
  have hndvd : ¬ bn254 ∣ (modp a).natAbs := by
    intro hdvd
    refine (cast_ne_zero_iff a).1 ha (Int.eq_zero_of_dvd_of_nonneg_of_lt (modp_nonneg a)
      (modp_lt a) ?_)
    exact Int.natCast_dvd.2 hdvd
  exact Nat.Coprime.symm ((Nat.Prime.coprime_iff_not_dvd bn254_prime).2 hndvd)

/-! ## Putting the shares together -/

/-- A list with the positions of its elements. -/
theorem zipIdx_eq_ofFn {α : Type*} (l : List α) :
    l.zipIdx = List.ofFn fun i : Fin l.length => (l[i], (i : ℕ)) := by
  refine List.ext_getElem (by simp) fun i h₁ h₂ => ?_
  simp

/-- The inner loop of `shamirReconstruct` multiplies over the other positions. -/
theorem cast_lagrange (i : ℕ) (si : Share) (l : List (Share × ℕ)) (acc : ℤ × ℤ) :
    (((lagrange i si l acc).1 : ℤ) : Bn254) =
        acc.1 * (l.map fun sj => if i = sj.2 then 1 else -(sj.1.x : Bn254)).prod ∧
      (((lagrange i si l acc).2 : ℤ) : Bn254) =
        acc.2 * (l.map fun sj => if i = sj.2 then 1 else (si.x : Bn254) - sj.1.x).prod := by
  induction l generalizing acc with
  | nil => simp [lagrange]
  | cons sj rest ih =>
      obtain ⟨sj, j⟩ := sj
      obtain ⟨num, den⟩ := acc
      by_cases hij : i = j
      · rw [lagrange, if_pos hij]
        simpa [hij] using ih (num, den)
      · rw [lagrange, if_neg hij]
        obtain ⟨h₁, h₂⟩ := ih (modp (num * modp (-sj.x)), modp (den * (si.x - sj.x)))
        rw [h₁, h₂]
        simp [hij, mul_assoc]

/-- The product over the other positions of a list. -/
theorem prod_zipIdx {l : List Share} (i : Fin l.length) (f : Share → Bn254) :
    (l.zipIdx.map fun sj => if (i : ℕ) = sj.2 then 1 else f sj.1).prod =
      ∏ j ∈ Finset.univ.erase i, f l[j] := by
  rw [zipIdx_eq_ofFn, List.map_ofFn, List.prod_ofFn,
    ← Finset.prod_erase Finset.univ (a := i) (by simp)]
  refine Finset.prod_congr rfl fun j hj => ?_
  rw [Function.comp_apply, if_neg fun h => (Finset.ne_of_mem_erase hj) (Fin.ext h.symm)]

/-- A loop that adds up modulo `P`. -/
theorem cast_foldl_modp {α : Type*} (f : α → ℤ) (l : List α) (acc : ℤ) :
    ((l.foldl (fun secret a => modp (secret + f a)) acc : ℤ) : Bn254) =
      acc + (l.map fun a => (f a : Bn254)).sum := by
  induction l generalizing acc with
  | nil => simp
  | cons a l ih =>
      rw [List.foldl_cons, ih, cast_modp]
      simp [add_assoc]

/-- A loop that adds up modulo `P` from zero ends below `P`. -/
theorem foldl_modp_mem {α : Type*} (f : α → ℤ) (l : List α) :
    0 ≤ l.foldl (fun secret a => modp (secret + f a)) 0 ∧
      l.foldl (fun secret a => modp (secret + f a)) 0 < P := by
  have hstep : ∀ acc : ℤ, 0 ≤ acc ∧ acc < P →
      0 ≤ l.foldl (fun secret a => modp (secret + f a)) acc ∧
        l.foldl (fun secret a => modp (secret + f a)) acc < P := by
    induction l with
    | nil => exact fun acc h => h
    | cons a l ih => exact fun acc _ => ih _ ⟨modp_nonneg _, modp_lt _⟩
  exact hstep 0 ⟨le_rfl, P_pos⟩

/-- What `shamirReconstruct` adds for the share at position `i`. -/
def term (shares : List Share) (si : Share × ℕ) : ℤ :=
  modp (si.1.y * modp ((lagrange si.2 si.1 shares.zipIdx (1, 1)).1 *
    modinv (lagrange si.2 si.1 shares.zipIdx (1, 1)).2))

/-- The outer loop is a fold over the shares. -/
theorem shamirReconstruct_eq (shares : List Share) :
    shamirReconstruct shares =
      shares.zipIdx.foldl (fun secret si => modp (secret + term shares si)) 0 := rfl

/-- Shares at distinct abscissas are interpolated at zero. -/
theorem cast_shamirReconstruct {shares : List Share}
    (hx : Function.Injective fun i : Fin shares.length => (shares[i].x : Bn254)) :
    (shamirReconstruct shares : Bn254) =
      Sharing.recover (fun i : Fin shares.length => (shares[i].x : Bn254))
        fun i => (shares[i].y : Bn254) := by
  rw [shamirReconstruct_eq, cast_foldl_modp, zipIdx_eq_ofFn, List.map_ofFn, List.sum_ofFn,
    Int.cast_zero, zero_add, Sharing.recover]
  refine Finset.sum_congr rfl fun i _ => ?_
  obtain ⟨hnum, hden⟩ := cast_lagrange i shares[i] shares.zipIdx (1, 1)
  rw [Int.cast_one, one_mul, prod_zipIdx i fun s => -(s.x : Bn254)] at hnum
  rw [Int.cast_one, one_mul, prod_zipIdx i fun s => (shares[i].x : Bn254) - s.x] at hden
  have hne : ((lagrange i shares[i] shares.zipIdx (1, 1)).2 : Bn254) ≠ 0 := by
    rw [hden, Finset.prod_ne_zero_iff]
    exact fun j hj => sub_ne_zero.2 fun h => Finset.ne_of_mem_erase hj (hx h.symm)
  rw [Function.comp_apply, term, cast_modp, Int.cast_mul, cast_modp, Int.cast_mul,
    cast_modinv hne, hnum, hden]

/-- The loop of `shamirSplit` is Horner's rule. -/
theorem cast_evaluate (coeffs : List ℤ) (x : ℤ) :
    ((evaluate coeffs x : ℤ) : Bn254) =
      Sharing.horner (coeffs.map fun c : ℤ => (c : Bn254)) x := by
  induction coeffs with
  | nil => simp [evaluate]
  | cons c cs ih =>
      rw [evaluate, List.foldr_cons, ← evaluate, cast_modp, Int.cast_add, Int.cast_mul, ih,
        List.map_cons, Sharing.horner_cons]

/-- A share lies on the polynomial, at one of the positions `1, …, total`. -/
theorem mem_sharesOf {coeffs : List ℤ} {total : ℕ} {s : Share} (hs : s ∈ sharesOf coeffs total) :
    1 ≤ s.x ∧ s.x ≤ total ∧
      (s.y : Bn254) = Sharing.horner (coeffs.map fun c : ℤ => (c : Bn254)) (s.x : Bn254) := by
  obtain ⟨i, hi, rfl⟩ := List.mem_map.1 hs
  have hlt := List.mem_range.1 hi
  refine ⟨?_, ?_, cast_evaluate _ _⟩
  · show (1 : ℤ) ≤ i + 1
    omega
  · show (i : ℤ) + 1 ≤ total
    omega

/-- **Enough shares give the secret back**, whatever their order. -/
theorem shamirReconstruct_sharesOf {secret : ℤ} {cs : List ℤ} {total : ℕ} (hP : (total : ℤ) < P)
    {shares : List Share} (hmem : ∀ s ∈ shares, s ∈ sharesOf (modp secret :: cs) total)
    (hnodup : (shares.map Share.x).Nodup) (hlen : cs.length < shares.length) :
    shamirReconstruct shares = modp secret := by
  have hget : ∀ i : Fin shares.length, shares[i] ∈ sharesOf (modp secret :: cs) total :=
    fun i => hmem _ (List.getElem_mem i.isLt)
  have hpos : ∀ i : Fin shares.length, 0 ≤ shares[i].x ∧ shares[i].x < P := by
    intro i
    obtain ⟨hone, htotal, -⟩ := mem_sharesOf (hget i)
    exact ⟨by omega, by omega⟩
  have hx : Function.Injective fun i : Fin shares.length => (shares[i].x : Bn254) := by
    intro i j hij
    have hxs : shares[i].x = shares[j].x := eq_of_cast_eq (hpos i) (hpos j) hij
    refine Fin.ext ((@List.Nodup.getElem_inj_iff _ _ hnodup i (by simp) j (by simp)).1 ?_)
    simpa using hxs
  refine eq_of_cast_eq (foldl_modp_mem (term shares) _) ⟨modp_nonneg _, modp_lt _⟩ ?_
  refine (cast_shamirReconstruct hx).trans ?_
  have hy : (fun i : Fin shares.length => (shares[i].y : Bn254)) = fun i =>
      Sharing.horner (((modp secret : ℤ) : Bn254) :: cs.map fun c : ℤ => (c : Bn254))
        (shares[i].x : Bn254) :=
    funext fun i => (mem_sharesOf (hget i)).2.2
  rw [hy, Sharing.recover_eq hx (by simpa using hlen)]

/-- The random loop pushes as many coefficients as it is asked for. -/
theorem length_randomCoefficients {n : ℕ} {tape : List Buffer} {cs : List ℤ}
    (h : randomCoefficients n tape = some cs) : cs.length = n := by
  induction n generalizing tape cs with
  | zero =>
      rw [randomCoefficients, Option.some.injEq] at h
      rw [← h, List.length_nil]
  | succ n ih =>
      simp only [randomCoefficients, Option.bind_eq_bind, Option.pure_def, Option.bind_eq_some_iff,
        Option.some.injEq] at h
      obtain ⟨⟨c, rest⟩, -, cs', hcs', rfl⟩ := h
      rw [List.length_cons, ih hcs']

/-- What either split returns is the shares of a polynomial through the secret. -/
theorem exists_coeffs_of_split {secret : ℤ} {threshold total : ℕ} {tape : List Buffer}
    {all : List Share}
    (h : shamirSplit secret threshold total tape = .ok (some all) ∨
      Sdk.shamirSplit secret threshold total tape = some all) :
    ∃ cs : List ℤ, cs.length = threshold - 1 ∧ all = sharesOf (modp secret :: cs) total := by
  rcases h with h | h
  · unfold shamirSplit at h
    split at h
    · cases h
    · rw [Except.ok.injEq, Option.map_eq_some_iff] at h
      obtain ⟨cs, hcs, rfl⟩ := h
      exact ⟨cs, length_randomCoefficients hcs, rfl⟩
  · unfold Sdk.shamirSplit at h
    split at h
    · cases h
    · refine ⟨_, ?_, (Option.some.inj h).symm⟩
      rw [List.length_map, List.length_take]
      omega

/-- A buffer for every number below `P`. -/
theorem exists_buffer {c : ℤ} (hc : 0 ≤ c ∧ c < P) :
    ∃ buf : Buffer, raw buf = c ∧ c < rejectionLimit := by
  obtain ⟨n, rfl⟩ := Int.eq_ofNat_of_zero_le hc.1
  have hlimit : P ≤ rejectionLimit := by decide
  have hwide : P < 256 ^ 32 := by decide
  have hn : n < 256 ^ 32 := by
    have := hc.2
    zify
    omega
  refine ⟨⟨Bytes.ofNat 32 n, Bytes.length_ofNat 32 n⟩, ?_, lt_of_lt_of_le hc.2 hlimit⟩
  show ((Bytes.toNat (Bytes.ofNat 32 n) : ℕ) : ℤ) = n
  rw [Bytes.toNat_ofNat_of_lt hn]

/-- Every choice of coefficients is one that both splits can draw. -/
theorem exists_tape (cs : List ℤ) (hcs : ∀ c ∈ cs, 0 ≤ c ∧ c < P) :
    ∃ tape, tape.length = cs.length ∧ randomCoefficients cs.length tape = some cs ∧
      tape.map Sdk.randomFieldElement = cs := by
  induction cs with
  | nil => exact ⟨[], rfl, rfl, rfl⟩
  | cons c cs ih =>
      obtain ⟨tape, hlen, hmpc, hsdk⟩ := ih fun d hd => hcs d (List.mem_cons_of_mem _ hd)
      have hc := hcs c List.mem_cons_self
      obtain ⟨buf, hbuf, hlimit⟩ := exists_buffer hc
      refine ⟨buf :: tape, by simp [hlen], ?_, ?_⟩
      · rw [List.length_cons, randomCoefficients, randomFieldElement, hbuf, if_neg (not_le.2 hlimit),
          Int.tmod_eq_of_lt hc.1 hc.2]
        simp [hmpc]
      · rw [List.map_cons, hsdk, Sdk.randomFieldElement, hbuf, modp_eq,
          Int.emod_eq_of_lt hc.1 hc.2]

/-- **Sharing reconstructs.** Shares of either split, at least as many as the threshold and at
distinct positions, give the secret back in any order; each choice of coefficients below `P` is one
of either split; and `modinv` inverts every residue but zero. -/
theorem shamirReconstruct_split (secret : ℤ) {threshold total : ℕ} (ht : 2 ≤ threshold)
    (hle : threshold ≤ total) (hP : (total : ℤ) < P) :
    (∀ (tape : List Buffer) (all shares : List Share),
      (shamirSplit secret threshold total tape = .ok (some all) ∨
        Sdk.shamirSplit secret threshold total tape = some all) →
      (∀ s ∈ shares, s ∈ all) → (shares.map Share.x).Nodup → threshold ≤ shares.length →
      shamirReconstruct shares = modp secret) ∧
    (∀ cs : List ℤ, cs.length = threshold - 1 → (∀ c ∈ cs, 0 ≤ c ∧ c < P) →
      ∃ tape, shamirSplit secret threshold total tape =
          .ok (some (sharesOf (modp secret :: cs) total)) ∧
        Sdk.shamirSplit secret threshold total tape =
          some (sharesOf (modp secret :: cs) total)) ∧
    ∀ a, modp a ≠ 0 → modp (a * modinv a) = 1 ∧ 0 ≤ modinv a ∧ modinv a < P := by
  refine ⟨fun tape all shares hsplit hmem hnodup hlen => ?_, fun cs hlen hcs => ?_, fun a ha => ?_⟩
  · obtain ⟨cs, hcs, rfl⟩ := exists_coeffs_of_split hsplit
    exact shamirReconstruct_sharesOf hP hmem hnodup (by omega)
  · obtain ⟨tape, htape, hmpc, hsdk⟩ := exists_tape cs hcs
    refine ⟨tape, ?_, ?_⟩
    · rw [shamirSplit, if_neg (by omega), ← hlen, hmpc, Option.map_some]
    · rw [Sdk.shamirSplit, if_neg (by omega), List.take_of_length_le (by omega), hsdk]
  · have hne := (cast_ne_zero_iff a).2 ha
    refine ⟨?_, modp_nonneg _, modp_lt _⟩
    refine eq_of_cast_eq ⟨modp_nonneg _, modp_lt _⟩ (by decide) ?_
    rw [cast_modp, Int.cast_mul, cast_modinv hne, mul_inv_cancel₀ hne, Int.cast_one]

/-- Shares 3 and 1 of `100 + 7x` give `100`. -/
theorem shamirReconstruct_split_two : shamirReconstruct [⟨3, 121⟩, ⟨1, 107⟩] = 100 := by
  obtain ⟨hsplit, hdraw, -⟩ :=
    @shamirReconstruct_split 100 2 3 (by decide) (by decide) (by decide)
  obtain ⟨tape, htape, -⟩ := hdraw [7] rfl (by decide)
  exact (hsplit tape _ _ (.inl htape) (by decide) (by decide) (by decide)).trans (by decide)

end ShadePay.Mpc
