import ShadePay.Circuit.Honest

/-!
# Value in the same-asset MPC settlement

The header of `mpc_settlement` promises `matchedAmount <= min(valueA, valueB)` and conservation of
value. Its constraints are equations modulo the field prime and two 128-bit range checks on the
remainders. `MpcSettlement.valueLaw_iff` says what they give over the integers: the promised law
holds of exactly those assignments whose two output values are themselves 128-bit numbers, which
no constraint of the template asks for.
-/

namespace ShadePay

section
variable {p : ℕ}

/-- The law of the template's header, over the integers: both outputs are 128-bit numbers, the
matched amount is within both inputs, and the outputs add up to twice the matched amount. -/
def MpcSettlement.ValueLaw (x : MpcPub (ZMod p)) (w : MpcWit (ZMod p)) : Prop :=
  w.outValueA.val < 2 ^ 128 ∧ w.outValueB.val < 2 ^ 128 ∧
    x.matchedAmount7dp.val ≤ min w.valueA.val w.valueB.val ∧
    w.outValueA.val + w.outValueB.val = 2 * x.matchedAmount7dp.val ∧
    2 * x.matchedAmount7dp.val ≤ w.valueA.val + w.valueB.val

variable [Fact p.Prime] [WideModulus p]

/-- The remainder check pins the matched amount below the input, unless the amount is a "negative"
field element: one within `2 ^ 128` of the modulus. -/
theorem val_le_or_wraps {v m : ZMod p} (hr : InRange 128 (v - m)) :
    m.val ≤ v.val ∨ p ≤ m.val + 2 ^ 128 := by
  rw [inRange_iff (by norm_num)] at hr
  have hm := ZMod.val_lt m
  have hp : 2 ^ 253 < p := WideModulus.wide
  rcases Nat.lt_or_ge (m.val + (v - m).val) p with hlt | hge
  · left
    rw [Bits.val_eq_add_of_sub rfl hlt]
    omega
  · right
    omega

/-- **What the constraints give.** For 128-bit input values the integer law holds of a satisfying
assignment exactly when both output values are 128-bit numbers. -/
theorem MpcSettlement.valueLaw_iff {P : List (ZMod p) → ZMod p} {d k : ℕ} {x : MpcPub (ZMod p)}
    {w : MpcWit (ZMod p)} (h : MpcSettlement P d k x w) (hA : w.valueA.val < 2 ^ 128)
    (hB : w.valueB.val < 2 ^ 128) :
    MpcSettlement.ValueLaw x w ↔ w.outValueA.val < 2 ^ 128 ∧ w.outValueB.val < 2 ^ 128 := by
  refine ⟨fun hlaw => ⟨hlaw.1, hlaw.2.1⟩, fun ⟨hoA, hoB⟩ => ?_⟩
  have hp : 2 ^ 253 < p := WideModulus.wide
  have hm := ZMod.val_lt x.matchedAmount7dp
  -- the conservation equation, lifted to the integers up to one multiple of the modulus
  have hsum : w.outValueA.val + w.outValueB.val = 2 * x.matchedAmount7dp.val ∨
      w.outValueA.val + w.outValueB.val + p = 2 * x.matchedAmount7dp.val := by
    have hl : (w.outValueA + w.outValueB).val = w.outValueA.val + w.outValueB.val :=
      Bits.val_add_of_lt (by omega)
    have hr : x.matchedAmount7dp * 2 = x.matchedAmount7dp + x.matchedAmount7dp := by ring
    have hmod : (x.matchedAmount7dp + x.matchedAmount7dp).val =
        (x.matchedAmount7dp.val + x.matchedAmount7dp.val) % p := ZMod.val_add _ _
    rw [← hr, ← h.conservation, hl] at hmod
    rcases Nat.lt_or_ge (x.matchedAmount7dp.val + x.matchedAmount7dp.val) p with hlt | hge
    · rw [Nat.mod_eq_of_lt hlt] at hmod
      omega
    · rw [Nat.mod_eq_sub_mod hge, Nat.mod_eq_of_lt (by omega)] at hmod
      omega
  have hleA := val_le_or_wraps h.remainA
  have hleB := val_le_or_wraps h.remainB
  refine ⟨hoA, hoB, le_min ?_ ?_, ?_, ?_⟩ <;> omega

end

/-! ## The BN254 instance -/

/-- **Value conservation in the BN254 `MpcSettlement`.** For every satisfying assignment with
128-bit input values the integer law holds exactly when the prover's two private output values are
128-bit numbers. -/
theorem mpcSettlement_bn254_conserves_iff {P : List Bn254 → Bn254} {x : MpcPub Bn254}
    {w : MpcWit Bn254} (h : MpcSettlement P 12 2 x w) (hA : w.valueA.val < 2 ^ 128)
    (hB : w.valueB.val < 2 ^ 128) :
    MpcSettlement.ValueLaw x w ↔ w.outValueA.val < 2 ^ 128 ∧ w.outValueB.val < 2 ^ 128 :=
  h.valueLaw_iff hA hB

section
variable (P : List Bn254 → Bn254)

/-- The notes of the two sides of a sample match, five units each. -/
def sampleNote (nullifier : Bn254) : Note Bn254 := ⟨1, 5, 0, nullifier, 0⟩

/-- A state tree that starts with the two sample notes. -/
def sampleLeaves (i : ℕ) : Bn254 := (sampleNote (i : ℕ)).commitment P

/-- The public signals of a match of the two sample notes for five units into the given outputs. -/
def samplePub (outA outB : Bn254) : MpcPub Bn254 where
  nullifierHashA := (sampleNote 0).nullifierHash P 0 0
  nullifierHashB := (sampleNote 1).nullifierHash P 0 0
  outputCommitmentA := Note.commitment P ⟨1, outA, 0, 0, 0⟩
  outputCommitmentB := Note.commitment P ⟨1, outB, 0, 0, 0⟩
  stateRoot := Merkle.node (hash2 P) (sampleLeaves P) 12 0
  associationRoot := Merkle.node (hash2 P) (fun _ => 0) 2 0
  batchHash := 0
  poolId := 0
  chainId := 0
  matchedAmount7dp := 5
  deadline := 0
  assetId := 1

/-- The private inputs that go with `samplePub`. -/
def sampleWit (outA outB : Bn254) : MpcWit Bn254 where
  valueA := 5
  inputA := .honest P (sampleLeaves P) (fun _ => 0) 0 0 (sampleNote 0)
  outValueA := outA
  outputA := ⟨0, 0, 0⟩
  valueB := 5
  inputB := .honest P (sampleLeaves P) (fun _ => 0) 1 0 (sampleNote 1)
  outValueB := outB
  outputB := ⟨0, 0, 0⟩

/-- The sample match satisfies the template whenever the outputs add up to ten in the field. -/
theorem sample_satisfies {outA outB : Bn254} (hsum : outA + outB = 5 * 2) :
    MpcSettlement P 12 2 (samplePub P outA outB) (sampleWit P outA outB) where
  spendsA := spendsNote_honest (by norm_num) (by norm_num) (by simp [sampleLeaves]) rfl
  spendsB := spendsNote_honest (by norm_num) (by norm_num) (by simp [sampleLeaves]) rfl
  outputA := rfl
  outputB := rfl
  remainA := by simpa [sampleWit, samplePub] using @inRange_natCast bn254 _ _ 128 0 (by norm_num) (by norm_num)
  remainB := by simpa [sampleWit, samplePub] using @inRange_natCast bn254 _ _ 128 0 (by norm_num) (by norm_num)
  conservation := hsum

end

/-- The honest split of the sample match, five units to each side, is within the law. -/
theorem mpcSettlement_bn254_conserves_sample :
    MpcSettlement.ValueLaw (samplePub (fun _ => 0) 5 5) (sampleWit (fun _ => 0) 5 5) :=
  (mpcSettlement_bn254_conserves_iff (sample_satisfies (fun _ => 0) (by norm_num)) (by decide)
    (by decide)).2 (by decide)

/-- Whatever Poseidon is, the template has a satisfying assignment with two notes of five units as
inputs and an output note of `2 ^ 128` units. -/
theorem mpcSettlement_bn254_creates_value :
    ¬ ∃ P : List Bn254 → Bn254, ∀ x w, MpcSettlement P 12 2 x w → w.valueA.val < 2 ^ 128 →
      w.valueB.val < 2 ^ 128 → MpcSettlement.ValueLaw x w := by
  rintro ⟨P, h⟩
  have hsat := @sample_satisfies P ((2 ^ 128 : ℕ) : Bn254) (5 * 2 - ((2 ^ 128 : ℕ) : Bn254)) (by ring)
  have hlaw := h _ _ hsat (by decide : (5 : Bn254).val < 2 ^ 128)
    (by decide : (5 : Bn254).val < 2 ^ 128)
  have hval : ((2 ^ 128 : ℕ) : Bn254).val = 2 ^ 128 := by
    rw [ZMod.val_natCast, Nat.mod_eq_of_lt (by decide)]
  have hout : ((2 ^ 128 : ℕ) : Bn254).val < 2 ^ 128 := hlaw.1
  omega

end ShadePay
