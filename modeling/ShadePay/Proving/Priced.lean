import ShadePay.Circuit.Price
import ShadePay.Mpc.Priced
import ShadePay.Proving.Merkle
import ShadePay.Stellar.Scenario
import Mathlib

/-!
# Proving a priced match

`buildMpcPricedSettlementProofBn254` of `packages/proving/src/bn254/prove.ts` checks the terms of a
cross-asset settlement before it proves them. The fixed-point rule is written three times, in the
matcher, in these checks and in the comparators of the circuit, and the contract looks at the amounts
once more; `matchPricedIntents_settles` says that a match of the matcher passes all of them.
-/

namespace ShadePay.Proving

open Guard Mpc Stellar

/-- `TREE_DEPTH`. -/
def treeDepth : ℕ := 12

/-- `ASSOCIATION_DEPTH`. -/
def associationDepth : ℕ := 2

/-- `Bn254Coin`. -/
structure Bn254Coin where
  value : ℕ
  assetId : ℕ
  label : ℕ
  nullifier : ℕ
  secret : ℕ
  commitment : ℕ
  nullifierHash : ℕ
deriving DecidableEq

/-- `MpcPricedSettlementInputBn254`. -/
structure MpcPricedSettlementInput where
  coinA : Bn254Coin
  coinB : Bn254Coin
  outCoinA : Bn254Coin
  outCoinB : Bn254Coin
  stateLeaves : List ℕ
  stateIndexA : ℤ
  stateIndexB : ℤ
  assocLabels : List ℕ
  labelIndexA : ℤ
  labelIndexB : ℤ
  matchedAmountA : ℤ
  matchedAmountB : ℤ
  priceScaled : ℤ
  priceScale : Option ℤ
  minOutputA : ℤ
  minOutputB : ℤ
  batchHash : ℤ
  poolId : ℤ
  chainId : ℤ
  deadlineLedger : ℤ

/-- What `buildMpcPricedSettlementProofBn254` throws before it calls the prover. -/
inductive PricedError where
  /-- `mpc_priced_settlement requires a genuine cross-asset pair (...)`. -/
  | sameAsset
  /-- `outCoinA.assetId must equal coinB.assetId (party A receives what B spent)`. -/
  | outAssetA
  /-- `outCoinB.assetId must equal coinA.assetId (party B receives what A spent)`. -/
  | outAssetB
  /-- `coinA.value must equal matchedAmountA (no partial fills)`. -/
  | valueA
  /-- `coinB.value must equal matchedAmountB (no partial fills)`. -/
  | valueB
  /-- `outCoinA.value must equal matchedAmountB`. -/
  | outValueA
  /-- `outCoinB.value must equal matchedAmountA`. -/
  | outValueB
  /-- `Division by zero`, from a `priceScale` of zero. -/
  | divisionByZero
  /-- `price mismatch: matchedAmountB (...) must equal floor(matchedAmountA*priceScaled/priceScale)`. -/
  | priceMismatch
  /-- `matchedAmountB is below minOutputA (slippage violation)`. -/
  | belowMinA
  /-- `matchedAmountA is below minOutputB (slippage violation)`. -/
  | belowMinB
  /-- `stateLeaves[stateIndexA] must equal coinA.commitment`. -/
  | stateLeafA
  /-- `stateLeaves[stateIndexB] must equal coinB.commitment`. -/
  | stateLeafB
  /-- `assocLabels[labelIndexA] must equal coinA.label`. -/
  | labelA
  /-- `assocLabels[labelIndexB] must equal coinB.label`. -/
  | labelB
  /-- Thrown by `buildMerkleTree` or `getMerkleProof`. -/
  | tree (e : Error)
deriving DecidableEq

/-- `l[i]`, with `undefined` out of range. -/
def elementAt (l : List ℕ) (i : ℤ) : Option ℕ := if 0 ≤ i then l[i.toNat]? else none

/-- The checks of `buildMpcPricedSettlementProofBn254`. -/
def checkMpcPricedSettlement (p : MpcPricedSettlementInput) : Except PricedError Unit := do
  let scale := p.priceScale.getD 1000000000
  require (p.coinA.assetId ≠ p.coinB.assetId) .sameAsset
  require (p.outCoinA.assetId = p.coinB.assetId) .outAssetA
  require (p.outCoinB.assetId = p.coinA.assetId) .outAssetB
  require (p.coinA.value = p.matchedAmountA) .valueA
  require (p.coinB.value = p.matchedAmountB) .valueB
  require (p.outCoinA.value = p.matchedAmountB) .outValueA
  require (p.outCoinB.value = p.matchedAmountA) .outValueB
  require (scale ≠ 0) .divisionByZero
  let expectedB := (p.matchedAmountA * p.priceScaled).tdiv scale
  require (p.matchedAmountB = expectedB) .priceMismatch
  require (p.minOutputA ≤ p.matchedAmountB) .belowMinA
  require (p.minOutputB ≤ p.matchedAmountA) .belowMinB
  require (elementAt p.stateLeaves p.stateIndexA = some p.coinA.commitment) .stateLeafA
  require (elementAt p.stateLeaves p.stateIndexB = some p.coinB.commitment) .stateLeafB
  require (elementAt p.assocLabels p.labelIndexA = some p.coinA.label) .labelA
  require (elementAt p.assocLabels p.labelIndexB = some p.coinB.label) .labelB

/-- The private inputs that open and locate a spent coin. -/
structure SpendWitness where
  label : ℕ
  nullifier : ℕ
  secret : ℕ
  stateIndex : ℤ
  stateSiblings : List ℕ
  labelIndex : ℤ
  labelSiblings : List ℕ

/-- The record that the prover gets for `mpc_priced_settlement_bn254`. -/
structure MpcPricedProverInput where
  stateRoot : ℕ
  associationRoot : ℕ
  batchHash : ℤ
  poolId : ℤ
  chainId : ℤ
  deadlineLedger : ℤ
  inputAssetA : ℕ
  outputAssetA : ℕ
  inputAssetB : ℕ
  outputAssetB : ℕ
  matchedAmountA : ℤ
  matchedAmountB : ℤ
  priceScaled : ℤ
  priceScale : ℤ
  minOutputA : ℤ
  minOutputB : ℤ
  spendA : SpendWitness
  spendB : SpendWitness
  outputA : OutputOpening ℕ
  outputB : OutputOpening ℕ

/-- `buildMpcPricedSettlementProofBn254` up to the call of the prover, with the hash of the trees. -/
def buildMpcPricedSettlement (h : ℕ → ℕ → ℕ) (p : MpcPricedSettlementInput) :
    Except PricedError MpcPricedProverInput := do
  checkMpcPricedSettlement p
  let stateTree ← (buildMerkleTree h p.stateLeaves treeDepth).mapError .tree
  let proofA ← (getMerkleProof stateTree p.stateIndexA).mapError .tree
  let proofB ← (getMerkleProof stateTree p.stateIndexB).mapError .tree
  let assocTree ← (buildMerkleTree h p.assocLabels associationDepth).mapError .tree
  let assocProofA ← (getMerkleProof assocTree p.labelIndexA).mapError .tree
  let assocProofB ← (getMerkleProof assocTree p.labelIndexB).mapError .tree
  return {
    stateRoot := stateTree.root
    associationRoot := assocTree.root
    batchHash := p.batchHash
    poolId := p.poolId
    chainId := p.chainId
    deadlineLedger := p.deadlineLedger
    inputAssetA := p.coinA.assetId
    outputAssetA := p.outCoinA.assetId
    inputAssetB := p.coinB.assetId
    outputAssetB := p.outCoinB.assetId
    matchedAmountA := p.matchedAmountA
    matchedAmountB := p.matchedAmountB
    priceScaled := p.priceScaled
    priceScale := p.priceScale.getD 1000000000
    minOutputA := p.minOutputA
    minOutputB := p.minOutputB
    spendA := ⟨p.coinA.label, p.coinA.nullifier, p.coinA.secret, p.stateIndexA, proofA.siblings,
      p.labelIndexA, assocProofA.siblings⟩
    spendB := ⟨p.coinB.label, p.coinB.nullifier, p.coinB.secret, p.stateIndexB, proofB.siblings,
      p.labelIndexB, assocProofB.siblings⟩
    outputA := ⟨p.outCoinA.label, p.outCoinA.nullifier, p.outCoinA.secret⟩
    outputB := ⟨p.outCoinB.label, p.outCoinB.nullifier, p.outCoinB.secret⟩ }

/-! ## The terms of a match -/

/-- The numbers of a priced match. -/
structure PricedTerms where
  matchedAmountA : ℤ
  matchedAmountB : ℤ
  priceScaled : ℤ
  minOutputA : ℤ
  minOutputB : ℤ

/-- The match spells the terms. -/
structure PricedTerms.Spelt (t : PricedTerms) (m : PricedMatch) : Prop where
  matchedAmountA : m.matchedAmountA = toString t.matchedAmountA
  matchedAmountB : m.matchedAmountB = toString t.matchedAmountB
  priceScaled : m.priceScaled = toString t.priceScaled
  minOutputA : m.minOutputA = toString t.minOutputA
  minOutputB : m.minOutputB = toString t.minOutputB

/-- The proof input asks for the terms, at the default price scale. -/
structure PricedTerms.Asked (t : PricedTerms) (p : MpcPricedSettlementInput) : Prop where
  matchedAmountA : p.matchedAmountA = t.matchedAmountA
  matchedAmountB : p.matchedAmountB = t.matchedAmountB
  priceScaled : p.priceScaled = t.priceScaled
  priceScale : p.priceScale = none
  minOutputA : p.minOutputA = t.minOutputA
  minOutputB : p.minOutputB = t.minOutputB

/-- The prover is given the terms. -/
structure PricedTerms.Handed (t : PricedTerms) (w : MpcPricedProverInput) : Prop where
  matchedAmountA : w.matchedAmountA = t.matchedAmountA
  matchedAmountB : w.matchedAmountB = t.matchedAmountB
  priceScaled : w.priceScaled = t.priceScaled
  priceScale : w.priceScale = 1000000000
  minOutputA : w.minOutputA = t.minOutputA
  minOutputB : w.minOutputB = t.minOutputB

/-- The public signals are the terms, at the default price scale. -/
structure PricedTerms.Signalled {q : ℕ} (t : PricedTerms) (x : MpcPricedPub (ZMod q)) : Prop where
  matchedAmountA : x.matchedAmountA = t.matchedAmountA
  matchedAmountB : x.matchedAmountB = t.matchedAmountB
  priceScaled : x.priceScaled = t.priceScaled
  priceScale : x.priceScale = 1000000000
  minOutputA : x.minOutputA = t.minOutputA
  minOutputB : x.minOutputB = t.minOutputB

/-- The coins are those of the match: of its assets, of the amounts of the input, and found in the
trees where the input says. -/
structure CoinsOf (assetId : String → ℕ) (m : PricedMatch) (p : MpcPricedSettlementInput) :
    Prop where
  assetA : p.coinA.assetId = assetId m.inputAssetA
  assetB : p.coinB.assetId = assetId m.inputAssetB
  outAssetA : p.outCoinA.assetId = assetId m.outputAssetA
  outAssetB : p.outCoinB.assetId = assetId m.outputAssetB
  distinct : assetId m.inputAssetA = assetId m.inputAssetB → m.inputAssetA = m.inputAssetB
  valueA : p.coinA.value = p.matchedAmountA
  valueB : p.coinB.value = p.matchedAmountB
  outValueA : p.outCoinA.value = p.matchedAmountB
  outValueB : p.outCoinB.value = p.matchedAmountA
  stateA : elementAt p.stateLeaves p.stateIndexA = some p.coinA.commitment
  stateB : elementAt p.stateLeaves p.stateIndexB = some p.coinB.commitment
  labelA : elementAt p.assocLabels p.labelIndexA = some p.coinA.label
  labelB : elementAt p.assocLabels p.labelIndexB = some p.coinB.label

/-- The law of a priced settlement, and the sizes of its numbers. -/
structure PricedTerms.Lawful (t : PricedTerms) : Prop where
  amountA : 0 < t.matchedAmountA ∧ t.matchedAmountA < 2 ^ 64
  amountB : 0 < t.matchedAmountB ∧ t.matchedAmountB < 2 ^ 64
  scaled : 0 ≤ t.priceScaled ∧ t.priceScaled < 2 ^ 63
  price : t.matchedAmountB = t.matchedAmountA * t.priceScaled / 1000000000
  minA : 0 ≤ t.minOutputA ∧ t.minOutputA ≤ t.matchedAmountB
  minB : 0 ≤ t.minOutputB ∧ t.minOutputB ≤ t.matchedAmountA

theorem toString_int_inj {x y : ℤ} (h : toString x = toString y) : x = y :=
  Int.repr_injective h

section
variable {t : PricedTerms} {m : PricedMatch} {p : MpcPricedSettlementInput}

/-- The terms of a match of the matcher are lawful, and its assets are crossed. -/
theorem lawful_of_match {a b : PricedIntent} (ha : a.Bounded) (hb : b.Bounded) (hc : Crosses a b)
    (hpay : b.amount ≠ 0) (ht : t.Spelt (pricedMatchOf a b)) : t.Lawful := by
  have hA : t.matchedAmountA = a.amount := (toString_int_inj ht.matchedAmountA).symm
  have hB : t.matchedAmountB = b.amount := (toString_int_inj ht.matchedAmountB).symm
  have hP : t.priceScaled = a.limitPriceScaled := (toString_int_inj ht.priceScaled).symm
  have hmA : t.minOutputA = a.minOutput := (toString_int_inj ht.minOutputA).symm
  have hmB : t.minOutputB = b.minOutput := (toString_int_inj ht.minOutputB).symm
  have hpayA := hc.amount_ne hpay
  refine ⟨?_, ?_, ?_, ?_, ?_, ?_⟩
  · rw [hA]
    exact ⟨lt_of_le_of_ne ha.amount.1 hpayA.symm, ha.amount.2⟩
  · rw [hB]
    exact ⟨lt_of_le_of_ne hb.amount.1 hpay.symm, hb.amount.2⟩
  · rw [hP]
    exact ha.limit
  · rw [hA, hB, hP]
    exact hc.price
  · rw [hmA, hB]
    exact ⟨ha.minOutput.1, hc.minA⟩
  · rw [hmB, hA]
    exact ⟨hb.minOutput.1, hc.minB⟩

/-- The checks of the proof builder pass on lawful terms. -/
theorem PricedTerms.Lawful.checks (ht : t.Lawful) (hp : t.Asked p) {assetId : String → ℕ}
    (hcoins : CoinsOf assetId m p) (hin : m.inputAssetA ≠ m.inputAssetB)
    (hA : m.outputAssetA = m.inputAssetB) (hB : m.outputAssetB = m.inputAssetA) :
    checkMpcPricedSettlement p = .ok () := by
  have hassets : p.coinA.assetId ≠ p.coinB.assetId := by
    rw [hcoins.assetA, hcoins.assetB]
    exact fun heq => hin (hcoins.distinct heq)
  have houtA : p.outCoinA.assetId = p.coinB.assetId := by
    rw [hcoins.outAssetA, hcoins.assetB, hA]
  have houtB : p.outCoinB.assetId = p.coinA.assetId := by
    rw [hcoins.outAssetB, hcoins.assetA, hB]
  have hexpected : p.matchedAmountB = (p.matchedAmountA * p.priceScaled).tdiv 1000000000 := by
    have hnonneg : 0 ≤ t.matchedAmountA * t.priceScaled :=
      mul_nonneg ht.amountA.1.le ht.scaled.1
    rw [hp.matchedAmountA, hp.matchedAmountB, hp.priceScaled, Int.tdiv_eq_ediv_of_nonneg hnonneg]
    exact ht.price
  have hminA : p.minOutputA ≤ p.matchedAmountB := by
    rw [hp.minOutputA, hp.matchedAmountB]
    exact ht.minA.2
  have hminB : p.minOutputB ≤ p.matchedAmountA := by
    rw [hp.minOutputB, hp.matchedAmountA]
    exact ht.minB.2
  simp only [checkMpcPricedSettlement, hp.priceScale, Option.getD_none, require_of hassets,
    require_of houtA, require_of houtB, require_of hcoins.valueA, require_of hcoins.valueB,
    require_of hcoins.outValueA, require_of hcoins.outValueB, require_of hexpected,
    require_of hminA, require_of hminB, require_of hcoins.stateA, require_of hcoins.stateB,
    require_of hcoins.labelA, require_of hcoins.labelB, ok_bind]
  rfl

theorem elementAt_lt {l : List ℕ} {i : ℤ} {c : ℕ} (h : elementAt l i = some c) :
    0 ≤ i ∧ i.toNat < l.length := by
  unfold elementAt at h
  split at h
  · next hi => exact ⟨hi, (List.getElem?_eq_some_iff.1 h).1⟩
  · cases h

/-- The trees and the paths of an input whose indices are those of leaves. -/
theorem merkle_returns (h : ℕ → ℕ → ℕ) {leaves : List ℕ} {d : ℕ} (hd : d ≤ 30)
    (hlen : leaves.length ≤ 2 ^ d) {i j : ℤ} {c c' : ℕ} (hi : elementAt leaves i = some c)
    (hj : elementAt leaves j = some c') :
    ∃ T π π', buildMerkleTree h leaves d = .ok T ∧ getMerkleProof T i = .ok π ∧
      getMerkleProof T j = .ok π' := by
  obtain ⟨hi₀, hi⟩ := elementAt_lt hi
  obtain ⟨hj₀, hj⟩ := elementAt_lt hj
  obtain ⟨T, hT, -⟩ := buildMerkleTree_spec (h := h) hd hlen
  obtain ⟨π, hπ, -⟩ := getMerkleProof_spec hd hT hlen (lt_of_lt_of_le hi hlen)
  obtain ⟨π', hπ', -⟩ := getMerkleProof_spec hd hT hlen (lt_of_lt_of_le hj hlen)
  rw [Int.toNat_of_nonneg hi₀] at hπ
  rw [Int.toNat_of_nonneg hj₀] at hπ'
  exact ⟨T, π, π', hT, hπ, hπ'⟩

/-- An input that passes the checks and whose leaves fit the trees is handed to the prover as it is. -/
theorem buildMpcPricedSettlement_returns (h : ℕ → ℕ → ℕ) (hp : t.Asked p) {assetId : String → ℕ}
    (hcoins : CoinsOf assetId m p) (hcheck : checkMpcPricedSettlement p = .ok ())
    (hstate : p.stateLeaves.length ≤ 2 ^ treeDepth)
    (hassoc : p.assocLabels.length ≤ 2 ^ associationDepth) :
    ∃ w, buildMpcPricedSettlement h p = .ok w ∧ t.Handed w := by
  obtain ⟨T, π, π', hT, hπ, hπ'⟩ :=
    merkle_returns h (by norm_num [treeDepth]) hstate hcoins.stateA hcoins.stateB
  obtain ⟨T', ρ, ρ', hT', hρ, hρ'⟩ :=
    merkle_returns h (by norm_num [associationDepth]) hassoc hcoins.labelA hcoins.labelB
  simp only [buildMpcPricedSettlement, hcheck, hT, hπ, hπ', hT', hρ, hρ', Except.mapError, ok_bind]
  exact ⟨_, rfl, hp.matchedAmountA, hp.matchedAmountB, hp.priceScaled, by rw [hp.priceScale]; rfl,
    hp.minOutputA, hp.minOutputB⟩

variable {q : ℕ} [Fact q.Prime] [WideModulus q] {x : MpcPricedPub (ZMod q)}

/-- A natural number below the modulus represents itself. -/
theorem val_lt_of_cast {n k : ℕ} {y : ZMod q} (hy : y = n) (hn : n < k) (hk : k ≤ 2 ^ 253) :
    y.val < k := by
  rw [hy, ZMod.val_cast_of_lt (lt_of_lt_of_le hn (hk.trans WideModulus.wide.le))]
  exact hn

/-- The comparators of the circuit accept lawful terms: no difference wraps. -/
theorem PricedTerms.Lawful.priceConstraints (ht : t.Lawful) (hx : t.Signalled x) :
    PriceConstraints x := by
  obtain ⟨⟨hA₀, hA⟩, ⟨hB₀, hB⟩, ⟨hP₀, hP⟩, hprice, ⟨hmA₀, hmA⟩, ⟨hmB₀, hmB⟩⟩ := ht
  obtain ⟨xA, xB, xP, xscale, xmA, xmB⟩ := hx
  obtain ⟨A, eA⟩ := Int.eq_ofNat_of_zero_le hA₀.le
  obtain ⟨B, eB⟩ := Int.eq_ofNat_of_zero_le hB₀.le
  obtain ⟨P, eP⟩ := Int.eq_ofNat_of_zero_le hP₀
  obtain ⟨mA, emA⟩ := Int.eq_ofNat_of_zero_le hmA₀
  obtain ⟨mB, emB⟩ := Int.eq_ofNat_of_zero_le hmB₀
  rw [eA, Int.cast_natCast] at xA
  rw [eB, Int.cast_natCast] at xB
  rw [eP, Int.cast_natCast] at xP
  rw [emA, Int.cast_natCast] at xmA
  rw [emB, Int.cast_natCast] at xmB
  rw [eA, eB, eP] at hprice
  have hfloor : B = A * P / 1000000000 := by exact_mod_cast hprice
  have hrem : B * 1000000000 ≤ A * P ∧ A * P - B * 1000000000 < 1000000000 := by omega
  refine priceConstraints_iff.2 ⟨xscale, ?_, ?_, ?_⟩
  · refine val_lt_of_cast (n := A * P - B * 1000000000) ?_ hrem.2 (by norm_num)
    rw [xA, xB, xP]
    push_cast [Nat.cast_sub hrem.1]
    rfl
  · have hle : mA ≤ B := by omega
    refine val_lt_of_cast (n := B - mA) ?_ (by omega) (by norm_num)
    rw [xB, xmA, Nat.cast_sub hle]
  · have hle : mB ≤ A := by omega
    refine val_lt_of_cast (n := A - mB) ?_ (by omega) (by norm_num)
    rw [xA, xmB, Nat.cast_sub hle]

/-- A positive amount of 64 bits is one for the contract. -/
theorem fr32ToI128_pos {n : ℤ} (hpos : 0 < n) (hlt : n < 2 ^ 64) :
    0 < fr32ToI128 (frToBytes ((n : ℤ) : Bls12381)) := by
  obtain ⟨k, rfl⟩ := Int.eq_ofNat_of_zero_le hpos.le
  have hk : k < 2 ^ 64 := by exact_mod_cast hlt
  have hmod : k < bls12381 := lt_trans hk (by decide)
  have hword : frToBytes (((k : ℤ) : ℤ) : Bls12381) = word k := by
    rw [frToBytes, Int.cast_natCast, ZMod.val_cast_of_lt hmod]
    rfl
  rw [hword, fr32ToI128_word (lt_trans hk (by norm_num))]
  exact hpos

end

/-- **Every priced match settles.** A match that the matcher returns for intents of 64-bit amounts and
63-bit prices passes the checks of the proof builder for coins of its amounts, which hands its terms to
the prover when the leaves fit the trees; it satisfies the price constraints of the circuit, which has
a satisfying assignment with its terms; and its amounts are positive for the contract. -/
theorem matchPricedIntents_settles {intents : List PricedIntent} (hb : ∀ a ∈ intents, a.Bounded)
    {ms : List PricedMatch} (hrun : matchPricedIntents intents = .ok ms) {m : PricedMatch}
    (hm : m ∈ ms) {t : PricedTerms} (ht : t.Spelt m) :
    (∀ (assetId : String → ℕ) (p : MpcPricedSettlementInput), t.Asked p → CoinsOf assetId m p →
      checkMpcPricedSettlement p = .ok () ∧
        ∀ h, p.stateLeaves.length ≤ 2 ^ treeDepth → p.assocLabels.length ≤ 2 ^ associationDepth →
          ∃ w, buildMpcPricedSettlement h p = .ok w ∧ t.Handed w) ∧
    (∀ (q : ℕ) [Fact q.Prime] [WideModulus q] (P : List (ZMod q) → ZMod q),
      (∀ x : MpcPricedPub (ZMod q), t.Signalled x → PriceConstraints x) ∧
        ∃ x w, t.Signalled x ∧ MpcPricedSettlement P treeDepth associationDepth x w) ∧
    0 < fr32ToI128 (frToBytes (t.matchedAmountA : Bls12381)) ∧
    0 < fr32ToI128 (frToBytes (t.matchedAmountB : Bls12381)) := by
  obtain ⟨a, ha, b, hb', hc, hpay, rfl⟩ :=
    matchPricedIntents_law (fun a ha => (hb a ha).nonneg) hrun hm
  have hlaw := lawful_of_match (hb a ha) (hb b hb') hc hpay ht
  refine ⟨fun assetId p hp hcoins => ?_, fun q _ _ P => ⟨fun x hx => hlaw.priceConstraints hx, ?_⟩,
    fr32ToI128_pos hlaw.amountA.1 hlaw.amountA.2, fr32ToI128_pos hlaw.amountB.1 hlaw.amountB.2⟩
  · have hne : a.inputAsset ≠ b.inputAsset := hc.wanted ▸ hc.cross
    have hcheck := hlaw.checks hp hcoins hne hc.wanted hc.given.symm
    exact ⟨hcheck, fun h => buildMpcPricedSettlement_returns h hp hcoins hcheck⟩
  · have hx : t.Signalled (crossPub P t.matchedAmountA t.matchedAmountB t.priceScaled t.minOutputA
        t.minOutputB) := ⟨rfl, rfl, rfl, rfl, rfl, rfl⟩
    exact ⟨_, _, hx, cross_satisfies P (hlaw.priceConstraints hx)⟩

/-! ## Four and two -/

/-- The terms of the match of four units against two. -/
def fourForTwoTerms : PricedTerms := ⟨4000000, 2000000, 500000000, 1900000, 3900000⟩

/-- Coins for the match: a spent one of each side in the two trees, and the two outputs. -/
def fourForTwoInput : MpcPricedSettlementInput where
  coinA := ⟨4000000, 4, 11, 0, 0, 21, 0⟩
  coinB := ⟨2000000, 3, 12, 1, 1, 22, 1⟩
  outCoinA := ⟨2000000, 3, 13, 2, 2, 23, 2⟩
  outCoinB := ⟨4000000, 4, 14, 3, 3, 24, 3⟩
  stateLeaves := [21, 22]
  stateIndexA := 0
  stateIndexB := 1
  assocLabels := [11, 12]
  labelIndexA := 0
  labelIndexB := 1
  matchedAmountA := 4000000
  matchedAmountB := 2000000
  priceScaled := 500000000
  priceScale := none
  minOutputA := 1900000
  minOutputB := 3900000
  batchHash := 7
  poolId := 1
  chainId := 1
  deadlineLedger := 999999

theorem matchPricedIntents_settles_fourForTwo :
    checkMpcPricedSettlement fourForTwoInput = .ok () ∧
      (∃ (x : MpcPricedPub Bn254) (w : MpcPricedWit Bn254), fourForTwoTerms.Signalled x ∧
        MpcPricedSettlement (fun _ => 0) treeDepth associationDepth x w) ∧
      0 < fr32ToI128 (frToBytes ((4000000 : ℤ) : Bls12381)) := by
  have hb : ∀ a ∈ fourForTwo, a.Bounded := by
    intro a ha
    simp only [fourForTwo, List.mem_cons, List.not_mem_nil, or_false] at ha
    rcases ha with rfl | rfl
    · exact ⟨by decide, by decide, by decide⟩
    · exact ⟨by decide, by decide, by decide⟩
  obtain ⟨hcheck, hcircuit, hpos, -⟩ := matchPricedIntents_settles (t := fourForTwoTerms) hb
    (show matchPricedIntents fourForTwo = .ok [_] from rfl) List.mem_cons_self
    ⟨rfl, rfl, rfl, rfl, rfl⟩
  have hcoins := hcheck String.length fourForTwoInput ⟨rfl, rfl, rfl, rfl, rfl, rfl⟩
    ⟨rfl, rfl, rfl, rfl, by decide, rfl, rfl, rfl, rfl, rfl, rfl, rfl, rfl⟩
  exact ⟨hcoins.1, (hcircuit bn254 fun _ => 0).2, hpos⟩

end ShadePay.Proving
