import ShadePay.Circuit.Comparators
import ShadePay.Circuit.Honest

/-!
# The price in the cross-asset MPC settlement

The header of `mpc_priced_settlement` promises `matchedAmountB == floor(matchedAmountA * priceScaled /
priceScale)` and both minimum outputs. Its comparators only bound differences modulo the field prime
(`priceConstraints_iff`). For 128-bit amounts they give the promised law of integers exactly when the
product of the amount and the price does not reach the modulus and the minimum outputs are no
"negative" field elements (`mpcPricedSettlement_price_iff`); none of these three signals is
range-checked.
-/

namespace ShadePay

section
variable {F : Type} [Field F]

/-- The constraints of `MpcPricedSettlement` on amounts, price and minimum outputs. -/
structure PriceConstraints (x : MpcPricedPub F) : Prop where
  scale : x.priceScale = 1000000000
  priceLe : LessEqThan 128 (x.matchedAmountB * x.priceScale) (x.matchedAmountA * x.priceScaled) 1
  priceLt : LessThan 64
    (x.matchedAmountA * x.priceScaled - x.matchedAmountB * x.priceScale) x.priceScale 1
  minA : GreaterEqThan 64 x.matchedAmountB x.minOutputA 1
  minB : GreaterEqThan 64 x.matchedAmountA x.minOutputB 1

theorem MpcPricedSettlement.price {P : List F → F} {d k : ℕ} {x : MpcPricedPub F}
    {w : MpcPricedWit F} (h : MpcPricedSettlement P d k x w) : PriceConstraints x :=
  ⟨h.scale, h.priceLe, h.priceLt, h.minA, h.minB⟩

end

section
variable {p : ℕ}

/-- The law of the template's header, over the integers. -/
structure PriceLaw (x : MpcPricedPub (ZMod p)) : Prop where
  price : x.matchedAmountB.val = x.matchedAmountA.val * x.priceScaled.val / 1000000000
  minA : x.minOutputA.val ≤ x.matchedAmountB.val
  minB : x.minOutputB.val ≤ x.matchedAmountA.val

/-- The price times the amount is below the modulus, and the minimum outputs are 128-bit numbers. -/
structure PriceBounded (x : MpcPricedPub (ZMod p)) : Prop where
  price : x.matchedAmountA.val * x.priceScaled.val < p
  minA : x.minOutputA.val < 2 ^ 128
  minB : x.minOutputB.val < 2 ^ 128

variable [Fact p.Prime] [WideModulus p]

/-- What the comparators assert: three differences are short. -/
theorem priceConstraints_iff {x : MpcPricedPub (ZMod p)} : PriceConstraints x ↔
    x.priceScale = 1000000000 ∧
      (x.matchedAmountA * x.priceScaled - x.matchedAmountB * 1000000000).val < 1000000000 ∧
      (x.matchedAmountB - x.minOutputA).val < 2 ^ 64 ∧
      (x.matchedAmountA - x.minOutputB).val < 2 ^ 64 := by
  have hp : 2 ^ 253 < p := WideModulus.wide
  -- the two comparisons on the remainder, of 128 and of 64 bits, bound it by the scale together
  have hrem : ∀ r : ZMod p, (r.val < 2 ^ 128 ∧ (r + 2 ^ 64 - 1000000000).val < 2 ^ 64) ↔
      r.val < 1000000000 := by
    intro r
    have hshift : r + 2 ^ 64 - 1000000000 = r + ((2 ^ 64 - 1000000000 : ℕ) : ZMod p) := by
      norm_num
      ring
    have hval : r.val < 2 ^ 128 →
        (r + 2 ^ 64 - 1000000000).val = r.val + (2 ^ 64 - 1000000000) := by
      intro hr
      have hc : ((2 ^ 64 - 1000000000 : ℕ) : ZMod p).val = 2 ^ 64 - 1000000000 :=
        ZMod.val_cast_of_lt (by omega)
      rw [hshift, Bits.val_add_of_lt (by omega), hc]
    constructor
    · rintro ⟨h1, h2⟩
      rw [hval h1] at h2
      omega
    · intro h
      have h1 : r.val < 2 ^ 128 := by omega
      refine ⟨h1, ?_⟩
      rw [hval h1]
      omega
  constructor
  · rintro ⟨hscale, hle, hlt, hA, hB⟩
    rw [hscale] at hle hlt
    exact ⟨hscale, (hrem _).1 ⟨(lessEqThan_one_iff (by norm_num) _ _).1 hle,
      (lessThan_one_iff (by norm_num) _ _).1 hlt⟩,
      (greaterEqThan_one_iff (by norm_num) _ _).1 hA, (greaterEqThan_one_iff (by norm_num) _ _).1 hB⟩
  · rintro ⟨hscale, hr, hA, hB⟩
    obtain ⟨hle, hlt⟩ := (hrem _).2 hr
    refine ⟨hscale, ?_, ?_, (greaterEqThan_one_iff (by norm_num) _ _).2 hA,
      (greaterEqThan_one_iff (by norm_num) _ _).2 hB⟩
    · rw [hscale]
      exact (lessEqThan_one_iff (by norm_num) _ _).2 hle
    · rw [hscale]
      exact (lessThan_one_iff (by norm_num) _ _).2 hlt

/-- A short difference from a small number: the subtrahend is below it unless it is "negative". -/
theorem val_le_iff_of_sub {a b : ZMod p} (ha : a.val < 2 ^ 128) (h : (a - b).val < 2 ^ 64) :
    b.val ≤ a.val ↔ b.val < 2 ^ 128 := by
  have hp : 2 ^ 253 < p := WideModulus.wide
  refine ⟨fun hle => lt_of_le_of_lt hle ha, fun hb => ?_⟩
  rw [Bits.val_eq_add_of_sub rfl (show b.val + (a - b).val < p by omega)]
  omega

/-- The remainder equation, lifted to the integers. -/
theorem floor_iff_of_rem {a b q : ZMod p} (hb : b.val < 2 ^ 128)
    (h : (a * q - b * 1000000000).val < 1000000000) :
    b.val = a.val * q.val / 1000000000 ↔ a.val * q.val < p := by
  have hp : 2 ^ 253 < p := WideModulus.wide
  set r := a * q - b * 1000000000 with hr
  have hcast : ((a.val * q.val : ℕ) : ZMod p) = ((b.val * 1000000000 + r.val : ℕ) : ZMod p) := by
    push_cast
    rw [ZMod.natCast_zmod_val, ZMod.natCast_zmod_val, ZMod.natCast_zmod_val, ZMod.natCast_zmod_val, hr]
    ring
  have hmod := congrArg ZMod.val hcast
  rw [ZMod.val_natCast, ZMod.val_cast_of_lt (show b.val * 1000000000 + r.val < p by omega)] at hmod
  constructor
  · intro hfloor
    have hlt : a.val * q.val < (b.val + 1) * 1000000000 := by
      rw [← Nat.div_lt_iff_lt_mul (by norm_num)]
      omega
    omega
  · intro hlt
    rw [Nat.mod_eq_of_lt hlt] at hmod
    rw [hmod]
    omega

/-- **The price over the integers.** For every satisfying assignment with 128-bit amounts the law
holds exactly when the product of amount and price is below the modulus and the two minimum outputs
are 128-bit numbers. -/
theorem mpcPricedSettlement_price_iff {P : List (ZMod p) → ZMod p} {d k : ℕ}
    {x : MpcPricedPub (ZMod p)} {w : MpcPricedWit (ZMod p)} (h : MpcPricedSettlement P d k x w)
    (hA : x.matchedAmountA.val < 2 ^ 128) (hB : x.matchedAmountB.val < 2 ^ 128) :
    PriceLaw x ↔ PriceBounded x := by
  obtain ⟨-, hrem, hminA, hminB⟩ := priceConstraints_iff.1 h.price
  have hprice := floor_iff_of_rem hB hrem
  have hleA := val_le_iff_of_sub hB hminA
  have hleB := val_le_iff_of_sub hA hminB
  constructor
  · rintro ⟨h1, h2, h3⟩
    exact ⟨hprice.1 h1, hleA.1 h2, hleB.1 h3⟩
  · rintro ⟨h1, h2, h3⟩
    exact ⟨hprice.2 h1, hleA.2 h2, hleB.2 h3⟩

end

/-! ## Two notes that cross -/

section
variable {p : ℕ} [Fact p.Prime] (P : List (ZMod p) → ZMod p)

/-- The note of side `i` of a crossing: an amount of asset `i + 1`. -/
def crossNote (i : ℕ) (amount : ZMod p) : Note (ZMod p) := ⟨((i + 1 : ℕ) : ZMod p), amount, 0, i, 0⟩

/-- A state tree that starts with the two notes. -/
def crossLeaves (a b : ZMod p) (i : ℕ) : ZMod p := (crossNote i (if i = 0 then a else b)).commitment P

/-- The public signals of a crossing of `a` against `b` at a price. -/
def crossPub (a b price minA minB : ZMod p) : MpcPricedPub (ZMod p) where
  nullifierHashA := (crossNote 0 a).nullifierHash P 0 0
  nullifierHashB := (crossNote 1 b).nullifierHash P 0 0
  outputCommitmentA := Note.commitment P { crossNote 1 b with nullifier := 0, secret := 1 }
  outputCommitmentB := Note.commitment P { crossNote 0 a with nullifier := 1, secret := 1 }
  stateRoot := Merkle.node (hash2 P) (crossLeaves P a b) 12 0
  associationRoot := Merkle.node (hash2 P) (fun _ => 0) 2 0
  batchHash := 0
  poolId := 0
  chainId := 0
  deadline := 0
  inputAssetA := (crossNote 0 a).assetId
  outputAssetA := (crossNote 1 b).assetId
  inputAssetB := (crossNote 1 b).assetId
  outputAssetB := (crossNote 0 a).assetId
  matchedAmountA := a
  matchedAmountB := b
  priceScaled := price
  priceScale := 1000000000
  minOutputA := minA
  minOutputB := minB

/-- The private inputs that go with `crossPub`. -/
def crossWit (a b : ZMod p) : MpcPricedWit (ZMod p) where
  inputA := .honest P (crossLeaves P a b) (fun _ => 0) 0 0 (crossNote 0 a)
  outputA := ⟨0, 0, 1⟩
  inputB := .honest P (crossLeaves P a b) (fun _ => 0) 1 0 (crossNote 1 b)
  outputB := ⟨0, 1, 1⟩

/-- The crossing satisfies the template whenever it satisfies the constraints on its price. -/
theorem cross_satisfies {a b price minA minB : ZMod p}
    (h : PriceConstraints (crossPub P a b price minA minB)) :
    MpcPricedSettlement P 12 2 (crossPub P a b price minA minB) (crossWit P a b) where
  assetA := rfl
  assetB := rfl
  crossAsset := by
    refine ⟨1, ?_, mul_zero _⟩
    change (0 : ZMod p) = -(((1 + 1 : ℕ) : ZMod p) - ((0 + 1 : ℕ) : ZMod p)) * 1 + 1
    push_cast
    ring
  scale := h.scale
  spendsA := by
    have hs := @spendsNote_honest p _ P (crossLeaves P a b) (fun _ => 0) 12 2 0 0 (crossNote 0 a) 0 0
      (by norm_num) (by norm_num) rfl rfl
    simpa [crossWit, crossPub, MpcPricedWit.noteA, crossNote, SpendInput.honest, SpendInput.note]
      using hs
  spendsB := by
    have hs := @spendsNote_honest p _ P (crossLeaves P a b) (fun _ => 0) 12 2 1 0 (crossNote 1 b) 0 0
      (by norm_num) (by norm_num) rfl rfl
    simpa [crossWit, crossPub, MpcPricedWit.noteB, crossNote, SpendInput.honest, SpendInput.note]
      using hs
  outputA := rfl
  outputB := rfl
  priceLe := h.priceLe
  priceLt := h.priceLt
  minA := h.minA
  minB := h.minB

end

/-- Ten units cross against five at one half, with both minimum outputs met. -/
theorem mpcPricedSettlement_price_half :
    PriceLaw (crossPub (fun _ => (0 : Bn254)) 10 5 500000000 5 10) := by
  refine (mpcPricedSettlement_price_iff (cross_satisfies (fun _ => 0) (priceConstraints_iff.2 ?_))
    (by decide) (by decide)).2 ⟨by decide, by decide, by decide⟩
  exact ⟨rfl, by decide, by decide, by decide⟩

/-- Three units cross against five at the field element `5000000000 / 3`, whose canonical representative
is far above every price of the protocol. -/
theorem mpcPricedSettlement_price_wraps :
    ¬ ∀ (p : ℕ) (_ : Fact p.Prime) (_ : WideModulus p) (P : List (ZMod p) → ZMod p) (d k : ℕ)
      (x : MpcPricedPub (ZMod p)) (w : MpcPricedWit (ZMod p)), MpcPricedSettlement P d k x w →
      x.matchedAmountA.val < 2 ^ 128 → x.matchedAmountB.val < 2 ^ 128 → PriceLaw x := by
  intro hall
  have h3 : (3 : Bn254) ≠ 0 := by decide
  have hmul : (3 : Bn254) * (5000000000 / 3) = 5000000000 := mul_div_cancel₀ _ h3
  have hcons : PriceConstraints (crossPub (fun _ => (0 : Bn254)) 3 5 (5000000000 / 3) 0 0) := by
    refine priceConstraints_iff.2 ⟨rfl, ?_, by decide, by decide⟩
    have hzero : (3 : Bn254) * (5000000000 / 3) - 5 * 1000000000 = 0 := by
      rw [hmul]
      norm_num
    change ((3 : Bn254) * (5000000000 / 3) - 5 * 1000000000).val < 1000000000
    rw [hzero]
    decide
  obtain ⟨hfloor, -, -⟩ := hall bn254 inferInstance inferInstance _ 12 2 _ _
    (cross_satisfies (fun _ => 0) hcons) (by decide) (by decide)
  set v := (5000000000 / 3 : Bn254).val with hv
  have hlaw : 5 = 3 * v / 1000000000 := hfloor
  -- the price is five thirds modulo the prime, but no integer is
  have hcast : ((3 * v : ℕ) : Bn254) = ((5000000000 : ℕ) : Bn254) := by
    push_cast
    rw [hv, ZMod.natCast_zmod_val]
    exact hmul
  have hbig : 6000000000 < bn254 := by decide
  have hmod := congrArg ZMod.val hcast
  rw [ZMod.val_cast_of_lt (by omega), ZMod.val_cast_of_lt (by omega)] at hmod
  omega

end ShadePay
