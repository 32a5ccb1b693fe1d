import ShadePay.Lib.Lucas
import Mathlib.Tactic.NormNum.Prime

/-!
# The two scalar fields

The Arc circuits are compiled over the scalar field of BN254, the Stellar ones over that of
BLS12-381. Both moduli are prime, by Lucas certificates down to factors `norm_num` decides.
-/

namespace ShadePay

open Lucas

/-- `SNARK_SCALAR_FIELD` of `IncrementalMerkleTree.sol`, and the `r` of every generated verifier. -/
def bn254 : ℕ :=
  21888242871839275222246405745257275088548364400416034343698204186575808495617

/-- The order of the BLS12-381 scalar field, the field of `soroban_sdk`'s `bls12_381::Fr`. -/
def bls12381 : ℕ :=
  52435875175126190479447740508185965837690552500527637822603658699938581184513

/-- The largest prime factor of `bn254 - 1`, through the chain of its own factors. -/
theorem prime_bn254_cofactor : Nat.Prime 13818364434197438864469338081 := by
  have h₁ : Nat.Prime 1593227 :=
    @prime_of_certifies 256 _ 2 [2, 19, 41927] (by simp; norm_num) (by decide +kernel)
  have h₂ : Nat.Prime 639533339 :=
    @prime_of_certifies 256 _ 2 [2, 229, 853, 1637] (by simp; norm_num) (by decide +kernel)
  have h₃ : Nat.Prime 65865678001877903 :=
    @prime_of_certifies 256 _ 5 [2, 83, 379, 1637, 639533339] (by simp [h₂]; norm_num)
      (by decide +kernel)
  exact @prime_of_certifies 256 _ 3 [2, 2, 2, 2, 2, 5, 823, 1593227, 65865678001877903]
    (by simp [h₁, h₃]; norm_num) (by decide +kernel)

/-- The second largest prime factor of `bn254 - 1`. -/
theorem prime_bn254_cofactor' : Nat.Prime 1670836401704629 := by
  have h₁ : Nat.Prime 12048837557 :=
    @prime_of_certifies 256 _ 2 [2, 2, 7, 7, 661, 93001] (by simp; norm_num) (by decide +kernel)
  have h₂ : Nat.Prime 5156902474397 :=
    @prime_of_certifies 256 _ 2 [2, 2, 107, 12048837557] (by simp [h₁]; norm_num)
      (by decide +kernel)
  exact @prime_of_certifies 256 _ 2 [2, 2, 3, 3, 3, 3, 5156902474397] (by simp [h₂]; norm_num)
    (by decide +kernel)

theorem bn254_prime : Nat.Prime bn254 := by
  have h₁ : Nat.Prime 405928799 :=
    @prime_of_certifies 256 _ 22 [2, 11, 3691, 4999] (by simp; norm_num) (by decide +kernel)
  exact @prime_of_certifies 256 bn254 5
    (List.replicate 28 2 ++ [3, 3, 13, 29, 983, 11003, 237073, 405928799, 1670836401704629,
      13818364434197438864469338081])
    (by simp [h₁, prime_bn254_cofactor, prime_bn254_cofactor', or_imp, forall_and]; norm_num)
    (by decide +kernel)

theorem bls12381_prime : Nat.Prime bls12381 := by
  have h₁ : Nat.Prime 2508409 :=
    @prime_of_certifies 256 _ 11 [2, 2, 2, 3, 3, 3, 3, 7, 7, 79] (by simp; norm_num)
      (by decide +kernel)
  have h₂ : Nat.Prime 2529403 :=
    @prime_of_certifies 256 _ 2 [2, 3, 23, 18329] (by simp; norm_num) (by decide +kernel)
  have h₃ : Nat.Prime 52437899 :=
    @prime_of_certifies 256 _ 2 [2, 43, 609743] (by simp; norm_num) (by decide +kernel)
  have h₄ : Nat.Prime 2653753 :=
    @prime_of_certifies 256 _ 5 [2, 2, 2, 3, 110573] (by simp; norm_num) (by decide +kernel)
  have h₅ : Nat.Prime 63690073 :=
    @prime_of_certifies 256 _ 7 [2, 2, 2, 3, 2653753] (by simp [h₄]; norm_num) (by decide +kernel)
  have h₆ : Nat.Prime 254760293 :=
    @prime_of_certifies 256 _ 2 [2, 2, 63690073] (by simp [h₅]; norm_num) (by decide +kernel)
  exact @prime_of_certifies 256 bls12381 7
    (List.replicate 32 2 ++ [3, 11, 19, 10177, 125527, 859267, 906349, 906349, 2508409, 2529403,
      52437899, 254760293, 254760293])
    (by simp [h₁, h₂, h₃, h₆, or_imp, forall_and]; norm_num)
    (by decide +kernel)

instance : Fact (Nat.Prime bn254) := ⟨bn254_prime⟩
instance : Fact (Nat.Prime bls12381) := ⟨bls12381_prime⟩

/-- The field the Arc circuits compute in. -/
abbrev Bn254 : Type := ZMod bn254

/-- The field the Stellar circuits compute in. -/
abbrev Bls12381 : Type := ZMod bls12381

/-- A field of the repository is far wider than the 128-bit amounts: twice the sum of two amounts
does not wrap. -/
class WideModulus (p : ℕ) : Prop where
  /-- Room for sums of 128-bit amounts. -/
  wide : 2 ^ 253 < p

instance : WideModulus bn254 := ⟨by decide⟩
instance : WideModulus bls12381 := ⟨by decide⟩

end ShadePay
