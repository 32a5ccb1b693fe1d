import ShadePay.Field
import ShadePay.Lib.Bytes
import ShadePay.Lib.Guard

/-!
# Accounts, errors and the deployment

What the Arc contracts share. A word is a natural number, an address 160 bits. `Error` lists the
reverts by their names in the sources, and `Env` holds what is fixed at deployment or lives outside
the repository: Poseidon, SHA-256, the signature and pairing checks, and the immutables.
-/

namespace ShadePay.Evm

/-- An account. -/
abbrev Address : Type := BitVec 160

/-- Why a call reverts. -/
inductive Error where
  /-- `require(_levels > 0 && _levels < 32, "bad levels")`. -/
  | badLevels
  /-- `require(leaf < SNARK_SCALAR_FIELD, "leaf >= field")`. -/
  | leafGeField
  | merkleTreeFull
  | unauthorizedSpender
  | nullifierAlreadySpent
  | committeeNotInitialized
  | mpcThreshold
  | mpcUnknownSigner
  | mpcDuplicateSigner
  | mpcSignatureInvalid
  | duplicateDeposit
  | unknownRoot
  | proofInvalid
  | badAmount
  | wrongDomain
  | wrongAssociation
  | wrongOperation
  | wrongRecipient
  | expired
  | wrongCommitment
  | wrongDepositField
  | unknownAsset
  | assetAlreadyRegistered
  | mpcSignalMismatch
  | mpcProofInvalid
  | notCrossAsset
  | supplyUnderflow
  | reserveBroken
  | insufficientBalance
  | unauthorizedSolver
  | wrongQuote
  | wrongIntent
  | wrongFillReceipt
  | wrongDestDomain
  | wrongDestRecipient
  | wrongMaxFee
  | wrongFinality
  | unsupportedDomain
  | solverSigInvalid
  | unauthorizedStreamContract
  | channelAlreadyOpen
  | channelNotOpen
  | channelConsumed
  | channelParamMismatch
  | notYetReclaimable
  /-- `require(n == pubs.length, "length mismatch")`. -/
  | lengthMismatch
  /-- OpenZeppelin's `Pausable`: `EnforcedPause` and `ExpectedPause`. -/
  | enforcedPause
  | expectedPause
  /-- OpenZeppelin's `AccessControl`. -/
  | accessControlUnauthorizedAccount
  /-- A token that refuses a transfer. -/
  | erc20InsufficientBalance
  /-- Checked arithmetic and array bounds. -/
  | panic
deriving DecidableEq

/-- A Groth16 proof, as snarkjs emits it. -/
structure Groth16Proof where
  a : ℕ × ℕ
  b : (ℕ × ℕ) × (ℕ × ℕ)
  c : ℕ × ℕ
deriving DecidableEq

/-- The deployment: the immutables of the three contracts, and the code they call that is not in
the repository. -/
structure Env where
  /-- circomlib's Poseidon over BN254. -/
  poseidon : List Bn254 → Bn254
  sha256 : List UInt8 → BitVec 256
  /-- `IEd25519Verifier.verify` of the verifier at an address. -/
  ed25519 : Address → ℕ → List UInt8 → List UInt8 → Bool
  /-- The pairing check of the generated verifier at an address. -/
  groth16 : Address → Groth16Proof → List ℕ → Bool
  pool : Address
  escrow : Address
  poolId : ℕ
  chainId : ℕ
  levels : ℕ
  challengeWindow : ℕ
  /-- Whether balances may change other than by transfers. -/
  rebasing : Bool
  /-- The constructor's `_levels > 0 && _levels < 32`. -/
  levels_pos : 0 < levels
  levels_lt : levels < 32
  pool_ne_escrow : pool ≠ escrow

variable (E : Env)

/-- `verifyProof` of a generated verifier: `checkField` on every signal, then the pairing check. -/
def Env.verifyProof (verifier : Address) (proof : Groth16Proof) (pub : List ℕ) : Bool :=
  pub.all (· < bn254) && E.groth16 verifier proof pub

/-- `_hashLeftRight`: the Poseidon contract on two words. -/
def Env.hashLeftRight (left right : ℕ) : ℕ :=
  (E.poseidon [(left : Bn254), (right : Bn254)]).val

/-- `_hashToField`: the top 31 bytes of `sha256(abi.encodePacked(h))`. -/
def Env.hashToField (h : ℕ) : ℕ := (E.sha256 (Bytes.ofNat 32 h)).toNat / 256

/-- `_addressHash`: the top 31 bytes of `sha256(abi.encodePacked(a))`. -/
def Env.addressHash (a : Address) : ℕ := (E.sha256 (Bytes.ofNat 20 a.toNat)).toNat / 256

/-- `int256(x)` of a word. -/
def int256 (x : ℕ) : ℤ := if x < 2 ^ 255 then x else x - 2 ^ 256

theorem int256_of_lt {x : ℕ} (h : x < bn254) : int256 x = x := by
  have : bn254 < 2 ^ 255 := by decide
  exact if_pos (by omega)

/-- A verified signal is canonical. -/
theorem Env.lt_of_verifyProof {v : Address} {proof : Groth16Proof} {pub : List ℕ}
    (h : E.verifyProof v proof pub = true) : ∀ x ∈ pub, x < bn254 := by
  simp only [Env.verifyProof, Bool.and_eq_true, List.all_eq_true, decide_eq_true_eq] at h
  exact h.1

theorem Env.groth16_of_verifyProof {v : Address} {proof : Groth16Proof} {pub : List ℕ}
    (h : E.verifyProof v proof pub = true) : E.groth16 v proof pub = true := by
  simp only [Env.verifyProof, Bool.and_eq_true] at h
  exact h.2

end ShadePay.Evm
