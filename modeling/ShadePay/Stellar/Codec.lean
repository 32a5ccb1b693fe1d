import ShadePay.Stellar.Basic

/-!
# Errors, the host and the signal codec

What the Soroban contracts share: the `Error` enum of `shielded_pool` with the panics of the other
contracts and of the host, the host functions and the deployed verifiers as an `Env`, and the byte
codecs of the public signals. `parsePublicSignals` splits a signal string into words, `fr32ToI128`
reads the low half of a word as a signed number, `hashToField` shifts a hash right by one byte.
-/

namespace ShadePay.Stellar

open Guard

/-- An account or contract, as its 56-character strkey. -/
abbrev Address : Type := BytesN 56

/-- Why an invocation fails. -/
inductive Error where
  | notInitialized
  | paused
  | duplicateDeposit
  | unknownRoot
  | proofInvalid
  | insufficientBalance
  | badAmount
  | wrongDomain
  | wrongAssociation
  | wrongOperation
  | wrongRecipient
  | expired
  | wrongQuote
  | wrongIntent
  | wrongFillReceipt
  | wrongDestDomain
  | wrongDestRecipient
  | wrongMaxFee
  | wrongFinality
  | wrongCommitment
  | wrongDepositField
  | unauthorizedSolver
  | mpcThreshold
  | mpcUnknownSigner
  | mpcProofInvalid
  | mpcSignalMismatch
  | mpcDuplicateSigner
  | unknownAsset
  | assetAlreadyRegistered
  | sameAssetSwap
  | underDelivered
  | wrongPrice
  | unsupportedDomain
  | notCrossAsset
  | supplyUnderflow
  | reserveBroken
  | treeFull
  | rootMismatch
  /-- The registry's `panic!("already initialized")`. -/
  | alreadyInitialized
  /-- The registry's `panic!("unauthorized spender")`. -/
  | unauthorizedSpender
  /-- The registry's `panic!("nullifier spent")`. -/
  | nullifierSpent
  /-- A missing `require_auth` authorization. -/
  | auth
  /-- An `unwrap` on nothing, a slice out of range, a checked overflow, a failed signature check or
  a token that refuses. -/
  | host
deriving DecidableEq

/-- The circuit a verifier instance was deployed for. -/
inductive Circuit where
  | withdraw
  | transfer
  | deposit
  | mpc
  | mpcPriced
deriving DecidableEq

/-- The host and the contracts around the pool: hashes, signatures, pairing checks, the pool's own
address. -/
structure Env where
  /-- Poseidon over BLS12-381. -/
  poseidon : List Bls12381 → Bls12381
  sha256 : List UInt8 → Bytes32
  ed25519 : Bytes32 → List UInt8 → BytesN 64 → Bool
  /-- The pairing check of the verifier at an address, deployed with the key of a circuit. -/
  groth16 : Circuit → Address → List UInt8 → List Bls12381 → Bool
  pool : Address

/-! ## Words and numbers -/

/-- A 128-bit number as `i128`. -/
def asI128 (x : ℕ) : ℤ := if x < 2 ^ 127 then x else x - 2 ^ 128

/-- `fr32_to_i128`: the low 16 bytes of a word. -/
def fr32ToI128 (b : Bytes32) : ℤ := asI128 (Bytes.toNat (b.bytes.drop 16))

/-- `i128` arithmetic with overflow checks. -/
def checkI128 (x : ℤ) : Except Error ℤ := do
  require (-2 ^ 127 ≤ x ∧ x < 2 ^ 127) .host
  return x

/-- `i128::to_be_bytes`. -/
def i128Bytes (x : ℤ) : List UInt8 := Bytes.ofNat 16 (x % 2 ^ 128).toNat

/-- `hash_to_field`: the top 31 bytes, shifted right by one. -/
def hashToField (h : Bytes32) : Bytes32 where
  bytes := 0 :: h.bytes.take 31
  length_eq := by simp [h.length_eq]

/-- `recipient_hash`. -/
def Env.recipientHash (E : Env) (a : Address) : Bytes32 := hashToField (E.sha256 a.bytes)

/-! ## Public signals -/

/-- `bytes.slice(pos..pos + 32)`, `n` times. -/
def takeWords : ℕ → List UInt8 → Except Error (List Bytes32)
  | 0, _ => .ok []
  | n + 1, bs =>
      if h : (bs.take 32).length = 32 then do
        let rest ← takeWords n (bs.drop 32)
        return ⟨bs.take 32, h⟩ :: rest
      else .error .host

/-- `parse_public_signals`: a 32-bit length, then that many words. -/
def parsePublicSignals (bs : List UInt8) : Except Error (List Bytes32) := do
  require (4 ≤ bs.length) .host
  takeWords (Bytes.toNat (bs.take 4)) (bs.drop 4)

/-- `public_from_bytes` of the verifier: the same layout, each word reduced to a scalar. -/
def publicFromBytes (bs : List UInt8) : Except Error (List Bls12381) := do
  let words ← parsePublicSignals bs
  return words.map frFromBytes

/-- `verify` of `proof_verifiers`. -/
def Env.verify (E : Env) (c : Circuit) (verifier : Address) (proof publicInputs : List UInt8) :
    Except Error Bool := do
  if proof = [] ∨ publicInputs = [] then return false
  else
    let signals ← publicFromBytes publicInputs
    return E.groth16 c verifier proof signals

/-- `signals.get(i).unwrap()`. -/
def getSignal (signals : List Bytes32) (i : ℕ) : Except Error Bytes32 :=
  match signals[i]? with
  | some w => .ok w
  | none => .error .host

/-- A signal that is there. -/
@[simp] theorem getSignal_eq_ok {signals : List Bytes32} {i : ℕ} {w : Bytes32} :
    getSignal signals i = .ok w ↔ signals[i]? = some w := by
  unfold getSignal
  split <;> simp_all

/-- A number that fits an `i128`. -/
@[simp] theorem checkI128_eq_ok {x y : ℤ} :
    checkI128 x = .ok y ↔ (-2 ^ 127 ≤ x ∧ x < 2 ^ 127) ∧ x = y := by
  simp [checkI128]

/-! ## What the codecs lose -/

/-- The low half of a word. -/
theorem drop_toNat (b : Bytes32) : Bytes.toNat (b.bytes.drop 16) = b.toNat % 2 ^ 128 := by
  have hlen : (b.bytes.drop 16).length = 16 := by simp [b.length_eq]
  have hlt := Bytes.toNat_lt (b.bytes.drop 16)
  have happ := Bytes.toNat_append (b.bytes.take 16) (b.bytes.drop 16)
  rw [List.take_append_drop, hlen] at happ
  rw [hlen] at hlt
  rw [BytesN.toNat, happ, show (2 : ℕ) ^ 128 = 256 ^ 16 by norm_num, Nat.mul_add_mod',
    Nat.mod_eq_of_lt hlt]

/-- The decoding forgets the high half of the word. -/
theorem fr32ToI128_eq (b : Bytes32) : fr32ToI128 b = asI128 (b.toNat % 2 ^ 128) := by
  rw [fr32ToI128, drop_toNat]

/-- On a word without a high half a non-negative result is the word's number. -/
theorem toNat_of_fr32ToI128 {b : Bytes32} {x : ℤ} (hb : b.toNat < 2 ^ 128) (h : fr32ToI128 b = x)
    (hx : 0 ≤ x) : (b.toNat : ℤ) = x := by
  rw [fr32ToI128_eq, Nat.mod_eq_of_lt hb, asI128] at h
  split at h <;> omega

/-! ## Encoding -/

/-- The string `circom2soroban` produces: the length and the words. -/
def encodeSignals (ws : List Bytes32) : List UInt8 :=
  Bytes.ofNat 4 ws.length ++ ws.flatMap BytesN.bytes

/-- Words are taken back. -/
theorem takeWords_flatMap (ws : List Bytes32) (rest : List UInt8) :
    takeWords ws.length (ws.flatMap BytesN.bytes ++ rest) = .ok ws := by
  induction ws with
  | nil => rfl
  | cons w ws ih =>
      have htake : ((w :: ws).flatMap BytesN.bytes ++ rest).take 32 = w.bytes := by
        simp [w.length_eq]
      have hdrop : ((w :: ws).flatMap BytesN.bytes ++ rest).drop 32 =
          ws.flatMap BytesN.bytes ++ rest := by
        simp [w.length_eq]
      rw [List.length_cons, takeWords]
      simp only [htake, hdrop, ih, w.length_eq, ok_bind, dite_true]
      rfl

/-- **Round trip.** A signal string decodes to the words it was made of. -/
theorem parsePublicSignals_encodeSignals {ws : List Bytes32} (hlen : ws.length < 2 ^ 32) :
    parsePublicSignals (encodeSignals ws) = .ok ws := by
  have htake : (encodeSignals ws).take 4 = Bytes.ofNat 4 ws.length := by
    simp [encodeSignals]
  have hdrop : (encodeSignals ws).drop 4 = ws.flatMap BytesN.bytes ++ [] := by
    simp [encodeSignals]
  rw [parsePublicSignals, require_of (by simp [encodeSignals]), ok_bind, htake, hdrop,
    Bytes.toNat_ofNat_of_lt (by simpa using hlen), takeWords_flatMap]

end ShadePay.Stellar
