import ShadePay.Stellar.Codec
import ShadePay.Stellar.LeanImt
import ShadePay.Circuit.Gadgets

/-!
# The Soroban shielded pool

`contracts/stellar/shielded_pool` with the `nullifier_registry` it spends in. The host forbids
re-entrancy, so an invocation is one function from state to state; `none` of its effects remain when
it fails. `Call` lists the entry points of both contracts, `invoke` runs one with the set of
accounts that authorized it, and `run` a sequence of invocations and of what happens around them:
tokens that arrive, and ledgers that close.

`upgrade` replaces the code and has no counterpart here. The log of `events` and the list of
`payments`, the token transfers and burns the pool made, are written and never read.
-/

namespace ShadePay.Stellar

open Guard

/-! ## State -/

/-- Storage of `nullifier_registry`. -/
structure Registry where
  admin : Option Address
  paused : Bool
  spent : Bytes32 → Bool
  authorized : Address → Bool

/-- The tree part of the pool's storage: `TREE_DEPTH`, `TREE_LEAVES`, `TREE_ROOT_KEY` and the
`KnownRoot` entries. -/
structure TreeStore where
  depth : ℕ
  leaves : List Bytes32
  root : Bytes32
  knownRoot : Bytes32 → Bool

/-- The events of the pool, by their topic. -/
inductive Event where
  | deposit (sourceDomain : ℕ) (cctpNonce : Bytes32) (asset : Address) (amount : ℤ)
      (commitment encryptedNotePayloadHash policyId : Bytes32) (leafIndex : ℕ) (root : Bytes32)
  | withdraw (recipient : Address) (nullifierHash : Bytes32) (net relayerFee : ℤ)
  | xfer (nullifierHash outputCommitment : Bytes32) (leafIndex : ℕ) (root : Bytes32)
  | regasset (assetId : Bytes32) (token : Address)
  | cctpout (destinationDomain : ℕ) (recipient : Address) (nullifierHash destinationRecipient : Bytes32)
      (amount : ℤ)
  | rfq (quoteHash : Bytes32) (toSolver : Address) (nullifierHash : Bytes32) (credit : ℤ)
  | rfqswap (quoteHash : Bytes32) (userXlmRecipient solverUsdcRecipient : Address)
      (nullifierHash : Bytes32) (quotedOutput credit : ℤ)
  | mpc (batchHash nullifierA nullifierB outputCommitmentA outputCommitmentB root : Bytes32)
  | mpcprice (batchHash nullifierA nullifierB outputCommitmentA outputCommitmentB root : Bytes32)
deriving DecidableEq

/-- Tokens the pool sent away: a transfer, or a burn through the CCTP messenger. -/
inductive Payment where
  | transfer (token recipient : Address) (amount : ℤ)
  | burn (token : Address) (amount : ℤ) (destinationDomain : ℕ) (destinationRecipient : Bytes32)
      (maxFee : ℤ) (minFinalityThreshold : ℕ)
deriving DecidableEq

/-- The ledger state the pool sees. `balance token holder` is the token contracts' own. -/
structure State where
  admin : Address
  usdc : Address
  verifier : Address
  xverifier : Option Address
  depverifier : Option Address
  mpcVerifier : Option Address
  mpcPricedVerifier : Option Address
  tmm : Option Address
  paused : Bool
  poolId : ℕ
  chainId : ℕ
  tree : TreeStore
  leafCount : ℕ
  assocRoot : Option Bytes32
  committee : Option (List Bytes32)
  deposit : Bytes32 → Bool
  solver : Bytes32 → Bool
  assetToken : Bytes32 → Option Address
  noteSupply : Bytes32 → ℤ
  registry : Registry
  balance : Address → Address → ℤ
  ledger : ℕ
  events : List Event
  payments : List Payment

/-- `[0u8; 32]`. -/
def zeroWord : Bytes32 := .ofNat 32 0

/-- The state `__constructor` leaves, beside a registry that has not been initialised. -/
def construct (admin usdc verifier : Address) (depth poolId chainId : ℕ)
    (balance : Address → Address → ℤ) (ledger : ℕ) : State where
  admin := admin
  usdc := usdc
  verifier := verifier
  xverifier := none
  depverifier := none
  mpcVerifier := none
  mpcPricedVerifier := none
  tmm := none
  paused := false
  poolId := poolId
  chainId := chainId
  tree := ⟨depth, [], zeroWord, Function.update (fun _ => false) zeroWord true⟩
  leafCount := 0
  assocRoot := none
  committee := none
  deposit := fun _ => false
  solver := fun _ => false
  assetToken := fun _ => none
  noteSupply := fun _ => 0
  registry := ⟨none, false, fun _ => false, fun _ => false⟩
  balance := balance
  ledger := ledger
  events := []
  payments := []

/-! ## Internal functions -/

/-- `spend` of the registry, once its caller is authenticated. -/
def Registry.spend (caller : Address) (nullifier : Bytes32) (r : Registry) :
    Except Error Registry := do
  require (r.paused = false) .paused
  require (r.authorized caller = true) .unauthorizedSpender
  require (r.spent nullifier = false) .nullifierSpent
  return { r with spent := Function.update r.spent nullifier true }

variable (E : Env)

/-- `append_leaf`: rebuild the tree from the stored leaves, insert, and record the root. -/
def TreeStore.appendLeaf (h : Bls12381 → Bls12381 → Bls12381) (commitment : Bytes32)
    (t : TreeStore) : Except Error (Bytes32 × TreeStore) :=
  match (LeanIMT.insertAll h t.leaves (LeanIMT.new h t.depth)).bind (LeanIMT.insert h commitment) with
  | none => .error .treeFull
  | some tree => .ok (tree.root, { t with
      leaves := t.leaves ++ [commitment]
      root := tree.root
      knownRoot := Function.update t.knownRoot tree.root true })

namespace State

/-- `require_not_paused`. -/
def requireNotPaused (s : State) : Except Error Unit := require (s.paused = false) .paused

/-- `require_auth`. -/
def requireAuth (auth : Address → Bool) (a : Address) : Except Error Unit :=
  require (auth a = true) .auth

/-- `env.storage().instance().get(&KEY).unwrap()`. -/
def unwrap {α : Type} (x : Option α) (e : Error) : Except Error α :=
  match x with
  | some a => .ok a
  | none => .error e

@[simp] theorem unwrap_eq_ok {α : Type} {x : Option α} {e : Error} {a : α} :
    unwrap x e = .ok a ↔ x = some a := by
  cases x <;> simp [unwrap]

/-- `invoke_contract(verifier, "verify", ..)`, and the caller's check of its answer. -/
def requireVerified (c : Circuit) (verifier : Address) (proof pub : List UInt8) (e : Error) :
    Except Error Unit := do
  let ok ← E.verify c verifier proof pub
  require (ok = true) e

/-- The pool's own `spend`. -/
def spend (nullifier : Bytes32) (s : State) : Except Error State := do
  let r ← s.registry.spend E.pool nullifier
  return { s with registry := r }

/-- `append_leaf` on the pool's tree. -/
def appendLeaf (commitment : Bytes32) (s : State) : Except Error (Bytes32 × State) := do
  let (root, t) ← s.tree.appendLeaf (hash2 E.poseidon) commitment
  return (root, { s with tree := t })

/-- The token balance of the pool. -/
def poolBalance (token : Address) (s : State) : ℤ := s.balance token E.pool

/-- Balances after a transfer of `amount` out of the pool. -/
def moveTokens (token recipient : Address) (amount : ℤ) (s : State) : Address → Address → ℤ :=
  let b := Function.update (s.balance token) E.pool (s.balance token E.pool - amount)
  Function.update s.balance token (Function.update b recipient (b recipient + amount))

/-- The balance check and `TokenClient::transfer` out of the pool. -/
def pay (token recipient : Address) (amount : ℤ) (s : State) : Except Error State := do
  require (amount ≤ s.poolBalance E token) .insufficientBalance
  require (0 ≤ amount) .host
  return { s with
    balance := s.moveTokens E token recipient amount
    payments := s.payments ++ [.transfer token recipient amount] }

/-- `get_asset_token`. -/
def getAssetToken (assetId : Bytes32) (s : State) : Except Error Address :=
  unwrap (s.assetToken assetId) .unknownAsset

/-- `adjust_note_supply`. -/
def adjustNoteSupply (assetId : Bytes32) (delta : ℤ) (s : State) : Except Error State := do
  let token ← s.getAssetToken assetId
  let next ← checkI128 (s.noteSupply assetId + delta)
  require (0 ≤ next) .supplyUnderflow
  require (next ≤ s.poolBalance E token) .reserveBroken
  return { s with noteSupply := Function.update s.noteSupply assetId next }

/-- `check_domain_compliance` of the withdraw family, on signals 7, 8 and 9. -/
def checkDomainCompliance (signals : List Bytes32) (s : State) : Except Error Unit := do
  let assocIn ← getSignal signals 7
  let poolIn ← getSignal signals 8
  let chainIn ← getSignal signals 9
  require (fr32ToI128 poolIn = s.poolId ∧ fr32ToI128 chainIn = s.chainId) .wrongDomain
  require (assocIn = s.assocRoot.getD zeroWord) .wrongAssociation

/-- The `KnownRoot` lookup. -/
def requireKnownRoot (root : Bytes32) (s : State) : Except Error Unit :=
  require (s.tree.knownRoot root = true) .unknownRoot

/-- `env.ledger().sequence() <= deadline`. -/
def requireNotExpired (deadline : Bytes32) (s : State) : Except Error Unit :=
  require ((s.ledger : ℤ) ≤ fr32ToI128 deadline) .expired

/-- The signer loop of `verify_committee_threshold`: the number of verified signatures. -/
def verifySigners (committee : List Bytes32) (msg : List UInt8) :
    List Bytes32 → List (BytesN 64) → List Bytes32 → Except Error ℕ
  | [], _, _ => .ok 0
  | pk :: pks, sigs, seen => do
      require (pk ∈ committee) .mpcUnknownSigner
      require (pk ∉ seen) .mpcDuplicateSigner
      let sig ← unwrap sigs.head? .host
      require (E.ed25519 pk msg sig = true) .host
      let n ← verifySigners committee msg pks sigs.tail (seen ++ [pk])
      return n + 1

/-- `verify_committee_threshold`. -/
def verifyCommitteeThreshold (batchHash : Bytes32) (signers : List Bytes32)
    (signatures : List (BytesN 64)) (s : State) : Except Error Unit := do
  let committee ← unwrap s.committee .notInitialized
  require (committee.length ≠ 0) .notInitialized
  let threshold := (committee.length * 2 + 2) / 3
  require (threshold ≤ signers.length ∧ threshold ≤ signatures.length) .mpcThreshold
  let verified ← verifySigners E committee batchHash.bytes signers signatures []
  require (threshold ≤ verified) .mpcThreshold

/-! ## Entry points of the pool -/

/-- `receive_cctp_deposit`. -/
def receiveCctpDeposit (auth : Address → Bool) (sourceDomain : ℕ) (cctpNonce : Bytes32)
    (asset : Address) (amount : ℤ) (commitment newRoot encryptedNotePayloadHash policyId : Bytes32)
    (proof pub : List UInt8) (s : State) : Except Error (ℕ × State) := do
  s.requireNotPaused
  requireAuth auth s.admin
  require (0 < amount) .badAmount
  require (s.deposit cctpNonce = false) .duplicateDeposit
  let signals ← parsePublicSignals pub
  let sig0 ← getSignal signals 0
  require (sig0 = commitment) .wrongCommitment
  let sig1 ← getSignal signals 1
  require (fr32ToI128 sig1 = 4) .wrongOperation
  let sig2 ← getSignal signals 2
  require (fr32ToI128 sig2 = sourceDomain) .wrongDepositField
  let sig7 ← getSignal signals 7
  require (fr32ToI128 sig7 = amount) .wrongDepositField
  let sig3 ← getSignal signals 3
  require (fr32ToI128 sig3 = 27) .wrongDepositField
  let sig5 ← getSignal signals 5
  require (fr32ToI128 sig5 ≠ 0) .wrongDepositField
  let sig6 ← getSignal signals 6
  require (0 < fr32ToI128 sig6) .wrongDepositField
  let amount7 ← checkI128 (fr32ToI128 sig6 * 10)
  require (amount ≤ amount7) .wrongDepositField
  let sig4 ← getSignal signals 4
  require (hashToField cctpNonce = sig4) .wrongDepositField
  let sig10 ← getSignal signals 10
  require (hashToField encryptedNotePayloadHash = sig10) .wrongDepositField
  let sig11 ← getSignal signals 11
  require (hashToField policyId = sig11) .wrongDepositField
  let sig8 ← getSignal signals 8
  require (E.recipientHash asset = sig8) .wrongDepositField
  let sig9 ← getSignal signals 9
  require (E.recipientHash E.pool = sig9) .wrongDepositField
  let sig12 ← getSignal signals 12
  let sig13 ← getSignal signals 13
  require (fr32ToI128 sig12 = s.poolId ∧ fr32ToI128 sig13 = s.chainId) .wrongDomain
  let depVerifier ← unwrap s.depverifier .host
  requireVerified E .deposit depVerifier proof pub .proofInvalid
  let leafIndex := s.leafCount
  let (computedRoot, s₁) ← { s with leafCount := leafIndex + 1 }.appendLeaf E commitment
  require (newRoot = computedRoot) .rootMismatch
  let s₂ ← { s₁ with deposit := Function.update s₁.deposit cctpNonce true }.adjustNoteSupply E sig8
    amount
  return (leafIndex, { s₂ with events := s₂.events ++ [.deposit sourceDomain cctpNonce asset amount
    commitment encryptedNotePayloadHash policyId leafIndex computedRoot] })

/-- `withdraw`. -/
def withdraw (auth : Address → Bool) (recipient : Address) (proof pub : List UInt8) (s : State) :
    Except Error State := do
  s.requireNotPaused
  requireAuth auth recipient
  let signals ← parsePublicSignals pub
  let opType ← getSignal signals 1
  let nullifierHash ← getSignal signals 0
  let withdrawnValue ← getSignal signals 2
  let recipientHash ← getSignal signals 3
  let relayerFee ← getSignal signals 4
  let deadline ← getSignal signals 5
  let stateRoot ← getSignal signals 6
  let assetId ← getSignal signals 17
  require (fr32ToI128 opType = 1) .wrongOperation
  require (0 < fr32ToI128 withdrawnValue ∧ 0 ≤ fr32ToI128 relayerFee ∧
    fr32ToI128 relayerFee ≤ fr32ToI128 withdrawnValue) .badAmount
  s.requireNotExpired deadline
  require (recipientHash = E.recipientHash recipient) .wrongRecipient
  s.checkDomainCompliance signals
  s.requireKnownRoot stateRoot
  requireVerified E .withdraw s.verifier proof pub .proofInvalid
  let s₁ ← s.spend E nullifierHash
  let net := fr32ToI128 withdrawnValue - fr32ToI128 relayerFee
  let token ← s₁.getAssetToken assetId
  let s₂ ← s₁.pay E token recipient net
  let s₃ ← s₂.adjustNoteSupply E assetId (-fr32ToI128 withdrawnValue)
  return { s₃ with events := s₃.events ++ [.withdraw recipient nullifierHash net (fr32ToI128 relayerFee)] }

/-- `private_transfer_settle`. -/
def privateTransferSettle (auth : Address → Bool) (proof pub : List UInt8) (newRoot : Bytes32)
    (s : State) : Except Error State := do
  s.requireNotPaused
  requireAuth auth s.admin
  let signals ← parsePublicSignals pub
  let nullifierHash ← getSignal signals 0
  let outputCommitment ← getSignal signals 1
  let stateRoot ← getSignal signals 3
  let assocIn ← getSignal signals 4
  require (assocIn = s.assocRoot.getD zeroWord) .wrongAssociation
  let poolIn ← getSignal signals 5
  let chainIn ← getSignal signals 6
  require (fr32ToI128 poolIn = s.poolId ∧ fr32ToI128 chainIn = s.chainId) .wrongDomain
  s.requireKnownRoot stateRoot
  let verifier ← unwrap s.xverifier .host
  requireVerified E .transfer verifier proof pub .proofInvalid
  let s₁ ← s.spend E nullifierHash
  let leafIndex := s₁.leafCount
  let (computedRoot, s₂) ← { s₁ with leafCount := leafIndex + 1 }.appendLeaf E outputCommitment
  require (newRoot = computedRoot) .rootMismatch
  return { s₂ with events := s₂.events ++
    [.xfer nullifierHash outputCommitment leafIndex computedRoot] }

/-- `withdraw_cctp`. The messenger pulls the burned amount out of the allowance it is given. -/
def withdrawCctp (auth : Address → Bool) (recipient : Address) (proof pub : List UInt8)
    (destinationDomain : ℕ) (destinationRecipient : Bytes32) (maxFee : ℤ)
    (minFinalityThreshold : ℕ) (s : State) : Except Error (ℤ × State) := do
  s.requireNotPaused
  requireAuth auth recipient
  let signals ← parsePublicSignals pub
  let opType ← getSignal signals 1
  let nullifierHash ← getSignal signals 0
  let amountWord ← getSignal signals 2
  let deadline ← getSignal signals 5
  let stateRoot ← getSignal signals 6
  let assetId ← getSignal signals 17
  let amount := fr32ToI128 amountWord
  require (0 < amount) .badAmount
  require (fr32ToI128 opType = 2) .wrongOperation
  require (assetId = E.recipientHash s.usdc) .unknownAsset
  s.requireNotExpired deadline
  require (destinationDomain = 3) .unsupportedDomain
  let sig13 ← getSignal signals 13
  require (fr32ToI128 sig13 = destinationDomain) .wrongDestDomain
  let sig14 ← getSignal signals 14
  require (sig14 = destinationRecipient) .wrongDestRecipient
  let sig15 ← getSignal signals 15
  require (fr32ToI128 sig15 = maxFee) .wrongMaxFee
  let sig16 ← getSignal signals 16
  require (fr32ToI128 sig16 = minFinalityThreshold) .wrongFinality
  s.checkDomainCompliance signals
  s.requireKnownRoot stateRoot
  requireVerified E .withdraw s.verifier proof pub .proofInvalid
  let s₁ ← s.spend E nullifierHash
  let _ ← unwrap s₁.tmm .host
  let _ ← checkI128 (amount + if 0 < maxFee then maxFee else 0)
  require (amount ≤ s₁.poolBalance E s₁.usdc) .host
  let s₂ : State := { s₁ with
    balance := Function.update s₁.balance s₁.usdc (Function.update (s₁.balance s₁.usdc) E.pool
      (s₁.poolBalance E s₁.usdc - amount))
    payments := s₁.payments ++ [.burn s₁.usdc amount destinationDomain destinationRecipient maxFee
      minFinalityThreshold] }
  let s₃ ← s₂.adjustNoteSupply E assetId (-amount)
  return (amount, { s₃ with events := s₃.events ++
    [.cctpout destinationDomain recipient nullifierHash destinationRecipient amount] })

/-- `rfq_settle`. It pays in USDC and leaves the note supply as it is. -/
def rfqSettle (toSolver : Address) (proof pub : List UInt8)
    (quoteHash intentHash fillReceiptHash solverPubkey : Bytes32) (solverSig : BytesN 64)
    (s : State) : Except Error State := do
  s.requireNotPaused
  require (s.solver solverPubkey = true) .unauthorizedSolver
  require (E.ed25519 solverPubkey quoteHash.bytes solverSig = true) .host
  let signals ← parsePublicSignals pub
  let opType ← getSignal signals 1
  let nullifierHash ← getSignal signals 0
  let creditWord ← getSignal signals 2
  let relayerFee ← getSignal signals 4
  let deadline ← getSignal signals 5
  let stateRoot ← getSignal signals 6
  let credit := fr32ToI128 creditWord
  require (0 < credit ∧ 0 ≤ fr32ToI128 relayerFee ∧ fr32ToI128 relayerFee ≤ credit) .badAmount
  require (fr32ToI128 opType = 3) .wrongOperation
  s.requireNotExpired deadline
  let sig10 ← getSignal signals 10
  require (hashToField quoteHash = sig10) .wrongQuote
  let sig11 ← getSignal signals 11
  require (hashToField intentHash = sig11) .wrongIntent
  let sig12 ← getSignal signals 12
  require (hashToField fillReceiptHash = sig12) .wrongFillReceipt
  s.checkDomainCompliance signals
  s.requireKnownRoot stateRoot
  requireVerified E .withdraw s.verifier proof pub .proofInvalid
  let s₁ ← s.spend E nullifierHash
  let s₂ ← s₁.pay E s₁.usdc toSolver credit
  return { s₂ with events := s₂.events ++ [.rfq quoteHash toSolver nullifierHash credit] }

/-- The byte string `terms` the solver of an atomic swap signs the hash of. -/
def swapTerms (quoteHash outputAssetId : Bytes32) (quotedOutput minOutput priceScaled : ℤ)
    (recipient : Bytes32) : List UInt8 :=
  quoteHash.bytes ++ outputAssetId.bytes ++ i128Bytes quotedOutput ++ i128Bytes minOutput ++
    i128Bytes priceScaled ++ recipient.bytes

/-- `rfq_settle_atomic_swap`. The output asset leaves the pool without a change of its supply. -/
def rfqSettleAtomicSwap (userXlmRecipient solverUsdcRecipient : Address) (proof pub : List UInt8)
    (quoteHash intentHash fillReceiptHash outputAssetId : Bytes32)
    (quotedOutput minOutput priceScaled : ℤ) (solverPubkey : Bytes32) (solverSig : BytesN 64)
    (s : State) : Except Error State := do
  s.requireNotPaused
  require (s.solver solverPubkey = true) .unauthorizedSolver
  require (0 < quotedOutput ∧ 0 < minOutput ∧ minOutput ≤ quotedOutput ∧ 0 < priceScaled)
    .underDelivered
  let swapHash := E.sha256 (swapTerms quoteHash outputAssetId quotedOutput minOutput priceScaled
    (E.recipientHash userXlmRecipient))
  require (E.ed25519 solverPubkey swapHash.bytes solverSig = true) .host
  let signals ← parsePublicSignals pub
  let opType ← getSignal signals 1
  let nullifierHash ← getSignal signals 0
  let withdrawnWord ← getSignal signals 2
  let relayerFee ← getSignal signals 4
  let deadline ← getSignal signals 5
  let stateRoot ← getSignal signals 6
  let inputAssetId ← getSignal signals 17
  let withdrawnValue := fr32ToI128 withdrawnWord
  require (fr32ToI128 opType = 5) .wrongOperation
  require (0 < withdrawnValue ∧ 0 ≤ fr32ToI128 relayerFee ∧ fr32ToI128 relayerFee ≤ withdrawnValue)
    .badAmount
  s.requireNotExpired deadline
  require (withdrawnValue * priceScaled < 2 ^ 127) .badAmount
  require (quotedOutput = withdrawnValue * priceScaled / 1000000000) .wrongPrice
  require (outputAssetId ≠ inputAssetId) .sameAssetSwap
  let sig10 ← getSignal signals 10
  require (hashToField quoteHash = sig10) .wrongQuote
  let sig11 ← getSignal signals 11
  require (hashToField intentHash = sig11) .wrongIntent
  let sig12 ← getSignal signals 12
  require (hashToField fillReceiptHash = sig12) .wrongFillReceipt
  s.checkDomainCompliance signals
  s.requireKnownRoot stateRoot
  requireVerified E .withdraw s.verifier proof pub .proofInvalid
  let s₁ ← s.spend E nullifierHash
  let outToken ← s₁.getAssetToken outputAssetId
  let s₂ ← s₁.pay E outToken userXlmRecipient quotedOutput
  let credit := withdrawnValue - fr32ToI128 relayerFee
  let inToken ← s₂.getAssetToken inputAssetId
  let s₃ ← s₂.pay E inToken solverUsdcRecipient credit
  let s₄ ← s₃.adjustNoteSupply E inputAssetId (-withdrawnValue)
  return { s₄ with events := s₄.events ++ [.rfqswap quoteHash userXlmRecipient solverUsdcRecipient
    nullifierHash quotedOutput credit] }

/-- `mpc_settle`. -/
def mpcSettle (nullifierA nullifierB outputCommitmentA outputCommitmentB newRoot batchHash : Bytes32)
    (signers : List Bytes32) (signatures : List (BytesN 64)) (proof pub : Option (List UInt8))
    (s : State) : Except Error State := do
  s.requireNotPaused
  s.verifyCommitteeThreshold E batchHash signers signatures
  let verifier ← unwrap s.mpcVerifier .mpcProofInvalid
  let pb ← unwrap proof .mpcProofInvalid
  let sb ← unwrap pub .mpcProofInvalid
  requireVerified E .mpc verifier pb sb .mpcProofInvalid
  let signals ← parsePublicSignals sb
  let sig0 ← getSignal signals 0
  require (sig0 = nullifierA) .mpcSignalMismatch
  let sig1 ← getSignal signals 1
  require (sig1 = nullifierB) .mpcSignalMismatch
  let sig2 ← getSignal signals 2
  require (sig2 = outputCommitmentA) .mpcSignalMismatch
  let sig3 ← getSignal signals 3
  require (sig3 = outputCommitmentB) .mpcSignalMismatch
  let stateRoot ← getSignal signals 4
  s.requireKnownRoot stateRoot
  let assocRoot ← getSignal signals 5
  let canonical ← unwrap s.assocRoot .wrongAssociation
  require (assocRoot = canonical) .wrongAssociation
  let sig6 ← getSignal signals 6
  require (sig6 = hashToField batchHash) .mpcSignalMismatch
  let poolIn ← getSignal signals 7
  let chainIn ← getSignal signals 8
  require (fr32ToI128 poolIn = s.poolId ∧ fr32ToI128 chainIn = s.chainId) .wrongDomain
  let deadline ← getSignal signals 10
  s.requireNotExpired deadline
  let s₁ ← s.spend E nullifierA
  let s₂ ← s₁.spend E nullifierB
  let (_, s₃) ← { s₂ with leafCount := s₂.leafCount + 2 }.appendLeaf E outputCommitmentA
  let (computedRoot, s₄) ← s₃.appendLeaf E outputCommitmentB
  require (newRoot = computedRoot) .rootMismatch
  return { s₄ with events := s₄.events ++
    [.mpc batchHash nullifierA nullifierB outputCommitmentA outputCommitmentB computedRoot] }

/-- `mpc_settle_priced`. -/
def mpcSettlePriced
    (nullifierA nullifierB outputCommitmentA outputCommitmentB newRoot batchHash : Bytes32)
    (signers : List Bytes32) (signatures : List (BytesN 64)) (proof pub : Option (List UInt8))
    (s : State) : Except Error State := do
  s.requireNotPaused
  s.verifyCommitteeThreshold E batchHash signers signatures
  let verifier ← unwrap s.mpcPricedVerifier .mpcProofInvalid
  let pb ← unwrap proof .mpcProofInvalid
  let sb ← unwrap pub .mpcProofInvalid
  requireVerified E .mpcPriced verifier pb sb .mpcProofInvalid
  let signals ← parsePublicSignals sb
  let sig0 ← getSignal signals 0
  require (sig0 = nullifierA) .mpcSignalMismatch
  let sig1 ← getSignal signals 1
  require (sig1 = nullifierB) .mpcSignalMismatch
  let sig2 ← getSignal signals 2
  require (sig2 = outputCommitmentA) .mpcSignalMismatch
  let sig3 ← getSignal signals 3
  require (sig3 = outputCommitmentB) .mpcSignalMismatch
  let stateRoot ← getSignal signals 4
  s.requireKnownRoot stateRoot
  let assocRoot ← getSignal signals 5
  let canonical ← unwrap s.assocRoot .wrongAssociation
  require (assocRoot = canonical) .wrongAssociation
  let sig6 ← getSignal signals 6
  require (sig6 = hashToField batchHash) .mpcSignalMismatch
  let poolIn ← getSignal signals 7
  let chainIn ← getSignal signals 8
  require (fr32ToI128 poolIn = s.poolId ∧ fr32ToI128 chainIn = s.chainId) .wrongDomain
  let deadline ← getSignal signals 9
  s.requireNotExpired deadline
  let inputA ← getSignal signals 10
  let inputB ← getSignal signals 12
  require (inputA ≠ inputB) .notCrossAsset
  let _ ← s.getAssetToken inputA
  let _ ← s.getAssetToken inputB
  let matchedA ← getSignal signals 14
  let matchedB ← getSignal signals 15
  let s₁ ← s.spend E nullifierA
  let s₂ ← s₁.spend E nullifierB
  require (0 < fr32ToI128 matchedA ∧ 0 < fr32ToI128 matchedB) .badAmount
  let (_, s₃) ← { s₂ with leafCount := s₂.leafCount + 2 }.appendLeaf E outputCommitmentA
  let (computedRoot, s₄) ← s₃.appendLeaf E outputCommitmentB
  require (newRoot = computedRoot) .rootMismatch
  return { s₄ with events := s₄.events ++
    [.mpcprice batchHash nullifierA nullifierB outputCommitmentA outputCommitmentB computedRoot] }

/-- `register_asset`. -/
def registerAsset (auth : Address → Bool) (assetId : Bytes32) (token : Address) (s : State) :
    Except Error State := do
  requireAuth auth s.admin
  require (s.assetToken assetId = none) .assetAlreadyRegistered
  return { s with
    assetToken := Function.update s.assetToken assetId (some token)
    noteSupply := Function.update s.noteSupply assetId 0
    events := s.events ++ [.regasset assetId token] }

end State

/-! ## Administration -/

/-- The configuration calls of the pool and of the registry. -/
inductive AdminCall where
  | setCctpMessenger (tmm : Address)
  | setTransferVerifier (verifier : Address)
  | setDepositVerifier (verifier : Address)
  | setAuthorizedSolver (solverPubkey : Bytes32) (allowed : Bool)
  | setAssociationRoot (root : Bytes32)
  | setCommittee (pubkeys : List Bytes32)
  | setMpcVerifier (verifier : Address)
  | setMpcPricedVerifier (verifier : Address)
  | pause
  | unpause
  | transferAdmin (newAdmin : Address)
  | registryInitialize (admin : Address)
  | registrySetAuthorizedSpender (spender : Address) (allowed : Bool)
  | registryPause
  | registryUnpause

/-- A setter behind `require_admin`. -/
def State.asAdmin (auth : Address → Bool) (f : State → State) (s : State) : Except Error State := do
  State.requireAuth auth s.admin
  return f s

/-- A setter of the registry behind its own `require_admin`. -/
def State.asRegistryAdmin (auth : Address → Bool) (f : Registry → Registry) (s : State) :
    Except Error State := do
  let admin ← State.unwrap s.registry.admin .host
  State.requireAuth auth admin
  return { s with registry := f s.registry }

/-- `initialize` of the registry. -/
def State.registryInitialize (auth : Address → Bool) (admin : Address) (s : State) :
    Except Error State := do
  require (s.registry.admin = none) .alreadyInitialized
  State.requireAuth auth admin
  return { s with registry := { s.registry with admin := some admin, paused := false } }

/-- Run a configuration call. -/
def AdminCall.invoke (auth : Address → Bool) : AdminCall → State → Except Error State
  | .setCctpMessenger a, s => s.asAdmin auth fun s => { s with tmm := some a }
  | .setTransferVerifier a, s => s.asAdmin auth fun s => { s with xverifier := some a }
  | .setDepositVerifier a, s => s.asAdmin auth fun s => { s with depverifier := some a }
  | .setAuthorizedSolver pk allowed, s =>
      s.asAdmin auth fun s => { s with solver := Function.update s.solver pk allowed }
  | .setAssociationRoot r, s => s.asAdmin auth fun s => { s with assocRoot := some r }
  | .setCommittee pks, s => s.asAdmin auth fun s => { s with committee := some pks }
  | .setMpcVerifier a, s => s.asAdmin auth fun s => { s with mpcVerifier := some a }
  | .setMpcPricedVerifier a, s => s.asAdmin auth fun s => { s with mpcPricedVerifier := some a }
  | .pause, s => s.asAdmin auth fun s => { s with paused := true }
  | .unpause, s => s.asAdmin auth fun s => { s with paused := false }
  | .transferAdmin a, s => s.asAdmin auth fun s => { s with admin := a }
  | .registryInitialize a, s => s.registryInitialize auth a
  | .registrySetAuthorizedSpender a allowed, s => s.asRegistryAdmin auth fun r =>
      { r with authorized := Function.update r.authorized a allowed }
  | .registryPause, s => s.asRegistryAdmin auth fun r => { r with paused := true }
  | .registryUnpause, s => s.asRegistryAdmin auth fun r => { r with paused := false }

/-! ## Runs -/

/-- The entry points. -/
inductive Call where
  | receiveCctpDeposit (sourceDomain : ℕ) (cctpNonce : Bytes32) (asset : Address) (amount : ℤ)
      (commitment newRoot encryptedNotePayloadHash policyId : Bytes32) (proof pub : List UInt8)
  | withdraw (recipient : Address) (proof pub : List UInt8)
  | privateTransferSettle (proof pub : List UInt8) (newRoot : Bytes32)
  | withdrawCctp (recipient : Address) (proof pub : List UInt8) (destinationDomain : ℕ)
      (destinationRecipient : Bytes32) (maxFee : ℤ) (minFinalityThreshold : ℕ)
  | rfqSettle (toSolver : Address) (proof pub : List UInt8)
      (quoteHash intentHash fillReceiptHash solverPubkey : Bytes32) (solverSig : BytesN 64)
  | rfqSettleAtomicSwap (userXlmRecipient solverUsdcRecipient : Address) (proof pub : List UInt8)
      (quoteHash intentHash fillReceiptHash outputAssetId : Bytes32)
      (quotedOutput minOutput priceScaled : ℤ) (solverPubkey : Bytes32) (solverSig : BytesN 64)
  | mpcSettle
      (nullifierA nullifierB outputCommitmentA outputCommitmentB newRoot batchHash : Bytes32)
      (signers : List Bytes32) (signatures : List (BytesN 64)) (proof pub : Option (List UInt8))
  | mpcSettlePriced
      (nullifierA nullifierB outputCommitmentA outputCommitmentB newRoot batchHash : Bytes32)
      (signers : List Bytes32) (signatures : List (BytesN 64)) (proof pub : Option (List UInt8))
  | registerAsset (assetId : Bytes32) (token : Address)
  /-- `spend` of the registry by some other authorized contract. -/
  | registrySpend (caller : Address) (nullifier : Bytes32)
  | admin (call : AdminCall)

/-- `spend` called on the registry directly, by a caller other than the pool. -/
def State.registrySpend (auth : Address → Bool) (caller : Address) (nullifier : Bytes32)
    (s : State) : Except Error State := do
  State.requireAuth auth caller
  require (caller ≠ E.pool) .auth
  let r ← s.registry.spend caller nullifier
  return { s with registry := r }

/-- Run a call with the accounts that authorized it. -/
def Call.invoke (auth : Address → Bool) : Call → State → Except Error State
  | .receiveCctpDeposit d n a amt c r enc pol proof pub, s => do
      let (_, s') ← s.receiveCctpDeposit E auth d n a amt c r enc pol proof pub
      return s'
  | .withdraw a proof pub, s => s.withdraw E auth a proof pub
  | .privateTransferSettle proof pub r, s => s.privateTransferSettle E auth proof pub r
  | .withdrawCctp a proof pub d r fee fin, s => do
      let (_, s') ← s.withdrawCctp E auth a proof pub d r fee fin
      return s'
  | .rfqSettle a proof pub q i f pk sig, s => s.rfqSettle E a proof pub q i f pk sig
  | .rfqSettleAtomicSwap u v proof pub q i f o qo mo ps pk sig, s =>
      s.rfqSettleAtomicSwap E u v proof pub q i f o qo mo ps pk sig
  | .mpcSettle na nb oa ob r b pks sigs proof pub, s =>
      s.mpcSettle E na nb oa ob r b pks sigs proof pub
  | .mpcSettlePriced na nb oa ob r b pks sigs proof pub, s =>
      s.mpcSettlePriced E na nb oa ob r b pks sigs proof pub
  | .registerAsset id token, s => s.registerAsset auth id token
  | .registrySpend caller n, s => s.registrySpend E auth caller n
  | .admin c, s => c.invoke auth s

/-- One step of a run: an invocation, tokens that arrive at a holder, or the next ledger. -/
inductive Step where
  | invoke (auth : Address → Bool) (call : Call)
  | arrive (token holder : Address) (amount : ℕ)
  | close

/-- A successful invocation with the states around it. -/
structure Invocation where
  call : Call
  pre : State
  post : State

/-- Run a step: the state, and the successful invocation if it was one. -/
def Step.run (s : State) : Step → State × List Invocation
  | .invoke auth call =>
      match call.invoke E auth s with
      | .ok s' => (s', [⟨call, s, s'⟩])
      | .error _ => (s, [])
  | .arrive token holder amount =>
      let b := Function.update (s.balance token) holder (s.balance token holder + amount)
      ({ s with balance := Function.update s.balance token b }, [])
  | .close => ({ s with ledger := s.ledger + 1 }, [])

/-- Run a sequence of steps: the state, and the successful invocations in order. -/
def run : List Step → State → State × List Invocation
  | [], s => (s, [])
  | t :: ts, s =>
      let (s₁, is₁) := t.run E s
      let (s₂, is₂) := run ts s₁
      (s₂, is₁ ++ is₂)

end ShadePay.Stellar
