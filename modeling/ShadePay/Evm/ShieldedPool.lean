import ShadePay.Evm.State

/-!
# The shielded pool

`contracts/arc/src/ShieldedPool.sol`. The two payout paths hand control to a token, and the CCTP exit
to the token and to the messenger, before the note supply is adjusted: those functions return the
`Kont` at which they wait, and `State.proceed` goes on from there. The checks of a function stand in
the order of the source.
-/

namespace ShadePay.Evm

open Guard

/-- The local variables of `withdrawCctp` that are live across its external calls. -/
structure Burn where
  recipient : Address
  nullifierHash : ℕ
  assetId : ℕ
  amount : ℕ
  destinationRecipient : ℕ
  maxFee : ℕ
  minFinalityThreshold : ℕ
deriving DecidableEq

/-- Where a call waits for code outside of the repository. -/
inductive Kont where
  /-- `safeTransfer`, before the tokens have moved; then the supply falls by `debit`. -/
  | transferring (token recipient : Address) (amount assetId debit : ℕ) (event : Event)
  /-- `safeTransfer`, after the tokens have moved. -/
  | transferred (token recipient : Address) (amount assetId debit : ℕ) (event : Event)
  /-- `forceApprove`. -/
  | approving (token spender : Address) (pullAmount : ℕ) (burn : Burn)
  /-- `depositForBurn`. -/
  | burning (token messenger : Address) (destinationDomain : ℕ) (burn : Burn)
deriving DecidableEq

namespace State

variable (E : Env) (s : State)

/-- `receiveDeposit`. -/
def receiveDeposit (sender : Address) (sourceDomain cctpNonce : ℕ) (token : Address)
    (amount commitment encryptedNotePayloadHash policyId : ℕ) (proof : Groth16Proof)
    (pub : DepositPub ℕ) : Except Error State := do
  s.pool.access.whenNotPaused
  s.pool.access.onlyRole .registrar sender
  require (amount ≠ 0) .badAmount
  require (s.pool.depositUsed cctpNonce = false) .duplicateDeposit
  require (pub.commitment = commitment) .wrongCommitment
  require (int256 pub.operationType = 4) .wrongOperation
  require (pub.sourceDomain = sourceDomain) .wrongDepositField
  require (pub.amount7dp = amount) .wrongDepositField
  require (pub.burnTxHashHash ≠ 0) .wrongDepositField
  require (pub.amount6dp ≠ 0) .wrongDepositField
  require (pub.amount6dp * 10 < 2 ^ 256) .panic
  require (amount ≤ pub.amount6dp * 10) .wrongDepositField
  require (E.hashToField cctpNonce = pub.cctpNonceHash) .wrongDepositField
  require (E.hashToField encryptedNotePayloadHash = pub.encryptedNotePayloadHash) .wrongDepositField
  require (E.hashToField policyId = pub.policyIdHash) .wrongDepositField
  require (E.addressHash token = pub.assetIdHash) .wrongDepositField
  require (E.addressHash E.pool = pub.recipientPool) .wrongDepositField
  require (pub.poolId = E.poolId ∧ pub.chainId = E.chainId) .wrongDomain
  require (E.verifyProof s.pool.depositVerifier proof pub.toList = true) .proofInvalid
  let (leafIndex, s₁) ← s.insert E commitment
  let s₂ := { s₁ with
    pool := { s₁.pool with depositUsed := Function.update s₁.pool.depositUsed cctpNonce true } }
  let s₃ ← s₂.adjustNoteSupply E pub.assetIdHash (int256 amount)
  return s₃.emit (.deposit sourceDomain cctpNonce pub.assetIdHash amount commitment leafIndex
    s₃.pool.tree.getRoot)

/-- `withdraw`, up to the token. -/
def withdraw (recipient : Address) (proof : Groth16Proof) (pub : WithdrawPub ℕ) :
    Except Error (State × Option Kont) := do
  s.pool.access.whenNotPaused
  require (int256 pub.operationType = 1) .wrongOperation
  require (pub.withdrawnValue ≠ 0 ∧ pub.relayerFee ≤ pub.withdrawnValue) .badAmount
  s.requireNotExpired pub.deadline
  require (pub.recipientHash = E.addressHash recipient) .wrongRecipient
  s.checkDomainCompliance E pub.associationRoot pub.poolId pub.chainId
  s.requireKnownRoot pub.stateRoot
  require (E.verifyProof s.pool.withdrawVerifier proof pub.toList = true) .proofInvalid
  let s₁ ← s.spend E.pool pub.nullifierHash
  let net := pub.withdrawnValue - pub.relayerFee
  let token ← s₁.getAssetToken pub.assetId
  require (net ≤ s₁.poolBalance E token) .insufficientBalance
  return (s₁, some (.transferring token recipient net pub.assetId pub.withdrawnValue
    (.withdraw recipient pub.nullifierHash net pub.relayerFee)))

/-- `privateTransferSettle`. -/
def privateTransferSettle (sender : Address) (proof : Groth16Proof) (pub : TransferPub ℕ) :
    Except Error State := do
  s.pool.access.whenNotPaused
  s.pool.access.onlyRole .registrar sender
  require (pub.associationRoot = s.pool.associationRoot) .wrongAssociation
  require (pub.poolId = E.poolId ∧ pub.chainId = E.chainId) .wrongDomain
  s.requireKnownRoot pub.stateRoot
  require (E.verifyProof s.pool.transferVerifier proof pub.toList = true) .proofInvalid
  let s₁ ← s.spend E.pool pub.nullifierHash
  let (leafIndex, s₂) ← s₁.insert E pub.outputCommitment
  return s₂.emit (.transfer pub.nullifierHash pub.outputCommitment leafIndex s₂.pool.tree.getRoot)

/-- `rfqSettle`, up to the token. -/
def rfqSettle (toSolver : Address) (quoteHash intentHash fillReceiptHash solverPubkey : ℕ)
    (solverSig : List UInt8) (proof : Groth16Proof) (pub : WithdrawPub ℕ) :
    Except Error (State × Option Kont) := do
  s.pool.access.whenNotPaused
  require (s.pool.authorizedSolver solverPubkey = true) .unauthorizedSolver
  require (E.ed25519 s.pool.ed25519Verifier solverPubkey (Bytes.ofNat 32 quoteHash) solverSig = true)
    .solverSigInvalid
  require (int256 pub.operationType = 3) .wrongOperation
  require (pub.withdrawnValue ≠ 0 ∧ pub.relayerFee ≤ pub.withdrawnValue) .badAmount
  s.requireNotExpired pub.deadline
  require (E.hashToField quoteHash = pub.quoteHash) .wrongQuote
  require (E.hashToField intentHash = pub.intentHash) .wrongIntent
  require (E.hashToField fillReceiptHash = pub.fillReceiptHash) .wrongFillReceipt
  s.checkDomainCompliance E pub.associationRoot pub.poolId pub.chainId
  s.requireKnownRoot pub.stateRoot
  require (E.verifyProof s.pool.withdrawVerifier proof pub.toList = true) .proofInvalid
  let s₁ ← s.spend E.pool pub.nullifierHash
  let token ← s₁.getAssetToken pub.assetId
  require (pub.withdrawnValue ≤ s₁.poolBalance E token) .insufficientBalance
  return (s₁, some (.transferring token toSolver pub.withdrawnValue pub.assetId pub.withdrawnValue
    (.rfqSettled quoteHash toSolver pub.nullifierHash pub.withdrawnValue)))

/-- `withdrawCctp`, up to the approval of the messenger. -/
def withdrawCctp (recipient : Address) (destinationRecipient maxFee minFinalityThreshold : ℕ)
    (proof : Groth16Proof) (pub : WithdrawPub ℕ) : Except Error (State × Option Kont) := do
  s.pool.access.whenNotPaused
  require (pub.withdrawnValue ≠ 0) .badAmount
  require (int256 pub.operationType = 2) .wrongOperation
  require (pub.assetId = E.addressHash s.pool.usdcToken) .unknownAsset
  s.requireNotExpired pub.deadline
  require (pub.destinationDomain % 2 ^ 32 = s.pool.cctpOutboundDomain) .unsupportedDomain
  require (pub.destinationDomain = s.pool.cctpOutboundDomain) .wrongDestDomain
  require (pub.destinationRecipient = destinationRecipient) .wrongDestRecipient
  require (pub.maxFee = maxFee) .wrongMaxFee
  require (pub.minFinalityThreshold = minFinalityThreshold) .wrongFinality
  s.checkDomainCompliance E pub.associationRoot pub.poolId pub.chainId
  s.requireKnownRoot pub.stateRoot
  require (E.verifyProof s.pool.withdrawVerifier proof pub.toList = true) .proofInvalid
  let s₁ ← s.spend E.pool pub.nullifierHash
  require (pub.withdrawnValue + maxFee < 2 ^ 256) .panic
  return (s₁, some (.approving s₁.pool.usdcToken s₁.pool.tokenMessenger (pub.withdrawnValue + maxFee)
    ⟨recipient, pub.nullifierHash, pub.assetId, pub.withdrawnValue, destinationRecipient, maxFee,
      minFinalityThreshold⟩))

/-- The two spends and the two insertions that end both committee settlements. -/
def settlePair (batchHash nullifierA nullifierB outputCommitmentA outputCommitmentB : ℕ) :
    Except Error State := do
  let s₁ ← s.spend E.pool nullifierA
  let s₂ ← s₁.spend E.pool nullifierB
  let (_, s₃) ← s₂.insert E outputCommitmentA
  let (_, s₄) ← s₃.insert E outputCommitmentB
  return s₄.emit (.mpcSettled batchHash nullifierA nullifierB outputCommitmentA outputCommitmentB
    s₄.pool.tree.getRoot)

/-- `mpcSettle`. -/
def mpcSettle (batchHash : ℕ) (signerPubkeys : List ℕ) (signatures : List (List UInt8))
    (proof : Groth16Proof) (pub : MpcPub ℕ) : Except Error State := do
  s.pool.access.whenNotPaused
  verifyThreshold (E.ed25519 s.pool.ed25519Verifier) s.pool.committee batchHash signerPubkeys
    signatures
  require (E.verifyProof s.pool.mpcVerifier proof pub.toList = true) .mpcProofInvalid
  s.requireKnownRoot pub.stateRoot
  require (s.pool.associationRoot ≠ 0 ∧ pub.associationRoot = s.pool.associationRoot)
    .wrongAssociation
  require (pub.batchHash = E.hashToField batchHash) .mpcSignalMismatch
  require (pub.poolId = E.poolId ∧ pub.chainId = E.chainId) .wrongDomain
  s.requireNotExpired pub.deadline
  s.settlePair E batchHash pub.nullifierHashA pub.nullifierHashB pub.outputCommitmentA
    pub.outputCommitmentB

/-- `mpcSettlePriced`. -/
def mpcSettlePriced (batchHash : ℕ) (signerPubkeys : List ℕ) (signatures : List (List UInt8))
    (proof : Groth16Proof) (pub : MpcPricedPub ℕ) : Except Error State := do
  s.pool.access.whenNotPaused
  verifyThreshold (E.ed25519 s.pool.ed25519Verifier) s.pool.committee batchHash signerPubkeys
    signatures
  require (E.verifyProof s.pool.mpcPricedVerifier proof pub.toList = true) .mpcProofInvalid
  s.requireKnownRoot pub.stateRoot
  require (s.pool.associationRoot ≠ 0 ∧ pub.associationRoot = s.pool.associationRoot)
    .wrongAssociation
  require (pub.batchHash = E.hashToField batchHash) .mpcSignalMismatch
  require (pub.poolId = E.poolId ∧ pub.chainId = E.chainId) .wrongDomain
  s.requireNotExpired pub.deadline
  require (pub.inputAssetA ≠ pub.inputAssetB) .notCrossAsset
  s.settlePair E batchHash pub.nullifierHashA pub.nullifierHashB pub.outputCommitmentA
    pub.outputCommitmentB

/-- `streamInsert`. -/
def streamInsert (sender : Address) (assetId commitment : ℕ) (supplyDelta : ℤ) :
    Except Error State := do
  s.pool.access.whenNotPaused
  require (s.pool.authorizedStreamContract sender = true) .unauthorizedStreamContract
  let s₁ ← if supplyDelta ≠ 0 then s.adjustNoteSupply E assetId supplyDelta else .ok s
  let (_, s₂) ← s₁.insert E commitment
  return s₂

/-! ## After an external call -/

/-- Balances after the pool has sent `amount` to `recipient`. -/
def moveTokens (token recipient : Address) (amount : ℕ) : Address → Address → ℕ :=
  let b := Function.update (s.balance token) E.pool (s.poolBalance E token - amount)
  Function.update s.balance token (Function.update b recipient (b recipient + amount))

/-- Allowances after the pool has approved `spender`. -/
def approve (token spender : Address) (amount : ℕ) : Address → Address → ℕ :=
  Function.update s.allowance token (Function.update (s.allowance token) spender amount)

/-- Go on after an external call has returned: the effect of the call on the token, and the code up
to the next external call. -/
def proceed : Kont → Except Error (State × Option Kont)
  | .transferring token recipient amount assetId debit event => do
      require (amount ≤ s.poolBalance E token) .erc20InsufficientBalance
      return ({ s with balance := s.moveTokens E token recipient amount },
        some (.transferred token recipient amount assetId debit event))
  | .transferred _ _ _ assetId debit event => do
      let s₁ ← s.adjustNoteSupply E assetId (-int256 debit)
      return (s₁.emit event, none)
  | .approving token spender pullAmount burn =>
      .ok ({ s with allowance := s.approve token spender pullAmount },
        some (.burning s.pool.usdcToken s.pool.tokenMessenger s.pool.cctpOutboundDomain burn))
  | .burning _ _ _ burn => do
      let s₁ ← s.adjustNoteSupply E burn.assetId (-int256 burn.amount)
      return (s₁.emit (.cctpExit s₁.pool.cctpOutboundDomain burn.recipient burn.nullifierHash
        burn.amount), none)

end State

end ShadePay.Evm
