import ShadePay.Evm.ShieldedPool

/-!
# The stream escrow

`contracts/arc/src/StreamEscrow.sol`: payment channels over shielded notes. The escrow calls the pool
and the registry under its own address; none of its functions reaches code outside of the three
contracts and the verifiers, which are view functions.
-/

namespace ShadePay.Evm

open Guard

namespace State

variable (E : Env) (s : State)

/-- Write a channel. -/
def setChannel (channelId : ℕ) (ch : Channel) : State :=
  { s with escrow := { s.escrow with channels := Function.update s.escrow.channels channelId ch } }

/-- `open`. -/
def openChannel (proof : Groth16Proof) (pub : StreamOpenPub ℕ) : Except Error State := do
  s.escrow.access.whenNotPaused
  require ((s.escrow.channels pub.channelId).opened = false) .channelAlreadyOpen
  require (pub.poolId = E.poolId ∧ pub.chainId = E.chainId) .wrongDomain
  require (pub.associationRoot = s.pool.associationRoot) .wrongAssociation
  s.requireKnownRoot pub.stateRoot
  require (E.verifyProof s.escrow.openVerifier proof pub.toList = true) .proofInvalid
  let s₁ ← s.spend E.escrow pub.inputNullifierHash
  let s₂ := s₁.setChannel pub.channelId
    ⟨pub.payerAx, pub.payerAy, pub.cap, pub.expiry, pub.reclaimCommitment, pub.assetId, true, false⟩
  let s₃ ← s₂.streamInsert E E.escrow pub.assetId pub.changeCommitment (-int256 pub.cap)
  return s₃.emit (.channelOpened pub.channelId pub.cap pub.expiry pub.changeCommitment)

/-- `_settle`. -/
def settleOne (proof : Groth16Proof) (pub : StreamSettlePub ℕ) : Except Error State := do
  let ch := s.escrow.channels pub.channelId
  require (ch.opened = true) .channelNotOpen
  require (ch.consumed = false) .channelConsumed
  require (pub.payerAx = ch.payerAx ∧ pub.payerAy = ch.payerAy ∧ pub.cap = ch.cap ∧
    pub.assetId = ch.assetId) .channelParamMismatch
  require (pub.poolId = E.poolId ∧ pub.chainId = E.chainId) .wrongDomain
  require (pub.associationRoot = s.pool.associationRoot) .wrongAssociation
  require (E.verifyProof s.escrow.settleVerifier proof pub.toList = true) .proofInvalid
  let s₁ := s.setChannel pub.channelId { ch with consumed := true }
  let s₂ ← s₁.streamInsert E E.escrow ch.assetId pub.payeeCommitment (int256 pub.cumulative)
  require (pub.cumulative ≤ ch.cap) .panic
  let s₃ ← s₂.streamInsert E E.escrow ch.assetId pub.refundCommitment
    (int256 (ch.cap - pub.cumulative))
  return s₃.emit (.channelSettled pub.channelId pub.cumulative pub.payeeCommitment
    pub.refundCommitment)

/-- `settle`. -/
def settle (proof : Groth16Proof) (pub : StreamSettlePub ℕ) : Except Error State := do
  s.escrow.access.whenNotPaused
  s.settleOne E proof pub

/-- The loop of `settleBatch`. -/
def settleLoop : List (Groth16Proof × StreamSettlePub ℕ) → State → Except Error State
  | [], s => .ok s
  | (proof, pub) :: rest, s => do
      let s' ← s.settleOne E proof pub
      settleLoop rest s'

/-- `settleBatch`. -/
def settleBatch (proofs : List Groth16Proof) (pubs : List (StreamSettlePub ℕ)) :
    Except Error State := do
  s.escrow.access.whenNotPaused
  require (proofs.length = pubs.length) .lengthMismatch
  settleLoop E (proofs.zip pubs) s

/-- `reclaim`. -/
def reclaim (channelId : ℕ) : Except Error State := do
  s.escrow.access.whenNotPaused
  let ch := s.escrow.channels channelId
  require (ch.opened = true) .channelNotOpen
  require (ch.consumed = false) .channelConsumed
  require (ch.expiry + E.challengeWindow < 2 ^ 256) .panic
  require (ch.expiry + E.challengeWindow < s.block) .notYetReclaimable
  let s₁ := s.setChannel channelId { ch with consumed := true }
  let s₂ ← s₁.streamInsert E E.escrow ch.assetId ch.reclaimCommitment (int256 ch.cap)
  return s₂.emit (.channelReclaimed channelId ch.cap ch.reclaimCommitment)

end State

end ShadePay.Evm
