import ShadePay.Evm.IncrementalMerkleTree
import ShadePay.Circuit.Templates

/-!
# The state of the Arc contracts

The storage of `ShieldedPool`, `StreamEscrow` and `NullifierRegistry` with what they see of the
chain: the balances of the ERC-20 tokens, the allowances the pool has given, the block number and the
log of events. The operations that several entry points share are here: `spend` of the registry,
`_insert` into the pool's tree, `_adjustNoteSupply`, the role and pause checks of OpenZeppelin, and
the threshold check of `CommitteeLib`.
-/

namespace ShadePay.Evm

open Guard

/-! ## Storage -/

/-- `DEFAULT_ADMIN_ROLE`, `ADMIN_ROLE` and `REGISTRAR_ROLE`. -/
inductive Role where
  | defaultAdmin
  | admin
  | registrar
deriving DecidableEq

/-- OpenZeppelin's `AccessControl` and `Pausable`. -/
structure Access where
  hasRole : Role → Address → Bool
  paused : Bool

/-- Storage of `NullifierRegistry`. -/
structure Registry where
  access : Access
  spent : ℕ → Bool
  authorized : Address → Bool

/-- Storage of `ShieldedPool`. -/
structure Pool where
  access : Access
  tree : IncrementalMerkleTree
  withdrawVerifier : Address
  transferVerifier : Address
  depositVerifier : Address
  mpcVerifier : Address
  mpcPricedVerifier : Address
  associationRoot : ℕ
  associationRootVersion : ℕ
  assetToken : ℕ → Address
  noteSupplyOf : ℕ → ℤ
  committee : List ℕ
  ed25519Verifier : Address
  authorizedSolver : ℕ → Bool
  cctpOutboundDomain : ℕ
  tokenMessenger : Address
  usdcToken : Address
  depositUsed : ℕ → Bool
  authorizedStreamContract : Address → Bool

/-- `Channel`. -/
structure Channel where
  payerAx : ℕ
  payerAy : ℕ
  cap : ℕ
  expiry : ℕ
  reclaimCommitment : ℕ
  assetId : ℕ
  opened : Bool
  consumed : Bool
deriving DecidableEq

/-- Storage of `StreamEscrow`. -/
structure Escrow where
  access : Access
  openVerifier : Address
  settleVerifier : Address
  channels : ℕ → Channel

/-- The events of the pool, the escrow and the registry. -/
inductive Event where
  | deposit (sourceDomain cctpNonce assetId amount commitment leafIndex newRoot : ℕ)
  | withdraw (recipient : Address) (nullifierHash net relayerFee : ℕ)
  | transfer (nullifierHash outputCommitment leafIndex newRoot : ℕ)
  | mpcSettled (batchHash nullifierA nullifierB outputCommitmentA outputCommitmentB newRoot : ℕ)
  | rfqSettled (quoteHash : ℕ) (toSolver : Address) (nullifierHash credit : ℕ)
  | cctpExit (destinationDomain : ℕ) (recipient : Address) (nullifierHash amount : ℕ)
  | assetRegistered (assetId : ℕ) (token : Address)
  | associationRootSet (root version : ℕ)
  | committeeSet (size : ℕ)
  | streamContractSet (streamContract : Address) (allowed : Bool)
  | channelOpened (channelId cap expiry changeCommitment : ℕ)
  | channelSettled (channelId cumulative payeeCommitment refundCommitment : ℕ)
  | channelReclaimed (channelId cap reclaimCommitment : ℕ)
  | nullifierSpent (spender : Address) (nullifier : ℕ)
  | authorizedSpenderSet (spender : Address) (allowed : Bool)
deriving DecidableEq

/-- The three contracts and the chain around them. `balance token holder` and
`allowance token spender`, the latter given by the pool, belong to the tokens. -/
structure State where
  registry : Registry
  pool : Pool
  escrow : Escrow
  balance : Address → Address → ℕ
  allowance : Address → Address → ℕ
  block : ℕ
  events : List Event

/-- A mapping entry nobody has written. -/
def Channel.zero : Channel := ⟨0, 0, 0, 0, 0, 0, false, false⟩

/-- The roles a constructor grants to its `admin`. -/
def Access.construct (admin : Address) (roles : List Role) : Access :=
  ⟨fun r a => decide (r ∈ roles ∧ a = admin), false⟩

/-- The three contracts as their constructors leave them, each with its own admin. -/
def construct (E : Env) (registryAdmin poolAdmin escrowAdmin : Address)
    (balance : Address → Address → ℕ) (block : ℕ) : Except Error State := do
  let tree ← IncrementalMerkleTree.construct E.hashLeftRight E.levels
  return {
    registry := ⟨.construct registryAdmin [.defaultAdmin, .admin], fun _ => false, fun _ => false⟩
    pool := {
      access := .construct poolAdmin [.defaultAdmin, .admin, .registrar]
      tree := tree
      withdrawVerifier := 0
      transferVerifier := 0
      depositVerifier := 0
      mpcVerifier := 0
      mpcPricedVerifier := 0
      associationRoot := 0
      associationRootVersion := 0
      assetToken := fun _ => 0
      noteSupplyOf := fun _ => 0
      committee := []
      ed25519Verifier := 0
      authorizedSolver := fun _ => false
      cctpOutboundDomain := 0
      tokenMessenger := 0
      usdcToken := 0
      depositUsed := fun _ => false
      authorizedStreamContract := fun _ => false }
    escrow := ⟨.construct escrowAdmin [.defaultAdmin, .admin], 0, 0, fun _ => .zero⟩
    balance := balance
    allowance := fun _ _ => 0
    block := block
    events := [] }

/-! ## Shared operations -/

/-- `whenNotPaused`. -/
def Access.whenNotPaused (a : Access) : Except Error Unit := require (a.paused = false) .enforcedPause

/-- `onlyRole`. -/
def Access.onlyRole (a : Access) (r : Role) (sender : Address) : Except Error Unit :=
  require (a.hasRole r sender = true) .accessControlUnauthorizedAccount

/-- The signer loop of `verifyThreshold`: the number of verified signatures. -/
def verifySigners (verify : ℕ → List UInt8 → List UInt8 → Bool) (committee : List ℕ)
    (msgBytes : List UInt8) : List ℕ → List (List UInt8) → List ℕ → Except Error ℕ
  | [], _, _ => .ok 0
  | pk :: pks, signatures, seen => do
      require (pk ∈ committee) .mpcUnknownSigner
      require (pk ∉ seen) .mpcDuplicateSigner
      require (signatures ≠ []) .panic
      require (verify pk msgBytes (signatures.headD []) = true) .mpcSignatureInvalid
      let n ← verifySigners verify committee msgBytes pks signatures.tail (seen ++ [pk])
      return n + 1

/-- `CommitteeLib.verifyThreshold`. -/
def verifyThreshold (verify : ℕ → List UInt8 → List UInt8 → Bool) (committee : List ℕ)
    (batchHash : ℕ) (signerPubkeys : List ℕ) (signatures : List (List UInt8)) :
    Except Error Unit := do
  require (committee.length ≠ 0) .committeeNotInitialized
  let threshold := (committee.length * 2 + 2) / 3
  require (threshold ≤ signerPubkeys.length ∧ threshold ≤ signatures.length) .mpcThreshold
  let verified ← verifySigners verify committee (Bytes.ofNat 32 batchHash) signerPubkeys signatures []
  require (threshold ≤ verified) .mpcThreshold

namespace State

variable (E : Env) (s : State)

/-- `emit`. -/
def emit (e : Event) : State := { s with events := s.events ++ [e] }

/-- `spend` of the registry, by the contract or account `spender`. -/
def spend (spender : Address) (nullifier : ℕ) : Except Error State := do
  s.registry.access.whenNotPaused
  require (s.registry.authorized spender = true) .unauthorizedSpender
  require (s.registry.spent nullifier = false) .nullifierAlreadySpent
  return { s with
    registry := { s.registry with spent := Function.update s.registry.spent nullifier true }
    events := s.events ++ [.nullifierSpent spender nullifier] }

/-- `_insert` into the pool's tree. -/
def insert (leaf : ℕ) : Except Error (ℕ × State) := do
  let (i, tree) ← IncrementalMerkleTree.insert E.hashLeftRight E.levels leaf s.pool.tree
  return (i, { s with pool := { s.pool with tree := tree } })

/-- The pool's balance of a token. -/
def poolBalance (token : Address) : ℕ := s.balance token E.pool

/-- `_getAssetToken`. -/
def getAssetToken (assetId : ℕ) : Except Error Address := do
  require (s.pool.assetToken assetId ≠ 0) .unknownAsset
  return s.pool.assetToken assetId

/-- `_adjustNoteSupply`. -/
def adjustNoteSupply (assetId : ℕ) (delta : ℤ) : Except Error State := do
  require (s.pool.assetToken assetId ≠ 0) .unknownAsset
  let next := s.pool.noteSupplyOf assetId + delta
  require (-2 ^ 255 ≤ next ∧ next < 2 ^ 255) .panic
  require (0 ≤ next) .supplyUnderflow
  require (next ≤ s.poolBalance E (s.pool.assetToken assetId)) .reserveBroken
  return { s with
    pool := { s.pool with noteSupplyOf := Function.update s.pool.noteSupplyOf assetId next } }

/-- `_checkDomainCompliance`. -/
def checkDomainCompliance (assocIn poolIn chainIn : ℕ) : Except Error Unit := do
  require (poolIn = E.poolId ∧ chainIn = E.chainId) .wrongDomain
  require (assocIn = s.pool.associationRoot) .wrongAssociation

/-- `isKnownRoot`, as a check. -/
def requireKnownRoot (root : ℕ) : Except Error Unit :=
  require (s.pool.tree.isKnownRoot root = true) .unknownRoot

/-- `block.number > deadline`. -/
def requireNotExpired (deadline : ℕ) : Except Error Unit := require (s.block ≤ deadline) .expired

end State

end ShadePay.Evm
