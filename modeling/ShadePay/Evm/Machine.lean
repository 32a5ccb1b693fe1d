import ShadePay.Evm.StreamEscrow
import ShadePay.Lib.Reentrancy

/-!
# Runs of the Arc contracts

The pool, the escrow and the registry as one `Reentrancy.Machine`. Any account may call any entry
point, also while a token or the messenger has control in the middle of another call. Outside of the
contracts, tokens arrive and leave other holders, the messenger pulls what it was approved for while
it executes a burn, a rebasing token sets balances, blocks are mined, and the accounts that hold the
roles configure the contracts; the last two happen between transactions.

`Reachable` are the configurations reached from a deployment.
-/

namespace ShadePay.Evm

open Guard Reentrancy

/-- The entry points. -/
inductive Call where
  | receiveDeposit (sourceDomain cctpNonce : ℕ) (token : Address)
      (amount commitment encryptedNotePayloadHash policyId : ℕ) (proof : Groth16Proof)
      (pub : DepositPub ℕ)
  | withdraw (recipient : Address) (proof : Groth16Proof) (pub : WithdrawPub ℕ)
  | privateTransferSettle (proof : Groth16Proof) (pub : TransferPub ℕ)
  | rfqSettle (toSolver : Address) (quoteHash intentHash fillReceiptHash solverPubkey : ℕ)
      (solverSig : List UInt8) (proof : Groth16Proof) (pub : WithdrawPub ℕ)
  | withdrawCctp (recipient : Address) (destinationRecipient maxFee minFinalityThreshold : ℕ)
      (proof : Groth16Proof) (pub : WithdrawPub ℕ)
  | mpcSettle (batchHash : ℕ) (signerPubkeys : List ℕ) (signatures : List (List UInt8))
      (proof : Groth16Proof) (pub : MpcPub ℕ)
  | mpcSettlePriced (batchHash : ℕ) (signerPubkeys : List ℕ) (signatures : List (List UInt8))
      (proof : Groth16Proof) (pub : MpcPricedPub ℕ)
  | streamInsert (assetId commitment : ℕ) (supplyDelta : ℤ)
  | open (proof : Groth16Proof) (pub : StreamOpenPub ℕ)
  | settle (proof : Groth16Proof) (pub : StreamSettlePub ℕ)
  | settleBatch (proofs : List Groth16Proof) (pubs : List (StreamSettlePub ℕ))
  | reclaim (channelId : ℕ)
  /-- `spend` of the registry, called directly. -/
  | spend (nullifier : ℕ)

/-- A message call. The pool and the escrow call each other and the registry inside of their own
entry points only. -/
structure Entry (E : Env) where
  sender : Address
  call : Call
  sender_ne_pool : sender ≠ E.pool
  sender_ne_escrow : sender ≠ E.escrow

/-! ## Administration -/

/-- The contract a configuration call is for. -/
inductive Target where
  | registry
  | pool
  | escrow
deriving DecidableEq

/-- The configuration calls. -/
inductive AdminCall where
  | grantRole (target : Target) (role : Role) (account : Address)
  | revokeRole (target : Target) (role : Role) (account : Address)
  | renounceRole (target : Target) (role : Role)
  | pause (target : Target)
  | unpause (target : Target)
  | setAuthorizedSpender (spender : Address) (allowed : Bool)
  | setAuthorizedSolver (solverPubkey : ℕ) (allowed : Bool)
  | setCctpConfig (tokenMessenger usdc : Address) (outboundDomain : ℕ)
  | registerAsset (assetId : ℕ) (token : Address)
  | setAssociationRoot (root : ℕ)
  | setCommittee (pubkeys : List ℕ)
  | setEd25519Verifier (v : Address)
  | setWithdrawVerifier (v : Address)
  | setTransferVerifier (v : Address)
  | setDepositVerifier (v : Address)
  | setMpcVerifier (v : Address)
  | setMpcPricedVerifier (v : Address)
  | setAuthorizedStreamContract (streamContract : Address) (allowed : Bool)
  | setOpenVerifier (v : Address)
  | setSettleVerifier (v : Address)

namespace State

variable (s : State)

/-- The roles and the pause flag of a contract. -/
def access : Target → Access
  | .registry => s.registry.access
  | .pool => s.pool.access
  | .escrow => s.escrow.access

/-- Write the roles and the pause flag of a contract. -/
def setAccess (a : Access) : Target → State
  | .registry => { s with registry := { s.registry with access := a } }
  | .pool => { s with pool := { s.pool with access := a } }
  | .escrow => { s with escrow := { s.escrow with access := a } }

/-- A setter of the pool behind `onlyRole(ADMIN_ROLE)`. -/
def setPool (sender : Address) (f : Pool → Pool) : Except Error State := do
  s.pool.access.onlyRole .admin sender
  return { s with pool := f s.pool }

/-- A setter of the escrow behind `onlyRole(ADMIN_ROLE)`. -/
def setEscrow (sender : Address) (f : Escrow → Escrow) : Except Error State := do
  s.escrow.access.onlyRole .admin sender
  return { s with escrow := f s.escrow }

/-- `_grantRole` and `_revokeRole`. -/
def setRole (target : Target) (role : Role) (account : Address) (granted : Bool) : State :=
  let a := s.access target
  let hasRole := Function.update a.hasRole role (Function.update (a.hasRole role) account granted)
  s.setAccess { a with hasRole := hasRole } target

/-- `registerAsset`. -/
def registerAsset (sender : Address) (assetId : ℕ) (token : Address) : Except Error State := do
  s.pool.access.onlyRole .admin sender
  require (s.pool.assetToken assetId = 0) .assetAlreadyRegistered
  return { s with
    pool := { s.pool with
      assetToken := Function.update s.pool.assetToken assetId token
      noteSupplyOf := Function.update s.pool.noteSupplyOf assetId 0 }
    events := s.events ++ [.assetRegistered assetId token] }

/-- Run a configuration call. -/
def configure (sender : Address) : AdminCall → Except Error State
  | .grantRole t r a => do
      (s.access t).onlyRole .defaultAdmin sender
      return s.setRole t r a true
  | .revokeRole t r a => do
      (s.access t).onlyRole .defaultAdmin sender
      return s.setRole t r a false
  | .renounceRole t r => .ok (s.setRole t r sender false)
  | .pause t => do
      (s.access t).onlyRole .admin sender
      require ((s.access t).paused = false) .enforcedPause
      return s.setAccess { s.access t with paused := true } t
  | .unpause t => do
      (s.access t).onlyRole .admin sender
      require ((s.access t).paused = true) .expectedPause
      return s.setAccess { s.access t with paused := false } t
  | .setAuthorizedSpender a allowed => do
      s.registry.access.onlyRole .admin sender
      return { s with
        registry := { s.registry with authorized := Function.update s.registry.authorized a allowed }
        events := s.events ++ [.authorizedSpenderSet a allowed] }
  | .setAuthorizedSolver pk allowed => s.setPool sender fun p =>
      { p with authorizedSolver := Function.update p.authorizedSolver pk allowed }
  | .setCctpConfig messenger usdc domain => s.setPool sender fun p =>
      { p with tokenMessenger := messenger, usdcToken := usdc, cctpOutboundDomain := domain }
  | .registerAsset assetId token => s.registerAsset sender assetId token
  | .setAssociationRoot root => do
      let s' ← s.setPool sender fun p => { p with
        associationRoot := root
        associationRootVersion := p.associationRootVersion + 1 }
      return s'.emit (.associationRootSet root s'.pool.associationRootVersion)
  | .setCommittee pks => do
      let s' ← s.setPool sender fun p => { p with committee := pks }
      return s'.emit (.committeeSet pks.length)
  | .setEd25519Verifier v => s.setPool sender fun p => { p with ed25519Verifier := v }
  | .setWithdrawVerifier v => s.setPool sender fun p => { p with withdrawVerifier := v }
  | .setTransferVerifier v => s.setPool sender fun p => { p with transferVerifier := v }
  | .setDepositVerifier v => s.setPool sender fun p => { p with depositVerifier := v }
  | .setMpcVerifier v => s.setPool sender fun p => { p with mpcVerifier := v }
  | .setMpcPricedVerifier v => s.setPool sender fun p => { p with mpcPricedVerifier := v }
  | .setAuthorizedStreamContract a allowed => do
      let s' ← s.setPool sender fun p => { p with
        authorizedStreamContract := Function.update p.authorizedStreamContract a allowed }
      return s'.emit (.streamContractSet a allowed)
  | .setOpenVerifier v => s.setEscrow sender fun e => { e with openVerifier := v }
  | .setSettleVerifier v => s.setEscrow sender fun e => { e with settleVerifier := v }

end State

/-! ## The machine -/

/-- What happens outside of the contracts. -/
inductive Action where
  /-- Tokens reach a holder. -/
  | mint (token holder : Address) (amount : ℕ)
  /-- Tokens leave a holder other than the pool. -/
  | burn (token holder : Address) (amount : ℕ)
  /-- The messenger takes tokens from the pool. -/
  | pull (token messenger : Address) (amount : ℕ)
  /-- A rebasing token sets a balance. -/
  | rebase (token holder : Address) (amount : ℕ)
  | mine (blocks : ℕ)
  | configure (sender : Address) (call : AdminCall)

/-- A suspended call executes `depositForBurn` of a token at a messenger. -/
def Kont.isBurning (token messenger : Address) : Kont → Bool
  | .burning t m _ _ => t == token && m == messenger
  | _ => false

variable (E : Env)

/-- Set one balance. -/
def State.setBalance (token holder : Address) (amount : ℕ) (s : State) : State :=
  let b := Function.update (s.balance token) holder amount
  { s with balance := Function.update s.balance token b }

/-- Run a message call up to its first external call. -/
def enter (e : Entry E) (s : State) : Except Error (State × Option Kont) :=
  match e.call with
  | .receiveDeposit d n t a c enc pol proof pub => do
      let s' ← s.receiveDeposit E e.sender d n t a c enc pol proof pub
      return (s', none)
  | .withdraw a proof pub => s.withdraw E a proof pub
  | .privateTransferSettle proof pub => do
      let s' ← s.privateTransferSettle E e.sender proof pub
      return (s', none)
  | .rfqSettle a q i f pk sig proof pub => s.rfqSettle E a q i f pk sig proof pub
  | .withdrawCctp a r fee fin proof pub => s.withdrawCctp E a r fee fin proof pub
  | .mpcSettle b pks sigs proof pub => do
      let s' ← s.mpcSettle E b pks sigs proof pub
      return (s', none)
  | .mpcSettlePriced b pks sigs proof pub => do
      let s' ← s.mpcSettlePriced E b pks sigs proof pub
      return (s', none)
  | .streamInsert a c delta => do
      let s' ← s.streamInsert E e.sender a c delta
      return (s', none)
  | .open proof pub => do
      let s' ← s.openChannel E proof pub
      return (s', none)
  | .settle proof pub => do
      let s' ← s.settle E proof pub
      return (s', none)
  | .settleBatch proofs pubs => do
      let s' ← s.settleBatch E proofs pubs
      return (s', none)
  | .reclaim c => do
      let s' ← s.reclaim E c
      return (s', none)
  | .spend n => do
      let s' ← s.spend e.sender n
      return (s', none)

/-- The outside acts, below the stack `K` of suspended calls. -/
def act (K : List (Pending State (Entry E) Kont)) (a : Action) (s : State) : Option State :=
  match a with
  | .mint token holder amount =>
      some (s.setBalance token holder (s.balance token holder + amount))
  | .burn token holder amount =>
      if holder ≠ E.pool then some (s.setBalance token holder (s.balance token holder - amount))
      else none
  | .pull token messenger amount =>
      if (K.any (·.kont.isBurning token messenger)) ∧ amount ≤ s.allowance token messenger ∧
          amount ≤ s.poolBalance E token then
        some { s.setBalance token E.pool (s.poolBalance E token - amount) with
          allowance := s.approve token messenger (s.allowance token messenger - amount) }
      else none
  | .rebase token holder amount =>
      if E.rebasing then some (s.setBalance token holder amount) else none
  | .mine blocks => if K.isEmpty then some { s with block := s.block + blocks } else none
  | .configure sender call => if K.isEmpty then (s.configure sender call).toOption else none

/-- The three contracts as a machine. -/
def machine : Machine State (Entry E) Kont Action where
  enter e s := (enter E e s).toOption
  resume k s := (s.proceed E k).toOption
  act := act E

/-- A configuration reachable from the deployed contracts `s₀`. -/
abbrev Reachable (s₀ : State) : List (Pending State (Entry E) Kont) →
    World State (Entry E) Kont → Prop :=
  Reach (machine E) [] (s₀, [])

/-- The contracts as their constructors leave them. -/
def Deployed (s₀ : State) : Prop :=
  ∃ registryAdmin poolAdmin escrowAdmin balance block,
    construct E registryAdmin poolAdmin escrowAdmin balance block = .ok s₀

end ShadePay.Evm
