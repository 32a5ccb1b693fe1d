import ShadePay.Stellar.ShieldedPool

/-!
# The governance guardian

`contracts/stellar/governance_guardian` beside the pool it may administer and beside any other
contract. A proposal names its target, and the guardian calls it by method name and argument list;
`invokeContract` is that call. The pool answers by its own entry points, a call with a name or an
argument count it does not have traps, and every other contract is the `contracts` parameter of the
host. The host forbids re-entrancy, so a target cannot reach the guardian's storage, and an
invocation that fails leaves nothing behind.

Absent storage keys are their `unwrap_or` values: no guardians, a threshold of one, no delay.
-/

namespace ShadePay.Stellar.Guardian

open Guard

/-! ## State -/

/-- Why an invocation of the guardian fails. -/
inductive Error where
  | notInitialized
  | notGuardian
  | alreadyApproved
  | proposalNotFound
  | thresholdNotMet
  | timelockNotElapsed
  | alreadyExecuted
  | invalidThreshold
  /-- `panic!("already initialized")`. -/
  | alreadyInitialized
  /-- A missing `require_auth` authorization. -/
  | auth
  /-- A checked overflow, or a target that traps. -/
  | host
deriving DecidableEq

/-- `PauseProposal`. -/
structure PauseProposal where
  contractId : Address
  reasonHash : Bytes32
  unpause : Bool
  approvals : List Address
  executed : Bool
deriving DecidableEq

/-- `UpgradeProposal`. -/
structure UpgradeProposal where
  contractId : Address
  newWasmHash : Bytes32
  approvals : List Address
  quorumAtLedger : Option ℕ
  executed : Bool
  cancelled : Bool
deriving DecidableEq

/-- The methods the guardian calls. -/
inductive Method where
  | pause
  | unpause
  | upgrade
deriving DecidableEq

/-- The events of the guardian, by their topic. -/
inductive Event where
  | pause (id : ℕ) (contractId : Address) (unpause : Bool)
  | upquorum (id : ℕ) (contractId : Address)
  | upcancel (id : ℕ) (guardian : Address)
  | upgraded (id : ℕ) (contractId : Address)
deriving DecidableEq

/-- Storage of the guardian. -/
structure Storage where
  admin : Option Address
  guardians : List Address
  threshold : ℕ
  upgradeDelay : ℕ
  nextProposalId : ℕ
  pauseProposal : ℕ → Option PauseProposal
  upgradeProposal : ℕ → Option UpgradeProposal
  events : List Event

/-- The storage before `initialize`. -/
def Storage.empty : Storage where
  admin := none
  guardians := []
  threshold := 1
  upgradeDelay := 0
  nextProposalId := 0
  pauseProposal := fun _ => none
  upgradeProposal := fun _ => none
  events := []

variable {σ : Type}

/-- The guardian, the pool and the rest of the chain. `wasm` is the code that replaced the pool's,
once an upgrade has. -/
structure World (σ : Type) where
  guardian : Storage
  pool : State
  wasm : Option Bytes32
  others : σ

/-- The chain around the two contracts. -/
structure Host (σ : Type) where
  env : Env
  /-- The guardian's own address. -/
  self : Address
  self_ne_pool : self ≠ env.pool
  /-- The uploaded code. -/
  uploaded : Bytes32 → Bool
  /-- What another contract does when the guardian calls it; `none` is a trap. -/
  contracts : Address → Method → List Bytes32 → σ → Option σ

variable (H : Host σ)

/-! ## Calls out of the guardian -/

/-- The accounts a target sees as authorized: those of the transaction, and its caller. -/
def Host.calleeAuth (auth : Address → Bool) (a : Address) : Bool := auth a || decide (a = H.self)

/-- `upgrade` of the pool. -/
def upgradePool (auth : Address → Bool) (newWasmHash : Bytes32) (w : World σ) :
    Except Error (World σ) := do
  require (auth w.pool.admin = true) .host
  require (H.uploaded newWasmHash = true) .host
  return { w with wasm := some newWasmHash }

/-- A configuration call of the pool, made by the guardian. -/
def configurePool (auth : Address → Bool) (c : AdminCall) (w : World σ) :
    Except Error (World σ) :=
  match c.invoke auth w.pool with
  | .ok pool => .ok { w with pool := pool }
  | .error _ => .error .host

/-- The entry points of the pool the guardian can name: `pause(env)`, `unpause(env)` and
`upgrade(env, hash)`. -/
def invokePool (auth : Address → Bool) : Method → List Bytes32 → World σ → Except Error (World σ)
  | .pause, [], w => configurePool auth .pause w
  | .unpause, [], w => configurePool auth .unpause w
  | .upgrade, [h], w => upgradePool H auth h w
  | _, _, _ => .error .host

/-- `env.invoke_contract`. -/
def invokeContract (auth : Address → Bool) (c : Address) (m : Method) (args : List Bytes32)
    (w : World σ) : Except Error (World σ) :=
  if c = H.self then .error .host
  else if c = H.env.pool ∧ w.wasm = none then invokePool H (H.calleeAuth auth) m args w
  else match H.contracts c m args w.others with
    | some others => .ok { w with others := others }
    | none => .error .host

/-! ## Internal functions -/

namespace World

/-- `require_admin`. -/
def requireAdmin (auth : Address → Bool) (w : World σ) : Except Error Unit :=
  match w.guardian.admin with
  | none => .error .notInitialized
  | some admin => require (auth admin = true) .auth

/-- `require_is_guardian`, and the guardian's own `require_auth`. -/
def requireGuardian (auth : Address → Bool) (guardian : Address) (w : World σ) :
    Except Error Unit := do
  require (guardian ∈ w.guardian.guardians) .notGuardian
  require (auth guardian = true) .auth

/-- `u32` arithmetic with overflow checks. -/
def checkU32 (x : ℕ) : Except Error ℕ := do
  require (x < 2 ^ 32) .host
  return x

/-- `next_id`. -/
def nextId (w : World σ) : Except Error (ℕ × World σ) := do
  let next ← checkU32 (w.guardian.nextProposalId + 1)
  return (w.guardian.nextProposalId, { w with
    guardian := { w.guardian with nextProposalId := next } })

/-- Store a pause proposal. -/
def setPause (id : ℕ) (p : PauseProposal) (w : World σ) : World σ := { w with
  guardian := { w.guardian with
    pauseProposal := Function.update w.guardian.pauseProposal id (some p) } }

/-- Store an upgrade proposal. -/
def setUpgrade (id : ℕ) (p : UpgradeProposal) (w : World σ) : World σ := { w with
  guardian := { w.guardian with
    upgradeProposal := Function.update w.guardian.upgradeProposal id (some p) } }

/-- `env.events().publish`. -/
def publish (e : Event) (w : World σ) : World σ := { w with
  guardian := { w.guardian with events := w.guardian.events ++ [e] } }

/-- A stored proposal, or `ProposalNotFound`. -/
def find {α : Type} (p : Option α) : Except Error α :=
  match p with
  | some p => .ok p
  | none => .error .proposalNotFound

/-- `try_execute_pause`. A pause passes the reason hash on, an unpause passes nothing. -/
def tryExecutePause (auth : Address → Bool) (id : ℕ) (p : PauseProposal) (w : World σ) :
    Except Error (World σ) :=
  if p.approvals.length < w.guardian.threshold then .ok w else do
    let method := if p.unpause then Method.unpause else .pause
    let args := if p.unpause then [] else [p.reasonHash]
    let w₁ ← invokeContract H auth p.contractId method args w
    return (w₁.setPause id { p with executed := true }).publish (.pause id p.contractId p.unpause)

/-- `check_upgrade_quorum`. -/
def checkUpgradeQuorum (id : ℕ) (p : UpgradeProposal) (w : World σ) : World σ :=
  if p.quorumAtLedger = none ∧ w.guardian.threshold ≤ p.approvals.length then
    (w.setUpgrade id { p with quorumAtLedger := some w.pool.ledger }).publish
      (.upquorum id p.contractId)
  else w

/-! ## Entry points -/

/-- `initialize`. -/
def guardianInitialize (auth : Address → Bool) (admin : Address) (guardians : List Address)
    (threshold upgradeDelayLedgers : ℕ) (w : World σ) : Except Error (World σ) := do
  require (w.guardian.admin = none) .alreadyInitialized
  require (auth admin = true) .auth
  require (threshold ≠ 0 ∧ threshold ≤ guardians.length) .invalidThreshold
  return { w with guardian := { w.guardian with
    admin := some admin
    guardians := guardians
    threshold := threshold
    upgradeDelay := upgradeDelayLedgers
    nextProposalId := 0 } }

/-- `add_guardian`. -/
def addGuardian (auth : Address → Bool) (guardian : Address) (w : World σ) :
    Except Error (World σ) := do
  w.requireAdmin auth
  if guardian ∈ w.guardian.guardians then return w
  else return { w with
    guardian := { w.guardian with guardians := w.guardian.guardians ++ [guardian] } }

/-- `remove_guardian`. -/
def removeGuardian (auth : Address → Bool) (guardian : Address) (w : World σ) :
    Except Error (World σ) := do
  w.requireAdmin auth
  let kept := w.guardian.guardians.filter (· ≠ guardian)
  require (w.guardian.threshold ≤ kept.length) .invalidThreshold
  return { w with guardian := { w.guardian with guardians := kept } }

/-- `set_threshold`. -/
def setThreshold (auth : Address → Bool) (threshold : ℕ) (w : World σ) :
    Except Error (World σ) := do
  w.requireAdmin auth
  require (threshold ≠ 0 ∧ threshold ≤ w.guardian.guardians.length) .invalidThreshold
  return { w with guardian := { w.guardian with threshold := threshold } }

/-- `propose_pause`. -/
def proposePause (auth : Address → Bool) (guardian contractId : Address) (reasonHash : Bytes32)
    (unpause : Bool) (w : World σ) : Except Error (World σ) := do
  w.requireGuardian auth guardian
  let (id, w₁) ← w.nextId
  let p : PauseProposal := ⟨contractId, reasonHash, unpause, [guardian], false⟩
  (w₁.setPause id p).tryExecutePause H auth id p

/-- `approve_pause`. -/
def approvePause (auth : Address → Bool) (guardian : Address) (id : ℕ) (w : World σ) :
    Except Error (World σ) := do
  w.requireGuardian auth guardian
  let p ← find (w.guardian.pauseProposal id)
  require (p.executed = false) .alreadyExecuted
  require (guardian ∉ p.approvals) .alreadyApproved
  let p' : PauseProposal := { p with approvals := p.approvals ++ [guardian] }
  (w.setPause id p').tryExecutePause H auth id p'

/-- `propose_upgrade`. -/
def proposeUpgrade (auth : Address → Bool) (guardian contractId : Address) (newWasmHash : Bytes32)
    (w : World σ) : Except Error (World σ) := do
  w.requireGuardian auth guardian
  let (id, w₁) ← w.nextId
  let p : UpgradeProposal := ⟨contractId, newWasmHash, [guardian], none, false, false⟩
  return (w₁.setUpgrade id p).checkUpgradeQuorum id p

/-- `approve_upgrade`. -/
def approveUpgrade (auth : Address → Bool) (guardian : Address) (id : ℕ) (w : World σ) :
    Except Error (World σ) := do
  w.requireGuardian auth guardian
  let p ← find (w.guardian.upgradeProposal id)
  require (p.executed = false ∧ p.cancelled = false) .alreadyExecuted
  require (guardian ∉ p.approvals) .alreadyApproved
  let p' : UpgradeProposal := { p with approvals := p.approvals ++ [guardian] }
  return (w.setUpgrade id p').checkUpgradeQuorum id p'

/-- `cancel_upgrade`. -/
def cancelUpgrade (auth : Address → Bool) (guardian : Address) (id : ℕ) (w : World σ) :
    Except Error (World σ) := do
  w.requireGuardian auth guardian
  let p ← find (w.guardian.upgradeProposal id)
  require (p.executed = false) .alreadyExecuted
  return (w.setUpgrade id { p with cancelled := true }).publish (.upcancel id guardian)

/-- `execute_upgrade`. -/
def executeUpgrade (auth : Address → Bool) (id : ℕ) (w : World σ) : Except Error (World σ) := do
  let p ← find (w.guardian.upgradeProposal id)
  require (p.executed = false ∧ p.cancelled = false) .alreadyExecuted
  match p.quorumAtLedger with
  | none => .error .thresholdNotMet
  | some quorumLedger =>
      let unlocked ← checkU32 (quorumLedger + w.guardian.upgradeDelay)
      require (unlocked ≤ w.pool.ledger) .timelockNotElapsed
      let w₁ ← invokeContract H auth p.contractId .upgrade [p.newWasmHash] w
      return (w₁.setUpgrade id { p with executed := true }).publish (.upgraded id p.contractId)

end World

/-! ## Runs -/

/-- The entry points. -/
inductive Call where
  | guardianInitialize (admin : Address) (guardians : List Address) (threshold upgradeDelayLedgers : ℕ)
  | addGuardian (guardian : Address)
  | removeGuardian (guardian : Address)
  | setThreshold (threshold : ℕ)
  | proposePause (guardian contractId : Address) (reasonHash : Bytes32) (unpause : Bool)
  | approvePause (guardian : Address) (id : ℕ)
  | proposeUpgrade (guardian contractId : Address) (newWasmHash : Bytes32)
  | approveUpgrade (guardian : Address) (id : ℕ)
  | cancelUpgrade (guardian : Address) (id : ℕ)
  | executeUpgrade (id : ℕ)
deriving DecidableEq

/-- Run a call with the accounts that authorized it. -/
def Call.invoke (auth : Address → Bool) : Call → World σ → Except Error (World σ)
  | .guardianInitialize a gs t d, w => w.guardianInitialize auth a gs t d
  | .addGuardian g, w => w.addGuardian auth g
  | .removeGuardian g, w => w.removeGuardian auth g
  | .setThreshold t, w => w.setThreshold auth t
  | .proposePause g c r u, w => w.proposePause H auth g c r u
  | .approvePause g id, w => w.approvePause H auth g id
  | .proposeUpgrade g c h, w => w.proposeUpgrade auth g c h
  | .approveUpgrade g id, w => w.approveUpgrade auth g id
  | .cancelUpgrade g id, w => w.cancelUpgrade auth g id
  | .executeUpgrade id, w => w.executeUpgrade H auth id

/-- One step of a run: a call of the guardian, a call of the pool by anyone else, the next ledger,
or anything the other contracts do. -/
inductive Step (σ : Type) where
  | invoke (auth : Address → Bool) (call : Call)
  | pool (auth : Address → Bool) (call : Stellar.Call)
  | close
  | others (f : σ → σ)

/-- A successful call of the guardian with the states around it. -/
structure Invocation (σ : Type) where
  call : Call
  pre : World σ
  post : World σ

/-- Run a step: the state, and the successful call of the guardian if it was one. -/
def Step.run (w : World σ) : Step σ → World σ × List (Invocation σ)
  | .invoke auth call =>
      match call.invoke H auth w with
      | .ok w' => (w', [⟨call, w, w'⟩])
      | .error _ => (w, [])
  | .pool auth call =>
      -- a pool whose code was replaced no longer answers by these entry points
      if w.wasm = none then
        match call.invoke H.env auth w.pool with
        | .ok s => ({ w with pool := s }, [])
        | .error _ => (w, [])
      else (w, [])
  | .close => ({ w with pool := { w.pool with ledger := w.pool.ledger + 1 } }, [])
  | .others f => ({ w with others := f w.others }, [])

/-- Run a sequence of steps: the state, and the successful calls of the guardian in order. -/
def run : List (Step σ) → World σ → World σ × List (Invocation σ)
  | [], w => (w, [])
  | t :: ts, w =>
      let (w₁, is₁) := t.run H w
      let (w₂, is₂) := run ts w₁
      (w₂, is₁ ++ is₂)

end ShadePay.Stellar.Guardian
