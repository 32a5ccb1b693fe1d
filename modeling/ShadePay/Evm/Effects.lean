import ShadePay.Evm.Machine

/-!
# What a successful call did

Every function of the Arc contracts checks its arguments and then runs a list of primitive updates:
it spends nullifiers, inserts leaves, adjusts supplies, opens and consumes channels. `Call.prims` is
that list, `Call.Checks` what the checks have established, and `enter_inv` says that a call that
succeeds passed its checks and did exactly its list. Facts about runs are proved by induction over
lists of primitives, and the functions themselves are not looked at again.
-/

namespace ShadePay.Evm

open Guard Reentrancy

/-! ## Primitive updates -/

/-- A primitive update of the three contracts. -/
inductive Prim where
  | spend (spender : Address) (nullifier : ℕ)
  | insert (leaf : ℕ)
  | adjust (assetId : ℕ) (delta : ℤ)
  | deposit (cctpNonce : ℕ)
  | openChannel (channelId : ℕ) (ch : Channel)
  | consume (channelId : ℕ)
  | emit (event : State → Event)

variable (E : Env)

/-- Run a primitive update. -/
def Prim.run (s : State) : Prim → Except Error State
  | .spend spender n => s.spend spender n
  | .insert leaf => do
      let (_, s') ← s.insert E leaf
      return s'
  | .adjust assetId delta => s.adjustNoteSupply E assetId delta
  | .deposit n => .ok { s with
      pool := { s.pool with depositUsed := Function.update s.pool.depositUsed n true } }
  | .openChannel c ch => do
      require ((s.escrow.channels c).opened = false) .channelAlreadyOpen
      return s.setChannel c ch
  | .consume c => do
      require ((s.escrow.channels c).opened = true) .channelNotOpen
      require ((s.escrow.channels c).consumed = false) .channelConsumed
      return s.setChannel c { s.escrow.channels c with consumed := true }
  | .emit event => .ok (s.emit (event s))

/-- Run a list of primitive updates. -/
def runPrims : List Prim → State → Except Error State
  | [], s => .ok s
  | p :: ps, s => do
      let s' ← p.run E s
      runPrims ps s'

@[simp] theorem runPrims_nil (s : State) : runPrims E [] s = .ok s := rfl

/-- The first primitive runs, then the others. -/
@[simp] theorem runPrims_cons {p : Prim} {ps : List Prim} {s s' : State} :
    runPrims E (p :: ps) s = .ok s' ↔ ∃ s₁, p.run E s = .ok s₁ ∧ runPrims E ps s₁ = .ok s' := by
  simp [runPrims]

/-- Two lists of primitives run one after the other. -/
theorem runPrims_append {ps qs : List Prim} {s s' : State} :
    runPrims E (ps ++ qs) s = .ok s' ↔
      ∃ s₁, runPrims E ps s = .ok s₁ ∧ runPrims E qs s₁ = .ok s' := by
  induction ps generalizing s with
  | nil => simp
  | cons p ps ih =>
      simp only [List.cons_append, runPrims_cons, ih]
      constructor
      · rintro ⟨s₁, h1, s₂, h2, h3⟩
        exact ⟨s₂, ⟨s₁, h1, h2⟩, h3⟩
      · rintro ⟨s₂, ⟨s₁, h1, h2⟩, h3⟩
        exact ⟨s₁, h1, s₂, h2, h3⟩

/-! ## Calls as lists of primitives -/

/-- `streamInsert`. -/
def streamPrims (assetId commitment : ℕ) (delta : ℤ) : List Prim :=
  (if delta ≠ 0 then [.adjust assetId delta] else []) ++ [.insert commitment]

/-- `_settle`. -/
def settlePrims (pub : StreamSettlePub ℕ) : List Prim :=
  .consume pub.channelId :: (streamPrims pub.assetId pub.payeeCommitment (int256 pub.cumulative) ++
    streamPrims pub.assetId pub.refundCommitment (int256 (pub.cap - pub.cumulative)) ++
    [.emit fun _ => .channelSettled pub.channelId pub.cumulative pub.payeeCommitment
      pub.refundCommitment])

/-- The two spends and the two insertions of a committee settlement. -/
def pairPrims (batchHash nullifierA nullifierB outputCommitmentA outputCommitmentB : ℕ) :
    List Prim :=
  [.spend E.pool nullifierA, .spend E.pool nullifierB, .insert outputCommitmentA,
    .insert outputCommitmentB, .emit fun s => .mpcSettled batchHash nullifierA nullifierB
      outputCommitmentA outputCommitmentB s.pool.tree.getRoot]

/-- What a call updates before its first external call. -/
def Call.prims (sender : Address) (s : State) : Call → List Prim
  | .receiveDeposit d n _ amount c _ _ _ pub =>
      [.insert c, .deposit n, .adjust pub.assetIdHash (int256 amount), .emit fun s =>
        .deposit d n pub.assetIdHash amount c (s.pool.tree.nextLeafIndex - 1) s.pool.tree.getRoot]
  | .withdraw _ _ pub => [.spend E.pool pub.nullifierHash]
  | .privateTransferSettle _ pub =>
      [.spend E.pool pub.nullifierHash, .insert pub.outputCommitment, .emit fun s =>
        .transfer pub.nullifierHash pub.outputCommitment (s.pool.tree.nextLeafIndex - 1)
          s.pool.tree.getRoot]
  | .rfqSettle _ _ _ _ _ _ _ pub => [.spend E.pool pub.nullifierHash]
  | .withdrawCctp _ _ _ _ _ pub => [.spend E.pool pub.nullifierHash]
  | .mpcSettle b _ _ _ pub => pairPrims E b pub.nullifierHashA pub.nullifierHashB
      pub.outputCommitmentA pub.outputCommitmentB
  | .mpcSettlePriced b _ _ _ pub => pairPrims E b pub.nullifierHashA pub.nullifierHashB
      pub.outputCommitmentA pub.outputCommitmentB
  | .streamInsert a c delta => streamPrims a c delta
  | .open _ pub =>
      [.spend E.escrow pub.inputNullifierHash, .openChannel pub.channelId ⟨pub.payerAx, pub.payerAy,
        pub.cap, pub.expiry, pub.reclaimCommitment, pub.assetId, true, false⟩] ++
      streamPrims pub.assetId pub.changeCommitment (-int256 pub.cap) ++
      [.emit fun _ => .channelOpened pub.channelId pub.cap pub.expiry pub.changeCommitment]
  | .settle _ pub => settlePrims pub
  | .settleBatch _ pubs => pubs.flatMap settlePrims
  | .reclaim c =>
      .consume c :: (streamPrims (s.escrow.channels c).assetId
        (s.escrow.channels c).reclaimCommitment (int256 (s.escrow.channels c).cap) ++
      [.emit fun _ => .channelReclaimed c (s.escrow.channels c).cap
        (s.escrow.channels c).reclaimCommitment])
  | .spend n => [.spend sender n]

/-- The checks the four spends on the withdraw circuit share. -/
structure WithdrawChecks (s : State) (op : ℤ) (proof : Groth16Proof) (pub : WithdrawPub ℕ) :
    Prop where
  operation : int256 pub.operationType = op
  value : pub.withdrawnValue ≠ 0
  deadline : s.block ≤ pub.deadline
  domain : pub.poolId = E.poolId ∧ pub.chainId = E.chainId
  association : pub.associationRoot = s.pool.associationRoot
  root : s.pool.tree.isKnownRoot pub.stateRoot = true
  verified : E.verifyProof s.pool.withdrawVerifier proof pub.toList = true

/-- The checks of one settled channel. -/
structure SettleChecks (s : State) (proof : Groth16Proof) (pub : StreamSettlePub ℕ) : Prop where
  opened : (s.escrow.channels pub.channelId).opened = true
  consumed : (s.escrow.channels pub.channelId).consumed = false
  payerAx : pub.payerAx = (s.escrow.channels pub.channelId).payerAx
  payerAy : pub.payerAy = (s.escrow.channels pub.channelId).payerAy
  cap : pub.cap = (s.escrow.channels pub.channelId).cap
  assetId : pub.assetId = (s.escrow.channels pub.channelId).assetId
  domain : pub.poolId = E.poolId ∧ pub.chainId = E.chainId
  association : pub.associationRoot = s.pool.associationRoot
  verified : E.verifyProof s.escrow.settleVerifier proof pub.toList = true
  cumulative : pub.cumulative ≤ pub.cap
  stream : s.pool.authorizedStreamContract E.escrow = true

/-- What the checks of a successful call have established. -/
def Call.Checks (sender : Address) (s : State) : Call → Prop
  | .receiveDeposit d n token amount c enc pol proof pub =>
      s.pool.access.hasRole .registrar sender = true ∧ amount ≠ 0 ∧
      s.pool.depositUsed n = false ∧ pub.commitment = c ∧ int256 pub.operationType = 4 ∧
      pub.sourceDomain = d ∧ pub.amount7dp = amount ∧ amount ≤ pub.amount6dp * 10 ∧
      E.hashToField n = pub.cctpNonceHash ∧ E.hashToField enc = pub.encryptedNotePayloadHash ∧
      E.hashToField pol = pub.policyIdHash ∧ E.addressHash token = pub.assetIdHash ∧
      E.addressHash E.pool = pub.recipientPool ∧ (pub.poolId = E.poolId ∧ pub.chainId = E.chainId) ∧
      E.verifyProof s.pool.depositVerifier proof pub.toList = true
  | .withdraw recipient proof pub => WithdrawChecks E s 1 proof pub ∧
      pub.relayerFee ≤ pub.withdrawnValue ∧ pub.recipientHash = E.addressHash recipient ∧
      s.pool.assetToken pub.assetId ≠ 0 ∧
      pub.withdrawnValue - pub.relayerFee ≤ s.poolBalance E (s.pool.assetToken pub.assetId)
  | .privateTransferSettle proof pub =>
      pub.associationRoot = s.pool.associationRoot ∧
      (pub.poolId = E.poolId ∧ pub.chainId = E.chainId) ∧
      s.pool.tree.isKnownRoot pub.stateRoot = true ∧
      E.verifyProof s.pool.transferVerifier proof pub.toList = true
  | .rfqSettle _ q i f pk sig proof pub => WithdrawChecks E s 3 proof pub ∧
      pub.relayerFee ≤ pub.withdrawnValue ∧ s.pool.authorizedSolver pk = true ∧
      E.ed25519 s.pool.ed25519Verifier pk (Bytes.ofNat 32 q) sig = true ∧
      E.hashToField q = pub.quoteHash ∧ E.hashToField i = pub.intentHash ∧
      E.hashToField f = pub.fillReceiptHash ∧ s.pool.assetToken pub.assetId ≠ 0 ∧
      pub.withdrawnValue ≤ s.poolBalance E (s.pool.assetToken pub.assetId)
  | .withdrawCctp _ r fee fin proof pub => WithdrawChecks E s 2 proof pub ∧
      pub.assetId = E.addressHash s.pool.usdcToken ∧
      pub.destinationDomain = s.pool.cctpOutboundDomain ∧ pub.destinationRecipient = r ∧
      pub.maxFee = fee ∧ pub.minFinalityThreshold = fin
  | .mpcSettle b pks sigs proof pub =>
      verifyThreshold (E.ed25519 s.pool.ed25519Verifier) s.pool.committee b pks sigs = .ok () ∧
      E.verifyProof s.pool.mpcVerifier proof pub.toList = true ∧
      s.pool.tree.isKnownRoot pub.stateRoot = true ∧ s.pool.associationRoot ≠ 0 ∧
      pub.associationRoot = s.pool.associationRoot ∧ pub.batchHash = E.hashToField b ∧
      (pub.poolId = E.poolId ∧ pub.chainId = E.chainId) ∧ s.block ≤ pub.deadline
  | .mpcSettlePriced b pks sigs proof pub =>
      verifyThreshold (E.ed25519 s.pool.ed25519Verifier) s.pool.committee b pks sigs = .ok () ∧
      E.verifyProof s.pool.mpcPricedVerifier proof pub.toList = true ∧
      s.pool.tree.isKnownRoot pub.stateRoot = true ∧ s.pool.associationRoot ≠ 0 ∧
      pub.associationRoot = s.pool.associationRoot ∧ pub.batchHash = E.hashToField b ∧
      (pub.poolId = E.poolId ∧ pub.chainId = E.chainId) ∧ s.block ≤ pub.deadline ∧
      pub.inputAssetA ≠ pub.inputAssetB
  | .streamInsert _ _ _ => s.pool.authorizedStreamContract sender = true
  | .open proof pub =>
      (s.escrow.channels pub.channelId).opened = false ∧
      (pub.poolId = E.poolId ∧ pub.chainId = E.chainId) ∧
      pub.associationRoot = s.pool.associationRoot ∧
      s.pool.tree.isKnownRoot pub.stateRoot = true ∧
      E.verifyProof s.escrow.openVerifier proof pub.toList = true ∧
      s.pool.authorizedStreamContract E.escrow = true
  | .settle proof pub => SettleChecks E s proof pub
  | .settleBatch proofs pubs => proofs.length = pubs.length ∧
      ∀ q ∈ proofs.zip pubs, SettleChecks E s q.1 q.2
  | .reclaim c => (s.escrow.channels c).opened = true ∧ (s.escrow.channels c).consumed = false ∧
      (s.escrow.channels c).expiry + E.challengeWindow < s.block ∧
      s.pool.authorizedStreamContract E.escrow = true
  | .spend _ => s.registry.authorized sender = true

/-- Where a call waits first. -/
def Call.kont (s : State) : Call → Option Kont
  | .withdraw recipient _ pub =>
      some (.transferring (s.pool.assetToken pub.assetId) recipient
        (pub.withdrawnValue - pub.relayerFee) pub.assetId pub.withdrawnValue
        (.withdraw recipient pub.nullifierHash (pub.withdrawnValue - pub.relayerFee) pub.relayerFee))
  | .rfqSettle toSolver q _ _ _ _ _ pub =>
      some (.transferring (s.pool.assetToken pub.assetId) toSolver pub.withdrawnValue pub.assetId
        pub.withdrawnValue (.rfqSettled q toSolver pub.nullifierHash pub.withdrawnValue))
  | .withdrawCctp recipient r fee fin _ pub =>
      some (.approving s.pool.usdcToken s.pool.tokenMessenger (pub.withdrawnValue + fee)
        ⟨recipient, pub.nullifierHash, pub.assetId, pub.withdrawnValue, r, fee, fin⟩)
  | _ => none

/-! ## Inversion of the primitives -/

section
variable {E} {s s' : State}

@[simp] theorem Access.whenNotPaused_eq_ok {a : Access} {u : Unit} :
    a.whenNotPaused = .ok u ↔ a.paused = false := require_eq_ok

@[simp] theorem Access.onlyRole_eq_ok {a : Access} {r : Role} {x : Address} {u : Unit} :
    a.onlyRole r x = .ok u ↔ a.hasRole r x = true := require_eq_ok

@[simp] theorem State.requireKnownRoot_eq_ok {r : ℕ} {u : Unit} :
    s.requireKnownRoot r = .ok u ↔ s.pool.tree.isKnownRoot r = true := require_eq_ok

@[simp] theorem State.requireNotExpired_eq_ok {d : ℕ} {u : Unit} :
    s.requireNotExpired d = .ok u ↔ s.block ≤ d := require_eq_ok

/-- The check passes for the pool's own domain and its current association root. -/
@[simp] theorem State.checkDomainCompliance_eq_ok {a p c : ℕ} {u : Unit} :
    s.checkDomainCompliance E a p c = .ok u ↔
      (p = E.poolId ∧ c = E.chainId) ∧ a = s.pool.associationRoot := by
  simp [State.checkDomainCompliance]

/-- The token of an asset that is registered. -/
@[simp] theorem State.getAssetToken_eq_ok {a : ℕ} {t : Address} :
    s.getAssetToken a = .ok t ↔ s.pool.assetToken a ≠ 0 ∧ s.pool.assetToken a = t := by
  simp [State.getAssetToken]

/-- A nullifier is spent if the registry runs, the spender is authorized and it is new; the spend
marks it and says so. -/
theorem State.spend_eq_ok {x : Address} {n : ℕ} : s.spend x n = .ok s' ↔
    (s.registry.access.paused = false ∧ s.registry.authorized x = true ∧
      s.registry.spent n = false) ∧
    s' = { s with
      registry := { s.registry with spent := Function.update s.registry.spent n true }
      events := s.events ++ [.nullifierSpent x n] } := by
  simp [State.spend, @eq_comm _ s', and_assoc]

/-- An insertion is one into the tree, and touches nothing else. -/
theorem State.insert_eq_ok {leaf i : ℕ} : s.insert E leaf = .ok (i, s') ↔
    ∃ t, s.pool.tree.insert E.hashLeftRight E.levels leaf = .ok (i, t) ∧
      s' = { s with pool := { s.pool with tree := t } } := by
  simp only [State.insert, bind_eq_ok, Prod.exists, pure_eq_ok, Prod.mk.injEq]
  constructor
  · rintro ⟨_, t, h, rfl, rfl⟩
    exact ⟨t, h, rfl⟩
  · rintro ⟨t, h, rfl⟩
    exact ⟨i, t, h, rfl, rfl⟩

/-- The supply of a registered asset moves if it stays between zero and the pool's balance. -/
theorem State.adjustNoteSupply_eq_ok {a : ℕ} {delta : ℤ} : s.adjustNoteSupply E a delta = .ok s' ↔
    (s.pool.assetToken a ≠ 0 ∧ s.pool.noteSupplyOf a + delta < 2 ^ 255 ∧
      0 ≤ s.pool.noteSupplyOf a + delta ∧
      s.pool.noteSupplyOf a + delta ≤ s.poolBalance E (s.pool.assetToken a)) ∧
    s' = { s with pool := { s.pool with
      noteSupplyOf := Function.update s.pool.noteSupplyOf a (s.pool.noteSupplyOf a + delta) } } := by
  simp only [State.adjustNoteSupply, bind_eq_ok, require_eq_ok, exists_unit, pure_eq_ok]
  constructor
  · rintro ⟨h1, ⟨-, h2⟩, h3, h4, rfl⟩
    exact ⟨⟨h1, h2, h3, h4⟩, rfl⟩
  · rintro ⟨⟨h1, h2, h3, h4⟩, rfl⟩
    exact ⟨h1, ⟨by omega, h2⟩, h3, h4, rfl⟩

/-- The parts of the state that no primitive update touches. -/
structure SameConfig (s s' : State) : Prop where
  registry : s'.registry = { s.registry with spent := s'.registry.spent }
  pool : s'.pool = { s.pool with
    tree := s'.pool.tree
    noteSupplyOf := s'.pool.noteSupplyOf
    depositUsed := s'.pool.depositUsed }
  escrow : s'.escrow = { s.escrow with channels := s'.escrow.channels }
  balance : s'.balance = s.balance
  allowance : s'.allowance = s.allowance
  block : s'.block = s.block

theorem SameConfig.refl (s : State) : SameConfig s s := ⟨rfl, rfl, rfl, rfl, rfl, rfl⟩

/-- Two steps that leave the configuration alone. -/
theorem SameConfig.trans {s s₁ s₂ : State} (h : SameConfig s s₁) (h' : SameConfig s₁ s₂) :
    SameConfig s s₂ := by
  refine ⟨?_, ?_, ?_, h'.balance.trans h.balance, h'.allowance.trans h.allowance,
    h'.block.trans h.block⟩
  · rw [h'.registry, h.registry]
  · rw [h'.pool, h.pool]
  · rw [h'.escrow, h.escrow]

/-- No primitive touches the configuration. -/
theorem Prim.run_config {p : Prim} (h : p.run E s = .ok s') : SameConfig s s' := by
  cases p with
  | spend x n =>
      obtain ⟨-, rfl⟩ := State.spend_eq_ok.1 h
      exact ⟨rfl, rfl, rfl, rfl, rfl, rfl⟩
  | insert leaf =>
      simp only [Prim.run, bind_eq_ok, Prod.exists, pure_eq_ok] at h
      obtain ⟨_, _, h, rfl⟩ := h
      obtain ⟨t, -, rfl⟩ := State.insert_eq_ok.1 h
      exact ⟨rfl, rfl, rfl, rfl, rfl, rfl⟩
  | adjust a d =>
      obtain ⟨-, rfl⟩ := State.adjustNoteSupply_eq_ok.1 h
      exact ⟨rfl, rfl, rfl, rfl, rfl, rfl⟩
  | deposit n =>
      cases h
      exact ⟨rfl, rfl, rfl, rfl, rfl, rfl⟩
  | openChannel c ch =>
      simp only [Prim.run, bind_eq_ok, require_eq_ok, exists_unit, pure_eq_ok] at h
      obtain ⟨-, rfl⟩ := h
      exact ⟨rfl, rfl, rfl, rfl, rfl, rfl⟩
  | consume c =>
      simp only [Prim.run, bind_eq_ok, require_eq_ok, exists_unit, pure_eq_ok] at h
      obtain ⟨-, -, rfl⟩ := h
      exact ⟨rfl, rfl, rfl, rfl, rfl, rfl⟩
  | emit e =>
      cases h
      exact ⟨rfl, rfl, rfl, rfl, rfl, rfl⟩

/-- **Induction over primitives.** What every primitive of the list preserves, the list preserves. -/
theorem runPrims_induct {I : State → Prop} {ps : List Prim}
    (hstep : ∀ p ∈ ps, ∀ s s', I s → p.run E s = .ok s' → I s') (h : runPrims E ps s = .ok s')
    (hs : I s) : I s' := by
  induction ps generalizing s with
  | nil =>
      cases h
      exact hs
  | cons p ps ih =>
      obtain ⟨s₁, h1, h2⟩ := (runPrims_cons E).1 h
      exact ih (fun q hq => hstep q (by simp [hq])) h2 (hstep p (by simp) s s₁ hs h1)

/-- No list of primitives touches the configuration. -/
theorem runPrims_config {ps : List Prim} (h : runPrims E ps s = .ok s') : SameConfig s s' :=
  runPrims_induct (I := SameConfig s) (fun _ _ _ _ hI hp => hI.trans (Prim.run_config hp)) h
    (SameConfig.refl s)

end

/-! ## Inversion of the functions -/

section
variable {E} {s s' : State}

/-- An insertion for a channel: its caller is authorized, and what it does are the primitives. -/
theorem State.streamInsert_inv {x : Address} {a c : ℕ} {d : ℤ}
    (h : s.streamInsert E x a c d = .ok s') :
    s.pool.authorizedStreamContract x = true ∧ runPrims E (streamPrims a c d) s = .ok s' := by
  by_cases hd : d = 0
  · simp only [State.streamInsert, hd, ne_eq, not_true_eq_false, if_false, bind_eq_ok,
      Access.whenNotPaused_eq_ok, require_eq_ok, exists_unit, ok_bind, Prod.exists, pure_eq_ok] at h
    obtain ⟨-, hauth, i, _, h1, rfl⟩ := h
    refine ⟨hauth, ?_⟩
    simp only [streamPrims, hd, ne_eq, not_true_eq_false, if_false, List.nil_append, runPrims_cons,
      runPrims_nil, Prim.run, bind_eq_ok, Prod.exists, pure_eq_ok]
    exact ⟨_, ⟨i, _, h1, rfl⟩, rfl⟩
  · simp only [State.streamInsert, hd, ne_eq, not_false_eq_true, if_true, bind_eq_ok,
      Access.whenNotPaused_eq_ok, require_eq_ok, exists_unit, Prod.exists, pure_eq_ok] at h
    obtain ⟨-, hauth, s₁, h1, i, _, h2, rfl⟩ := h
    refine ⟨hauth, ?_⟩
    simp only [streamPrims, hd, ne_eq, not_false_eq_true, if_true, List.cons_append,
      List.nil_append, runPrims_cons, runPrims_nil, Prim.run, bind_eq_ok, Prod.exists, pure_eq_ok]
    exact ⟨s₁, h1, _, ⟨i, _, h2, rfl⟩, rfl⟩

/-- `receiveDeposit` passes its checks and does its primitives. -/
theorem State.receiveDeposit_inv {x : Address} {d n : ℕ} {t : Address} {amount c enc pol : ℕ}
    {proof : Groth16Proof} {pub : DepositPub ℕ}
    (h : s.receiveDeposit E x d n t amount c enc pol proof pub = .ok s') :
    (Call.receiveDeposit d n t amount c enc pol proof pub).Checks E x s ∧
      runPrims E ((Call.receiveDeposit d n t amount c enc pol proof pub).prims E x s) s = .ok s' := by
  simp only [State.receiveDeposit, bind_eq_ok, Access.whenNotPaused_eq_ok, Access.onlyRole_eq_ok,
    require_eq_ok, exists_unit, Prod.exists, pure_eq_ok] at h
  obtain ⟨-, hrole, hne, hused, hc, hop, hd, h⟩ := h
  obtain ⟨ha, -, -, -, hle, hn, henc, hpol, h⟩ := h
  obtain ⟨htok, hpool, hdom, hver, i, s₁, h1, h⟩ := h
  obtain ⟨s₃, h2, rfl⟩ := h
  refine ⟨⟨hrole, hne, hused, hc, hop, hd, ha, hle, hn, henc, hpol, htok, hpool, hdom, hver⟩, ?_⟩
  -- the index of the deposit event is that of the leaf just inserted
  have hidx : s₃.pool.tree.nextLeafIndex - 1 = i := by
    obtain ⟨t, ht, rfl⟩ := State.insert_eq_ok.1 h1
    obtain ⟨-, rfl⟩ := State.adjustNoteSupply_eq_ok.1 h2
    simp only [IncrementalMerkleTree.insert, bind_eq_ok, require_eq_ok, exists_unit, pure_eq_ok,
      Prod.mk.injEq] at ht
    obtain ⟨-, -, rfl, rfl⟩ := ht
    rfl
  simp only [Call.prims, runPrims_cons, Prim.run, bind_eq_ok, Prod.exists, pure_eq_ok,
    runPrims_nil]
  exact ⟨s₁, ⟨i, s₁, h1, rfl⟩, _, rfl, s₃, h2, _, rfl, by rw [hidx]⟩

/-- `withdraw` passes its checks, does its primitives and waits for the token. -/
theorem State.withdraw_inv {a : Address} {proof : Groth16Proof} {pub : WithdrawPub ℕ}
    {ko : Option Kont} (x : Address) (h : s.withdraw E a proof pub = .ok (s', ko)) :
    (Call.withdraw a proof pub).Checks E x s ∧
      runPrims E ((Call.withdraw a proof pub).prims E x s) s = .ok s' ∧
      ko = (Call.withdraw a proof pub).kont s := by
  simp only [State.withdraw, bind_eq_ok, Access.whenNotPaused_eq_ok, require_eq_ok, exists_unit,
    State.requireNotExpired_eq_ok, State.checkDomainCompliance_eq_ok, State.requireKnownRoot_eq_ok,
    State.getAssetToken_eq_ok, pure_eq_ok, Prod.mk.injEq] at h
  obtain ⟨-, hop, ⟨hv, hfee⟩, hdl, hr, ⟨hdom, hassoc⟩, hroot, h⟩ := h
  obtain ⟨hver, s₁, hs, _, ⟨ht, rfl⟩, hbal, rfl, rfl⟩ := h
  have hcfg := Prim.run_config (E := E) (p := .spend E.pool pub.nullifierHash) hs
  rw [hcfg.pool] at ht
  rw [State.poolBalance, hcfg.balance, hcfg.pool] at hbal
  refine ⟨⟨⟨hop, hv, hdl, hdom, hassoc, hroot, hver⟩, hfee, hr, ht, hbal⟩, ?_, ?_⟩
  · simpa [Call.prims, Prim.run] using hs
  · rw [hcfg.pool]
    rfl

/-- `rfqSettle` passes its checks, does its primitives and waits for the token. -/
theorem State.rfqSettle_inv {a : Address} {q i f pk : ℕ} {sig : List UInt8} {proof : Groth16Proof}
    {pub : WithdrawPub ℕ} {ko : Option Kont} (x : Address)
    (h : s.rfqSettle E a q i f pk sig proof pub = .ok (s', ko)) :
    (Call.rfqSettle a q i f pk sig proof pub).Checks E x s ∧
      runPrims E ((Call.rfqSettle a q i f pk sig proof pub).prims E x s) s = .ok s' ∧
      ko = (Call.rfqSettle a q i f pk sig proof pub).kont s := by
  simp only [State.rfqSettle, bind_eq_ok, Access.whenNotPaused_eq_ok, require_eq_ok, exists_unit,
    State.requireNotExpired_eq_ok, State.checkDomainCompliance_eq_ok, State.requireKnownRoot_eq_ok,
    State.getAssetToken_eq_ok, pure_eq_ok, Prod.mk.injEq] at h
  obtain ⟨-, hpk, hsig, hop, ⟨hv, hfee⟩, hdl, hq, h⟩ := h
  obtain ⟨hi, hf, ⟨hdom, hassoc⟩, hroot, hver, s₁, hs, _, h⟩ := h
  obtain ⟨⟨ht, rfl⟩, hbal, rfl, rfl⟩ := h
  have hcfg := Prim.run_config (E := E) (p := .spend E.pool pub.nullifierHash) hs
  rw [hcfg.pool] at ht
  rw [State.poolBalance, hcfg.balance, hcfg.pool] at hbal
  refine ⟨⟨⟨hop, hv, hdl, hdom, hassoc, hroot, hver⟩, hfee, hpk, hsig, hq, hi, hf, ht, hbal⟩, ?_, ?_⟩
  · simpa [Call.prims, Prim.run] using hs
  · rw [hcfg.pool]
    rfl

/-- `withdrawCctp` passes its checks, does its primitives and waits for the approval. -/
theorem State.withdrawCctp_inv {a : Address} {r fee fin : ℕ} {proof : Groth16Proof}
    {pub : WithdrawPub ℕ} {ko : Option Kont} (x : Address)
    (h : s.withdrawCctp E a r fee fin proof pub = .ok (s', ko)) :
    (Call.withdrawCctp a r fee fin proof pub).Checks E x s ∧
      runPrims E ((Call.withdrawCctp a r fee fin proof pub).prims E x s) s = .ok s' ∧
      ko = (Call.withdrawCctp a r fee fin proof pub).kont s := by
  simp only [State.withdrawCctp, bind_eq_ok, Access.whenNotPaused_eq_ok, require_eq_ok, exists_unit,
    State.requireNotExpired_eq_ok, State.checkDomainCompliance_eq_ok, State.requireKnownRoot_eq_ok,
    pure_eq_ok, Prod.mk.injEq] at h
  obtain ⟨-, hv, hop, hasset, hdl, -, hdd, h⟩ := h
  obtain ⟨hr, hfee, hfin, ⟨hdom, hassoc⟩, hroot, hver, s₁, h⟩ := h
  obtain ⟨hs, -, rfl, rfl⟩ := h
  have hcfg := Prim.run_config (E := E) (p := .spend E.pool pub.nullifierHash) hs
  refine ⟨⟨⟨hop, hv, hdl, hdom, hassoc, hroot, hver⟩, hasset, hdd, hr, hfee, hfin⟩, ?_, ?_⟩
  · simpa [Call.prims, Prim.run] using hs
  · rw [hcfg.pool]
    rfl

/-- `privateTransferSettle` passes its checks and does its primitives. -/
theorem State.privateTransferSettle_inv {x : Address} {proof : Groth16Proof} {pub : TransferPub ℕ}
    (h : s.privateTransferSettle E x proof pub = .ok s') :
    (Call.privateTransferSettle proof pub).Checks E x s ∧
      runPrims E ((Call.privateTransferSettle proof pub).prims E x s) s = .ok s' := by
  simp only [State.privateTransferSettle, bind_eq_ok, Access.whenNotPaused_eq_ok,
    Access.onlyRole_eq_ok, require_eq_ok, exists_unit, State.requireKnownRoot_eq_ok, Prod.exists,
    pure_eq_ok] at h
  obtain ⟨-, -, hassoc, hdom, hroot, hver, s₁, hs, h⟩ := h
  obtain ⟨i, s₂, h1, rfl⟩ := h
  refine ⟨⟨hassoc, hdom, hroot, hver⟩, ?_⟩
  have hidx : s₂.pool.tree.nextLeafIndex - 1 = i := by
    obtain ⟨t, ht, rfl⟩ := State.insert_eq_ok.1 h1
    simp only [IncrementalMerkleTree.insert, bind_eq_ok, require_eq_ok, exists_unit, pure_eq_ok,
      Prod.mk.injEq] at ht
    obtain ⟨-, -, rfl, rfl⟩ := ht
    rfl
  simp only [Call.prims, runPrims_cons, Prim.run, bind_eq_ok, Prod.exists, pure_eq_ok,
    runPrims_nil]
  exact ⟨s₁, hs, s₂, ⟨i, s₂, h1, rfl⟩, _, rfl, by rw [hidx]⟩

/-- The end of a committee settlement: two spends, two insertions and an event. -/
theorem State.settlePair_inv {b na nb oa ob : ℕ} (h : s.settlePair E b na nb oa ob = .ok s') :
    runPrims E (pairPrims E b na nb oa ob) s = .ok s' := by
  simp only [State.settlePair, bind_eq_ok, Prod.exists, pure_eq_ok] at h
  obtain ⟨s₁, h1, s₂, h2, i, s₃, h3, j, s₄, h4, rfl⟩ := h
  simp only [pairPrims, runPrims_cons, Prim.run, bind_eq_ok, Prod.exists, pure_eq_ok, runPrims_nil]
  exact ⟨s₁, h1, s₂, h2, s₃, ⟨i, s₃, h3, rfl⟩, s₄, ⟨j, s₄, h4, rfl⟩, _, rfl, rfl⟩

/-- `mpcSettle` passes its checks and does its primitives. -/
theorem State.mpcSettle_inv {b : ℕ} {pks : List ℕ} {sigs : List (List UInt8)}
    {proof : Groth16Proof} {pub : MpcPub ℕ} (x : Address)
    (h : s.mpcSettle E b pks sigs proof pub = .ok s') :
    (Call.mpcSettle b pks sigs proof pub).Checks E x s ∧
      runPrims E ((Call.mpcSettle b pks sigs proof pub).prims E x s) s = .ok s' := by
  simp only [State.mpcSettle, bind_eq_ok, Access.whenNotPaused_eq_ok, require_eq_ok, exists_unit,
    State.requireKnownRoot_eq_ok, State.requireNotExpired_eq_ok] at h
  obtain ⟨-, hth, hver, hroot, ⟨hne, hassoc⟩, hb, hdom, hdl, h⟩ := h
  exact ⟨⟨hth, hver, hroot, hne, hassoc, hb, hdom, hdl⟩, State.settlePair_inv h⟩

/-- `mpcSettlePriced` passes its checks and does its primitives. -/
theorem State.mpcSettlePriced_inv {b : ℕ} {pks : List ℕ} {sigs : List (List UInt8)}
    {proof : Groth16Proof} {pub : MpcPricedPub ℕ} (x : Address)
    (h : s.mpcSettlePriced E b pks sigs proof pub = .ok s') :
    (Call.mpcSettlePriced b pks sigs proof pub).Checks E x s ∧
      runPrims E ((Call.mpcSettlePriced b pks sigs proof pub).prims E x s) s = .ok s' := by
  simp only [State.mpcSettlePriced, bind_eq_ok, Access.whenNotPaused_eq_ok, require_eq_ok,
    exists_unit, State.requireKnownRoot_eq_ok, State.requireNotExpired_eq_ok] at h
  obtain ⟨-, hth, hver, hroot, ⟨hne, hassoc⟩, hb, hdom, hdl, hcross, h⟩ := h
  exact ⟨⟨hth, hver, hroot, hne, hassoc, hb, hdom, hdl, hcross⟩, State.settlePair_inv h⟩

/-- `open` passes its checks and does its primitives. -/
theorem State.openChannel_inv {proof : Groth16Proof} {pub : StreamOpenPub ℕ} (x : Address)
    (h : s.openChannel E proof pub = .ok s') :
    (Call.open proof pub).Checks E x s ∧
      runPrims E ((Call.open proof pub).prims E x s) s = .ok s' := by
  simp only [State.openChannel, bind_eq_ok, Access.whenNotPaused_eq_ok, require_eq_ok, exists_unit,
    State.requireKnownRoot_eq_ok, pure_eq_ok] at h
  obtain ⟨-, hop, hdom, hassoc, hroot, hver, s₁, hs, h⟩ := h
  obtain ⟨s₃, h1, rfl⟩ := h
  obtain ⟨hauth, hprims⟩ := State.streamInsert_inv h1
  have hcfg := Prim.run_config (E := E) (p := .spend E.escrow pub.inputNullifierHash) hs
  have hch : (s₁.escrow.channels pub.channelId).opened = false := by
    obtain ⟨-, rfl⟩ := State.spend_eq_ok.1 hs
    exact hop
  have hauth' : s.pool.authorizedStreamContract E.escrow = true := by
    have : s₁.pool.authorizedStreamContract E.escrow = true := hauth
    rwa [hcfg.pool] at this
  refine ⟨⟨hop, hdom, hassoc, hroot, hver, hauth'⟩, ?_⟩
  simp only [Call.prims, runPrims_append, runPrims_cons, runPrims_nil, Prim.run, bind_eq_ok,
    require_eq_ok, exists_unit, pure_eq_ok]
  exact ⟨s₃, ⟨_, ⟨s₁, hs, _, ⟨hch, rfl⟩, rfl⟩, hprims⟩, _, rfl, rfl⟩

/-- One settlement passes its checks and does its primitives. -/
theorem State.settleOne_inv {proof : Groth16Proof} {pub : StreamSettlePub ℕ}
    (h : s.settleOne E proof pub = .ok s') :
    SettleChecks E s proof pub ∧ runPrims E (settlePrims pub) s = .ok s' := by
  simp only [State.settleOne, bind_eq_ok, require_eq_ok, exists_unit, pure_eq_ok] at h
  obtain ⟨hop, hcon, ⟨hax, hay, hcap, hasset⟩, hdom, hassoc, hver, s₂, h1, h⟩ := h
  obtain ⟨hle, s₃, h2, rfl⟩ := h
  obtain ⟨hauth, hp1⟩ := State.streamInsert_inv h1
  obtain ⟨-, hp2⟩ := State.streamInsert_inv h2
  refine ⟨⟨hop, hcon, hax, hay, hcap, hasset, hdom, hassoc, hver, hcap ▸ hle, hauth⟩, ?_⟩
  rw [settlePrims, hasset, hcap]
  simp only [runPrims_append, runPrims_cons, runPrims_nil, Prim.run, bind_eq_ok,
    require_eq_ok, exists_unit, pure_eq_ok]
  exact ⟨_, ⟨hop, hcon, rfl⟩, s₃, ⟨s₂, hp1, hp2⟩, _, rfl, rfl⟩

/-- `reclaim` passes its checks and does its primitives. -/
theorem State.reclaim_inv {c : ℕ} (x : Address) (h : s.reclaim E c = .ok s') :
    (Call.reclaim c).Checks E x s ∧ runPrims E ((Call.reclaim c).prims E x s) s = .ok s' := by
  simp only [State.reclaim, bind_eq_ok, Access.whenNotPaused_eq_ok, require_eq_ok, exists_unit,
    pure_eq_ok] at h
  obtain ⟨-, hop, hcon, -, hblk, s₂, h1, rfl⟩ := h
  obtain ⟨hauth, hp⟩ := State.streamInsert_inv h1
  refine ⟨⟨hop, hcon, hblk, hauth⟩, ?_⟩
  simp only [Call.prims, runPrims_append, runPrims_cons, runPrims_nil, Prim.run, bind_eq_ok,
    require_eq_ok, exists_unit, pure_eq_ok]
  exact ⟨_, ⟨hop, hcon, rfl⟩, s₂, hp, _, rfl, rfl⟩

/-- A primitive that opens no channel leaves a channel alone or consumes it. -/
theorem Prim.run_channels {p : Prim} (hp : ∀ c ch, p ≠ .openChannel c ch)
    (h : p.run E s = .ok s') (c : ℕ) :
    s'.escrow.channels c = s.escrow.channels c ∨
      s'.escrow.channels c = { s.escrow.channels c with consumed := true } := by
  cases p with
  | spend x n =>
      obtain ⟨-, rfl⟩ := State.spend_eq_ok.1 h
      exact .inl rfl
  | insert leaf =>
      simp only [Prim.run, bind_eq_ok, Prod.exists, pure_eq_ok] at h
      obtain ⟨_, _, h, rfl⟩ := h
      obtain ⟨t, -, rfl⟩ := State.insert_eq_ok.1 h
      exact .inl rfl
  | adjust a d =>
      obtain ⟨-, rfl⟩ := State.adjustNoteSupply_eq_ok.1 h
      exact .inl rfl
  | deposit n =>
      cases h
      exact .inl rfl
  | openChannel c ch => exact absurd rfl (hp c ch)
  | consume k =>
      simp only [Prim.run, bind_eq_ok, require_eq_ok, exists_unit, pure_eq_ok] at h
      obtain ⟨-, -, rfl⟩ := h
      by_cases hc : c = k
      · subst hc
        exact .inr (Function.update_self _ _ _)
      · exact .inl (Function.update_of_ne hc _ _)
  | emit e =>
      cases h
      exact .inl rfl

/-- An insertion for a channel opens no channel. -/
theorem streamPrims_ne_openChannel {a c : ℕ} {d : ℤ} {p : Prim} (hp : p ∈ streamPrims a c d) :
    ∀ k ch, p ≠ .openChannel k ch := by
  rintro k ch rfl
  simp only [streamPrims, List.mem_append, List.mem_singleton, reduceCtorEq, or_false] at hp
  split at hp <;> simp at hp

/-- A settlement opens no channel. -/
theorem settlePrims_ne_openChannel {pub : StreamSettlePub ℕ} {p : Prim} (hp : p ∈ settlePrims pub) :
    ∀ k ch, p ≠ .openChannel k ch := by
  simp only [settlePrims, List.mem_cons, List.mem_append, List.not_mem_nil, or_false] at hp
  rcases hp with rfl | (hp | hp) | rfl
  · simp
  · exact streamPrims_ne_openChannel hp
  · exact streamPrims_ne_openChannel hp
  · simp

/-- The checks of a settlement after another one held before it. -/
theorem SettleChecks.of_settled {proof : Groth16Proof} {pub pub₀ : StreamSettlePub ℕ}
    (h : SettleChecks E s' proof pub) (hrun : runPrims E (settlePrims pub₀) s = .ok s') :
    SettleChecks E s proof pub := by
  have hcfg := runPrims_config hrun
  have hch : s'.escrow.channels pub.channelId = s.escrow.channels pub.channelId ∨
      (s'.escrow.channels pub.channelId).consumed = true := by
    refine runPrims_induct (I := fun t => t.escrow.channels pub.channelId =
      s.escrow.channels pub.channelId ∨ (t.escrow.channels pub.channelId).consumed = true)
      (fun p hp t t' ht hrun => ?_) hrun (.inl rfl)
    rcases Prim.run_channels (settlePrims_ne_openChannel hp) hrun pub.channelId with h1 | h1
    · rwa [h1]
    · exact .inr (by rw [h1])
  obtain ⟨h1, h2, h3, h4, h5, h6, h7, h8, h9, h10, h11⟩ := h
  rcases hch with hch | hch
  · rw [hch] at h1 h2 h3 h4 h5 h6
    rw [hcfg.pool] at h8 h11
    rw [hcfg.escrow] at h9
    exact ⟨h1, h2, h3, h4, h5, h6, h7, h8, h9, h10, h11⟩
  · rw [hch] at h2
    cases h2

/-- Every settlement of the loop passes its checks in the state before the loop already, for an
earlier one opens no channel and frees none. -/
theorem State.settleLoop_inv {qs : List (Groth16Proof × StreamSettlePub ℕ)}
    (h : State.settleLoop E qs s = .ok s') : (∀ q ∈ qs, SettleChecks E s q.1 q.2) ∧
      runPrims E (qs.flatMap fun q => settlePrims q.2) s = .ok s' := by
  induction qs generalizing s with
  | nil => exact ⟨by simp, h⟩
  | cons q qs ih =>
      simp only [State.settleLoop, bind_eq_ok] at h
      obtain ⟨s₁, h1, h2⟩ := h
      obtain ⟨hc, hr⟩ := State.settleOne_inv h1
      obtain ⟨hcs, hrs⟩ := ih h2
      refine ⟨?_, ?_⟩
      · intro q' hq'
        rcases List.mem_cons.1 hq' with rfl | hq'
        · exact hc
        · exact (hcs q' hq').of_settled hr
      · rw [List.flatMap_cons, runPrims_append]
        exact ⟨s₁, hr, hrs⟩

/-- `settleBatch` passes its checks and does the primitives of all its settlements. -/
theorem State.settleBatch_inv {proofs : List Groth16Proof} {pubs : List (StreamSettlePub ℕ)}
    (x : Address) (h : s.settleBatch E proofs pubs = .ok s') :
    (Call.settleBatch proofs pubs).Checks E x s ∧
      runPrims E ((Call.settleBatch proofs pubs).prims E x s) s = .ok s' := by
  simp only [State.settleBatch, bind_eq_ok, Access.whenNotPaused_eq_ok, require_eq_ok,
    exists_unit] at h
  obtain ⟨-, hlen, h⟩ := h
  obtain ⟨hc, hr⟩ := State.settleLoop_inv h
  refine ⟨⟨hlen, hc⟩, ?_⟩
  have hsnd : (proofs.zip pubs).map Prod.snd = pubs := List.map_snd_zip hlen.ge
  rwa [Call.prims, ← hsnd, List.flatMap_map]

/-! ## Calls -/

/-- **Inversion of calls.** A message call that succeeds has passed its checks, has run its list of
primitives, and waits where its function makes its first external call. -/
theorem enter_inv {e : Entry E} {ko : Option Kont} (h : enter E e s = .ok (s', ko)) :
    e.call.Checks E e.sender s ∧ runPrims E (e.call.prims E e.sender s) s = .ok s' ∧
      ko = e.call.kont s := by
  obtain ⟨x, call, hp, he⟩ := e
  -- a function without an external call returns `none`
  have hpure : ∀ {f : Except Error State}, (do let s' ← f; return (s', none)) = .ok (s', ko) →
      f = .ok s' ∧ ko = none := by
    intro f hf
    simp only [bind_eq_ok, pure_eq_ok, Prod.mk.injEq] at hf
    obtain ⟨_, hok, rfl, rfl⟩ := hf
    exact ⟨hok, rfl⟩
  cases call with
  | receiveDeposit d n t a c enc pol proof pub =>
      obtain ⟨hf, rfl⟩ := hpure h
      obtain ⟨h1, h2⟩ := State.receiveDeposit_inv hf
      exact ⟨h1, h2, rfl⟩
  | withdraw a proof pub => exact State.withdraw_inv x h
  | privateTransferSettle proof pub =>
      obtain ⟨hf, rfl⟩ := hpure h
      obtain ⟨h1, h2⟩ := State.privateTransferSettle_inv hf
      exact ⟨h1, h2, rfl⟩
  | rfqSettle a q i f pk sig proof pub => exact State.rfqSettle_inv x h
  | withdrawCctp a r fee fin proof pub => exact State.withdrawCctp_inv x h
  | mpcSettle b pks sigs proof pub =>
      obtain ⟨hf, rfl⟩ := hpure h
      obtain ⟨h1, h2⟩ := State.mpcSettle_inv x hf
      exact ⟨h1, h2, rfl⟩
  | mpcSettlePriced b pks sigs proof pub =>
      obtain ⟨hf, rfl⟩ := hpure h
      obtain ⟨h1, h2⟩ := State.mpcSettlePriced_inv x hf
      exact ⟨h1, h2, rfl⟩
  | streamInsert a c delta =>
      obtain ⟨hf, rfl⟩ := hpure h
      obtain ⟨h1, h2⟩ := State.streamInsert_inv hf
      exact ⟨h1, h2, rfl⟩
  | «open» proof pub =>
      obtain ⟨hf, rfl⟩ := hpure h
      obtain ⟨h1, h2⟩ := State.openChannel_inv x hf
      exact ⟨h1, h2, rfl⟩
  | settle proof pub =>
      obtain ⟨hf, rfl⟩ := hpure h
      simp only [State.settle, bind_eq_ok, Access.whenNotPaused_eq_ok, exists_unit] at hf
      obtain ⟨h1, h2⟩ := State.settleOne_inv hf.2
      exact ⟨h1, h2, rfl⟩
  | settleBatch proofs pubs =>
      obtain ⟨hf, rfl⟩ := hpure h
      obtain ⟨h1, h2⟩ := State.settleBatch_inv x hf
      exact ⟨h1, h2, rfl⟩
  | reclaim c =>
      obtain ⟨hf, rfl⟩ := hpure h
      obtain ⟨h1, h2⟩ := State.reclaim_inv x hf
      exact ⟨h1, h2, rfl⟩
  | spend n =>
      obtain ⟨hf, rfl⟩ := hpure h
      exact ⟨(State.spend_eq_ok.1 hf).1.2.1, by simpa [Call.prims, Prim.run] using hf, rfl⟩

/-- What a suspended call updates when it goes on. -/
def Kont.prims : Kont → List Prim
  | .transferring .. => []
  | .transferred _ _ _ assetId debit event => [.adjust assetId (-int256 debit), .emit fun _ => event]
  | .approving .. => []
  | .burning _ _ _ burn => [.adjust burn.assetId (-int256 burn.amount), .emit fun s =>
      .cctpExit s.pool.cctpOutboundDomain burn.recipient burn.nullifierHash burn.amount]

/-- What resuming does to the tokens: the transfer, or the approval. -/
def Kont.tokens (E : Env) (s : State) : Kont → State
  | .transferring token recipient amount _ _ _ =>
      { s with balance := s.moveTokens E token recipient amount }
  | .approving token spender pullAmount _ =>
      { s with allowance := s.approve token spender pullAmount }
  | _ => s

/-- Where a suspended call waits next. -/
def Kont.next (s : State) : Kont → Option Kont
  | .transferring token recipient amount assetId debit event =>
      some (.transferred token recipient amount assetId debit event)
  | .approving _ _ _ burn =>
      some (.burning s.pool.usdcToken s.pool.tokenMessenger s.pool.cctpOutboundDomain burn)
  | _ => none

/-- **Inversion of resumptions.** -/
theorem proceed_inv {k : Kont} {ko : Option Kont} (h : s.proceed E k = .ok (s', ko)) :
    runPrims E k.prims (k.tokens E s) = .ok s' ∧ ko = k.next s ∧
      ∀ token recipient amount assetId debit event,
        k = .transferring token recipient amount assetId debit event →
        amount ≤ s.poolBalance E token := by
  cases k with
  | transferring token recipient amount assetId debit event =>
      simp only [State.proceed, bind_eq_ok, require_eq_ok, exists_unit, pure_eq_ok,
        Prod.mk.injEq] at h
      obtain ⟨hle, rfl, rfl⟩ := h
      refine ⟨rfl, rfl, ?_⟩
      rintro _ _ _ _ _ _ h
      cases h
      exact hle
  | transferred token recipient amount assetId debit event =>
      simp only [State.proceed, bind_eq_ok, pure_eq_ok, Prod.mk.injEq] at h
      obtain ⟨s₁, h1, rfl, rfl⟩ := h
      exact ⟨by simp [Kont.prims, Kont.tokens, Prim.run, h1], rfl, by simp⟩
  | approving token spender pullAmount burn =>
      cases h
      exact ⟨rfl, rfl, by simp⟩
  | burning token messenger d burn =>
      simp only [State.proceed, bind_eq_ok, pure_eq_ok, Prod.mk.injEq] at h
      obtain ⟨s₁, h1, rfl, rfl⟩ := h
      exact ⟨by simp [Kont.prims, Kont.tokens, Prim.run, h1], rfl, by simp⟩

end

end ShadePay.Evm
