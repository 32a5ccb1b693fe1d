import ShadePay.Stellar.Verifier
import ShadePay.Circuit.Honest

/-!
# A configured pool

Honest use of the Soroban pool: `setup` configures a freshly deployed pool and lets tokens arrive,
`ready` is the state it leads to, and the `_intro` lemmas say when an entry point succeeds, as the
converse of the inversion lemmas. They are what the concrete runs of this development are made of.
-/

namespace ShadePay.Stellar

open Guard

/-- A number as a word. -/
def word (n : ℕ) : Bytes32 := .ofNat 32 n

theorem toNat_word {n : ℕ} (h : n < 256 ^ 32) : (word n).toNat = n := BytesN.toNat_ofNat h

/-- A number below `2 ^ 127` is read back as an `i128`. -/
theorem fr32ToI128_word {n : ℕ} (h : n < 2 ^ 127) : fr32ToI128 (word n) = n := by
  rw [fr32ToI128_eq, toNat_word (lt_trans h (by norm_num)), Nat.mod_eq_of_lt (by omega), asI128,
    if_pos h]

theorem frFromBytes_word {n : ℕ} (h : n < 256 ^ 32) : frFromBytes (word n) = (n : ℕ) := by
  rw [frFromBytes, toNat_word h]

/-- An encoding has a length field. -/
theorem encodeSignals_ne_nil (ws : List Bytes32) : encodeSignals ws ≠ [] := by
  intro h
  have := congrArg List.length h
  simp [encodeSignals] at this

/-! ## Configuration -/

/-- Sample accounts. -/
def acct (n : ℕ) : Address := .ofNat 56 n

/-- The association root of a tree whose labels are all zero. -/
def zeroLabels (E : Env) : Bytes32 :=
  frToBytes (Merkle.node (hash2 E.poseidon) (fun _ => 0) 2 0)

/-- The deployment: account 0 is the admin and all verifiers, account 1 the USDC token. -/
def fresh : State := construct (acct 0) (acct 1) (acct 0) 12 0 0 (fun _ _ => 0) 0

/-- Configure the pool, and let 100 units of USDC arrive. -/
def setup (E : Env) : List Step :=
  [.invoke (fun _ => true) (.admin (.setDepositVerifier (acct 0))),
    .invoke (fun _ => true) (.registerAsset (E.recipientHash (acct 1)) (acct 1)),
    .invoke (fun _ => true) (.admin (.registryInitialize (acct 0))),
    .invoke (fun _ => true) (.admin (.registrySetAuthorizedSpender E.pool true)),
    .invoke (fun _ => true) (.admin (.setAuthorizedSolver (word 0) true)),
    .invoke (fun _ => true) (.admin (.setAssociationRoot (zeroLabels E))),
    .arrive (acct 1) E.pool 100]

/-- The configured pool. -/
def ready (E : Env) : State :=
  { fresh with
    depverifier := some (acct 0)
    assetToken := Function.update (fun _ => none) (E.recipientHash (acct 1)) (some (acct 1))
    noteSupply := Function.update (fun _ => 0) (E.recipientHash (acct 1)) 0
    registry := ⟨some (acct 0), false, fun _ => false, Function.update (fun _ => false) E.pool true⟩
    solver := Function.update (fun _ => false) (word 0) true
    assocRoot := some (zeroLabels E)
    balance := Function.update (fun _ _ => 0) (acct 1) (Function.update (fun _ => 0) E.pool 100)
    events := [.regasset (E.recipientHash (acct 1)) (acct 1)] }

theorem run_setup (E : Env) : (run E (setup E) fresh).1 = ready E := by
  rfl

/-- The calls of the setup. -/
theorem run_setup_calls (E : Env) : (run E (setup E) fresh).2.map Invocation.call =
    [.admin (.setDepositVerifier (acct 0)), .registerAsset (E.recipientHash (acct 1)) (acct 1),
      .admin (.registryInitialize (acct 0)), .admin (.registrySetAuthorizedSpender E.pool true),
      .admin (.setAuthorizedSolver (word 0) true), .admin (.setAssociationRoot (zeroLabels E))] := by
  rfl

section
variable {E : Env} {s : State}

/-- When `receive_cctp_deposit` succeeds on an encoded signal record. -/
theorem State.receiveCctpDeposit_intro {auth : Address → Bool} {sourceDomain : ℕ}
    {cctpNonce enc policyId : Bytes32} {asset token v : Address} {amount : ℤ} {proof : List UInt8}
    {x : DepositPub Bytes32}
    (hpaused : s.paused = false) (hauth : auth s.admin = true) (hpos : 0 < amount)
    (hnonce : s.deposit cctpNonce = false)
    (h1 : fr32ToI128 x.operationType = 4) (h2 : fr32ToI128 x.sourceDomain = sourceDomain)
    (h3 : fr32ToI128 x.destinationDomain = 27) (h5 : fr32ToI128 x.burnTxHashHash ≠ 0)
    (h6 : 0 < fr32ToI128 x.amount6dp) (h6' : fr32ToI128 x.amount6dp * 10 < 2 ^ 127)
    (h67 : amount ≤ fr32ToI128 x.amount6dp * 10) (h7 : fr32ToI128 x.amount7dp = amount)
    (h4 : hashToField cctpNonce = x.cctpNonceHash) (h10 : hashToField enc = x.encryptedNotePayloadHash)
    (h11 : hashToField policyId = x.policyIdHash) (h8 : E.recipientHash asset = x.assetIdHash)
    (h9 : E.recipientHash E.pool = x.recipientPool)
    (h12 : fr32ToI128 x.poolId = s.poolId) (h13 : fr32ToI128 x.chainId = s.chainId)
    (hv : s.depverifier = some v)
    (hver : E.verify .deposit v proof (encodeSignals x.toList) = .ok true)
    (hroom : s.tree.leaves.length < capacity s.tree.depth)
    (htoken : s.assetToken x.assetIdHash = some token)
    (hsup : 0 ≤ s.noteSupply x.assetIdHash + amount)
    (hsup' : s.noteSupply x.assetIdHash + amount < 2 ^ 127)
    (hbal : s.noteSupply x.assetIdHash + amount ≤ s.poolBalance E token) :
    s.receiveCctpDeposit E auth sourceDomain cctpNonce asset amount x.commitment
        (s.pushed E x.commitment).root enc policyId proof (encodeSignals x.toList) =
      .ok (s.leafCount, { s with
        tree := s.pushed E x.commitment
        leafCount := s.leafCount + 1
        deposit := Function.update s.deposit cctpNonce true
        noteSupply := Function.update s.noteSupply x.assetIdHash
          (s.noteSupply x.assetIdHash + amount)
        events := s.events ++ [.deposit sourceDomain cctpNonce asset amount x.commitment enc policyId
          s.leafCount (s.pushed E x.commitment).root] }) := by
  have hparse : parsePublicSignals (encodeSignals x.toList) = .ok x.toList :=
    parsePublicSignals_encodeSignals (by simp)
  simp only [State.receiveCctpDeposit, State.requireNotPaused, State.requireAuth, bind_eq_ok,
    require_eq_ok, exists_unit, getSignal_eq_ok, checkI128_eq_ok, State.unwrap_eq_ok,
    State.requireVerified_eq_ok, Prod.exists, State.appendLeaf_eq_ok, State.adjustNoteSupply_eq_ok,
    pure_eq_ok, Prod.mk.injEq]
  refine ⟨hpaused, hauth, hpos, hnonce, _, hparse, _, rfl, rfl, _, rfl, h1, _, rfl, h2, ?_⟩
  refine ⟨_, rfl, h7, _, rfl, h3, _, rfl, h5, _, rfl, h6, _, ⟨⟨by omega, h6'⟩, rfl⟩, h67, ?_⟩
  refine ⟨_, rfl, h4, _, rfl, h10, _, rfl, h11, _, rfl, h8, _, rfl, h9, ?_⟩
  refine ⟨_, rfl, _, rfl, ⟨h12, h13⟩, v, hv, hver, _, _, ⟨hroom, rfl, rfl⟩, rfl, ?_⟩
  exact ⟨_, ⟨token, htoken, hsup', hsup, hbal, rfl⟩, trivial, rfl⟩

end

/-! ## A deposit of 100 -/

/-- A USDC note with label zero. -/
def usdcNote (E : Env) (value nullifier : Bls12381) : Note Bls12381 :=
  ⟨frFromBytes (E.recipientHash (acct 1)), value, 0, nullifier, 0⟩

/-- The signals of a deposit of 100 units into a note, with the 7dp amount given as a word. -/
def depositWords (E : Env) (amount7 : ℕ) (n : Note Bls12381) : DepositPub Bytes32 where
  commitment := frToBytes (n.commitment E.poseidon)
  operationType := word 4
  sourceDomain := word 0
  destinationDomain := word 27
  cctpNonceHash := hashToField (word 0)
  burnTxHashHash := word 1
  amount6dp := word 10
  amount7dp := word amount7
  assetIdHash := E.recipientHash (acct 1)
  recipientPool := E.recipientHash E.pool
  encryptedNotePayloadHash := hashToField (word 0)
  policyIdHash := hashToField (word 0)
  poolId := word 0
  chainId := word 0

/-- The configured pool after a deposit of 100 units under the commitment `c`. -/
def deposited (E : Env) (c : Bytes32) : State :=
  { ready E with
    tree := (ready E).pushed E c
    leafCount := 1
    deposit := Function.update (fun _ => false) (word 0) true
    noteSupply := Function.update (ready E).noteSupply (E.recipientHash (acct 1)) 100
    events := (ready E).events ++ [.deposit 0 (word 0) (acct 1) 100 c (word 0) (word 0) 0
      ((ready E).pushed E c).root] }

/-- The deposit proof's statement, for a value within `2 ^ 128` below the 7dp amount. -/
theorem depositNoteMint_depositWords (E : Env) {amount7 value : ℕ} {nullifier : Bls12381}
    (h7 : amount7 < 256 ^ 32) (hv : value < 2 ^ 128) (hle : value ≤ amount7)
    (hsur : amount7 < value + 2 ^ 128) :
    DepositNoteMint E.poseidon
      ((depositWords E amount7 (usdcNote E value nullifier)).map frFromBytes)
      ⟨value, ⟨0, nullifier, 0⟩⟩ where
  commitment := frFromBytes_frToBytes _
  surplus := by
    have : frFromBytes (word amount7) - (value : Bls12381) = ((amount7 - value : ℕ) : Bls12381) := by
      rw [frFromBytes_word h7, Nat.cast_sub hle]
    simp only [depositWords, DepositPub.map, this]
    exact inRange_natCast (by norm_num) (by omega)
  value := inRange_natCast (by norm_num) hv

/-- With exact verifiers the deposit goes through, whatever the high half of its 7dp word. -/
theorem deposit_ready {E : Env} (hE : E.Exact) {amount7 value : ℕ} {nullifier : Bls12381}
    (h7 : amount7 < 256 ^ 32) (hv : value < 2 ^ 128) (hle : value ≤ amount7)
    (hsur : amount7 < value + 2 ^ 128) (hlow : fr32ToI128 (word amount7) = 100) :
    ∃ proof, (ready E).receiveCctpDeposit E (fun _ => true) 0 (word 0) (acct 1) 100
        (depositWords E amount7 (usdcNote E value nullifier)).commitment
        ((ready E).pushed E (depositWords E amount7 (usdcNote E value nullifier)).commitment).root
        (word 0) (word 0) proof
        (encodeSignals (depositWords E amount7 (usdcNote E value nullifier)).toList) =
      .ok (0, deposited E (depositWords E amount7 (usdcNote E value nullifier)).commitment) := by
  have hsat := @depositNoteMint_depositWords E amount7 value nullifier h7 hv hle hsur
  obtain ⟨proof, hne, hproof⟩ := hE.complete .deposit (acct 0)
    ((depositWords E amount7 (usdcNote E value nullifier)).toList.map frFromBytes)
    ⟨_, _, (DepositPub.toList_map _ _).symm, hsat⟩
  have hword : ∀ n < 2 ^ 127, fr32ToI128 (word n) = n := fun n hn => fr32ToI128_word hn
  have hver := Env.verify_of_groth16 hne (encodeSignals_ne_nil _)
    (parsePublicSignals_encodeSignals (by simp)) hproof
  refine ⟨proof, ?_⟩
  have := @State.receiveCctpDeposit_intro E (ready E) (fun _ => true) 0 (word 0) (word 0) (word 0)
    (acct 1) (acct 1) (acct 0) 100 proof (depositWords E amount7 (usdcNote E value nullifier))
    rfl rfl (by norm_num) rfl (hword 4 (by norm_num)) (hword 0 (by norm_num))
    (hword 27 (by norm_num))
    (by simp [depositWords, hword])
    (by simp [depositWords, hword])
    (by simp [depositWords, hword])
    (by simp [depositWords, hword])
    hlow rfl rfl rfl rfl rfl (hword 0 (by norm_num)) (hword 0 (by norm_num)) rfl hver
    (by simp [ready, fresh, construct, capacity]) (by simp [ready, depositWords])
    (by simp [ready, depositWords]) (by simp [ready, depositWords])
    (by simp [ready, depositWords, State.poolBalance])
  rw [this]
  simp [deposited, ready, fresh, construct, depositWords]

/-! ## A spend of the deposited note -/

/-- The commitment word of a note. -/
def leafOf (E : Env) (n : Note Bls12381) : Bytes32 := frToBytes (n.commitment E.poseidon)

/-- The signals of a spend of `amount` units of USDC under the state root `root` and the nullifier word
`nullifierHash`, with no fee and the hashes of a quote all zero. -/
def spendWordsAt (E : Env) (root : Bytes32) (operation amount : ℕ)
    (recipientHash nullifierHash : Bytes32) : WithdrawPub Bytes32 where
  nullifierHash := nullifierHash
  operationType := word operation
  withdrawnValue := word amount
  recipientHash := recipientHash
  relayerFee := word 0
  deadline := word 0
  stateRoot := root
  associationRoot := zeroLabels E
  poolId := word 0
  chainId := word 0
  quoteHash := hashToField (word 0)
  intentHash := hashToField (word 0)
  fillReceiptHash := hashToField (word 0)
  destinationDomain := word 0
  destinationRecipient := word 0
  maxFee := word 0
  minFinalityThreshold := word 0
  assetId := E.recipientHash (acct 1)

/-- The signals of a spend out of the one note that was deposited. -/
def spendWords (E : Env) (n : Note Bls12381) (operation amount : ℕ)
    (recipientHash nullifierHash : Bytes32) : WithdrawPub Bytes32 :=
  spendWordsAt E ((ready E).pushed E (leafOf E n)).root operation amount recipientHash nullifierHash

/-- The witness of a spend of the note at leaf `i`, its label at leaf 0 of the association tree. -/
def spendWitnessAt (E : Env) (leaves : List Bytes32) (i : ℕ) (n : Note Bls12381) :
    WithdrawWit Bls12381 where
  value := n.value
  input := .honest E.poseidon (LeanIMT.leafFn leaves) (fun _ => 0) i 0 n

/-- The witness of a spend of the one note that was deposited. -/
def spendWitness (E : Env) (n : Note Bls12381) : WithdrawWit Bls12381 := spendWitnessAt E [leafOf E n] 0 n

/-- **The statement of a spend** out of any tree that holds the note. -/
theorem withdraw_spendWordsAt (E : Env) {leaves : List Bytes32} {i : ℕ} {root : Bytes32}
    {operation value amount : ℕ} {nullifier : Bls12381} {recipientHash nullifierHash : Bytes32}
    (hi : i < 2 ^ 12)
    (hleaf : LeanIMT.leafFn leaves i = (usdcNote E value nullifier).commitment E.poseidon)
    (hroot : frFromBytes root = Merkle.node (hash2 E.poseidon) (LeanIMT.leafFn leaves) 12 0)
    (hv : value < 2 ^ 128) (hle : amount ≤ value)
    (hn : frFromBytes nullifierHash = (usdcNote E value nullifier).nullifierHash E.poseidon
      (frFromBytes (word 0)) (frFromBytes (word 0))) :
    Withdraw E.poseidon 12 2
      ((spendWordsAt E root operation amount recipientHash nullifierHash).map frFromBytes)
      (spendWitnessAt E leaves i (usdcNote E value nullifier)) := by
  have hamount : frFromBytes (word amount) = ((amount : ℕ) : Bls12381) :=
    frFromBytes_word (by omega)
  have hfee : frFromBytes (word 0) = ((0 : ℕ) : Bls12381) := frFromBytes_word (by norm_num)
  refine ⟨?_, ?_, ?_, ?_, ?_⟩
  · have hspend := @spendsNote_honest bls12381 _ E.poseidon (LeanIMT.leafFn leaves) (fun _ => 0) 12 2
      i 0 (usdcNote E value nullifier) (frFromBytes (word 0)) (frFromBytes (word 0)) hi
      (by norm_num) hleaf rfl
    have hassoc : frFromBytes (zeroLabels E) = Merkle.node (hash2 E.poseidon) (fun _ => 0) 2 0 :=
      frFromBytes_frToBytes _
    simp only [spendWordsAt, WithdrawPub.map, hroot, hassoc, hn]
    exact hspend
  · simp only [spendWordsAt, WithdrawPub.map, spendWitnessAt, usdcNote, hamount]
    rw [← Nat.cast_sub hle]
    exact inRange_natCast (by norm_num) (by omega)
  · simp only [spendWordsAt, WithdrawPub.map, hamount]
    exact inRange_natCast (by norm_num) (by omega)
  · simp only [spendWordsAt, WithdrawPub.map, hamount, hfee, Nat.cast_zero, sub_zero]
    exact inRange_natCast (by norm_num) (by omega)
  · simp only [spendWordsAt, WithdrawPub.map, hfee]
    exact inRange_natCast (by norm_num) (by norm_num)

/-- The statement of a spend of the one note, for every word of the note's nullifier hash. -/
theorem withdraw_spendWords (E : Env) {operation value amount : ℕ} {nullifier : Bls12381}
    {recipientHash nullifierHash : Bytes32} (hv : value < 2 ^ 128) (hle : amount ≤ value)
    (hn : frFromBytes nullifierHash = (usdcNote E value nullifier).nullifierHash E.poseidon
      (frFromBytes (word 0)) (frFromBytes (word 0))) :
    Withdraw E.poseidon 12 2 ((spendWords E (usdcNote E value nullifier) operation amount
      recipientHash nullifierHash).map frFromBytes) (spendWitness E (usdcNote E value nullifier)) :=
  withdraw_spendWordsAt E (by norm_num)
    (by simp [LeanIMT.leafFn, LeanIMT.scalars, Merkle.pad, leafOf]) (frFromBytes_frToBytes _) hv hle hn

/-- With exact verifiers one proof serves every word of the nullifier hash. -/
theorem verify_spendWordsAt {E : Env} (hE : E.Exact) {leaves : List Bytes32} {i : ℕ} {root : Bytes32}
    (operation : ℕ) {value amount : ℕ} (nullifier : Bls12381) (recipientHash : Bytes32)
    (hi : i < 2 ^ 12)
    (hleaf : LeanIMT.leafFn leaves i = (usdcNote E value nullifier).commitment E.poseidon)
    (hroot : frFromBytes root = Merkle.node (hash2 E.poseidon) (LeanIMT.leafFn leaves) 12 0)
    (hv : value < 2 ^ 128) (hle : amount ≤ value) :
    ∃ proof, ∀ nullifierHash, frFromBytes nullifierHash =
        (usdcNote E value nullifier).nullifierHash E.poseidon (frFromBytes (word 0))
          (frFromBytes (word 0)) →
      E.verify .withdraw (acct 0) proof (encodeSignals
        (spendWordsAt E root operation amount recipientHash nullifierHash).toList) = .ok true := by
  set nh := frToBytes ((usdcNote E value nullifier).nullifierHash E.poseidon (frFromBytes (word 0))
    (frFromBytes (word 0))) with hnh
  obtain ⟨proof, hne, hproof⟩ := hE.complete .withdraw (acct 0) _
    ⟨_, _, rfl, @withdraw_spendWordsAt E leaves i root operation value amount nullifier recipientHash
      nh hi hleaf hroot hv hle (frFromBytes_frToBytes _)⟩
  refine ⟨proof, fun w hw => Env.verify_of_groth16 hne (encodeSignals_ne_nil _)
    (parsePublicSignals_encodeSignals (by simp)) ?_⟩
  rw [← WithdrawPub.toList_map]
  -- the circuit reads the two words as one scalar
  have hsame : (spendWordsAt E root operation amount recipientHash w).map frFromBytes =
      (spendWordsAt E root operation amount recipientHash nh).map frFromBytes := by
    simp only [spendWordsAt, WithdrawPub.map, hw, hnh, frFromBytes_frToBytes]
  rw [hsame]
  exact hproof

section
variable {E : Env} {s : State} {proof : List UInt8} {x : WithdrawPub Bytes32}

/-- What the entry points on the withdraw circuit ask of the state, on an encoded signal record. -/
structure Spendable (E : Env) (s : State) (proof : List UInt8) (x : WithdrawPub Bytes32) : Prop where
  paused : s.paused = false
  value : 0 < fr32ToI128 x.withdrawnValue
  fee : 0 ≤ fr32ToI128 x.relayerFee
  fee_le : fr32ToI128 x.relayerFee ≤ fr32ToI128 x.withdrawnValue
  deadline : (s.ledger : ℤ) ≤ fr32ToI128 x.deadline
  association : x.associationRoot = s.assocRoot.getD zeroWord
  pool : fr32ToI128 x.poolId = s.poolId
  chain : fr32ToI128 x.chainId = s.chainId
  root : s.tree.knownRoot x.stateRoot = true
  verified : E.verify .withdraw s.verifier proof (encodeSignals x.toList) = .ok true
  registry : s.registry.paused = false
  authorized : s.registry.authorized E.pool = true
  fresh : s.registry.spent x.nullifierHash = false

/-- The words of a withdrawal are read back. -/
theorem parse_withdrawWords (x : WithdrawPub Bytes32) :
    parsePublicSignals (encodeSignals x.toList) = .ok x.toList :=
  parsePublicSignals_encodeSignals (by simp)

/-- When `withdraw` succeeds on an encoded signal record. -/
theorem State.withdraw_intro {auth : Address → Bool} {a token : Address}
    (h : Spendable E s proof x) (hauth : auth a = true) (hop : fr32ToI128 x.operationType = 1)
    (hr : x.recipientHash = E.recipientHash a) (htoken : s.assetToken x.assetId = some token)
    (hbal : fr32ToI128 x.withdrawnValue - fr32ToI128 x.relayerFee ≤ s.poolBalance E token)
    (hsup : 0 ≤ s.noteSupply x.assetId - fr32ToI128 x.withdrawnValue)
    (hsup' : s.noteSupply x.assetId - fr32ToI128 x.withdrawnValue < 2 ^ 127)
    (hres : s.noteSupply x.assetId - fr32ToI128 x.withdrawnValue ≤
      s.moveTokens E token a (fr32ToI128 x.withdrawnValue - fr32ToI128 x.relayerFee) token E.pool) :
    s.withdraw E auth a proof (encodeSignals x.toList) = .ok { s with
      registry := s.registry.mark x.nullifierHash
      balance := s.moveTokens E token a (fr32ToI128 x.withdrawnValue - fr32ToI128 x.relayerFee)
      payments := s.payments ++
        [.transfer token a (fr32ToI128 x.withdrawnValue - fr32ToI128 x.relayerFee)]
      noteSupply := Function.update s.noteSupply x.assetId
        (s.noteSupply x.assetId - fr32ToI128 x.withdrawnValue)
      events := s.events ++ [.withdraw a x.nullifierHash
        (fr32ToI128 x.withdrawnValue - fr32ToI128 x.relayerFee) (fr32ToI128 x.relayerFee)] } := by
  simp only [State.withdraw, State.requireNotPaused, State.requireAuth, State.requireNotExpired,
    State.requireKnownRoot, State.checkDomainCompliance, bind_eq_ok, require_eq_ok, exists_unit,
    getSignal_eq_ok, State.requireVerified_eq_ok, State.spend_eq_ok, State.getAssetToken_eq_ok,
    State.pay_eq_ok, State.adjustNoteSupply_eq_ok, pure_eq_ok, ← sub_eq_add_neg]
  refine ⟨h.paused, hauth, _, parse_withdrawWords x, _, rfl, _, rfl, _, rfl, _, rfl, _, rfl, _, rfl, ?_⟩
  refine ⟨_, rfl, _, rfl, hop, ⟨h.value, h.fee, h.fee_le⟩, h.deadline, hr, ?_⟩
  refine ⟨⟨_, rfl, _, rfl, _, rfl, ⟨h.pool, h.chain⟩, h.association⟩, h.root, h.verified, ?_⟩
  have hnet : 0 ≤ fr32ToI128 x.withdrawnValue - fr32ToI128 x.relayerFee := sub_nonneg.2 h.fee_le
  exact ⟨_, ⟨⟨h.registry, h.authorized, h.fresh⟩, rfl⟩, token, htoken, _, ⟨⟨hbal, hnet⟩, rfl⟩, _,
    ⟨token, htoken, hsup', hsup, hres, rfl⟩, rfl⟩

/-- When `rfq_settle` succeeds on an encoded signal record. -/
theorem State.rfqSettle_intro {a : Address} {q i f pk : Bytes32} {sig : BytesN 64}
    (h : Spendable E s proof x) (hsolver : s.solver pk = true)
    (hsig : E.ed25519 pk q.bytes sig = true) (hop : fr32ToI128 x.operationType = 3)
    (hq : hashToField q = x.quoteHash) (hi : hashToField i = x.intentHash)
    (hf : hashToField f = x.fillReceiptHash)
    (hbal : fr32ToI128 x.withdrawnValue ≤ s.poolBalance E s.usdc) :
    s.rfqSettle E a proof (encodeSignals x.toList) q i f pk sig = .ok { s with
      registry := s.registry.mark x.nullifierHash
      balance := s.moveTokens E s.usdc a (fr32ToI128 x.withdrawnValue)
      payments := s.payments ++ [.transfer s.usdc a (fr32ToI128 x.withdrawnValue)]
      events := s.events ++ [.rfq q a x.nullifierHash (fr32ToI128 x.withdrawnValue)] } := by
  simp only [State.rfqSettle, State.requireNotPaused, State.requireNotExpired,
    State.requireKnownRoot, State.checkDomainCompliance, bind_eq_ok, require_eq_ok, exists_unit,
    getSignal_eq_ok, State.requireVerified_eq_ok, State.spend_eq_ok, State.pay_eq_ok, pure_eq_ok]
  refine ⟨h.paused, hsolver, hsig, _, parse_withdrawWords x, _, rfl, _, rfl, _, rfl, _, rfl, _, rfl, ?_⟩
  refine ⟨_, rfl, ⟨h.value, h.fee, h.fee_le⟩, hop, h.deadline, _, rfl, hq, _, rfl, hi, _, rfl, hf, ?_⟩
  refine ⟨⟨_, rfl, _, rfl, _, rfl, ⟨h.pool, h.chain⟩, h.association⟩, h.root, h.verified, ?_⟩
  exact ⟨_, ⟨⟨h.registry, h.authorized, h.fresh⟩, rfl⟩, _, ⟨⟨hbal, h.value.le⟩, rfl⟩, rfl⟩

end

/-- The deposited note can be spent, under every word of its nullifier hash. -/
theorem spendable_deposited {E : Env} (hE : E.Exact) (operation : ℕ) {value amount : ℕ}
    (nullifier : Bls12381) (recipientHash : Bytes32) (hv : value < 2 ^ 127) (hpos : 0 < amount)
    (hle : amount ≤ value) :
    ∃ proof, ∀ nullifierHash, frFromBytes nullifierHash =
        (usdcNote E value nullifier).nullifierHash E.poseidon (frFromBytes (word 0))
          (frFromBytes (word 0)) →
      Spendable E (deposited E (leafOf E (usdcNote E value nullifier))) proof
        (spendWords E (usdcNote E value nullifier) operation amount recipientHash nullifierHash) := by
  obtain ⟨proof, hproof⟩ := @verify_spendWordsAt E hE [leafOf E (usdcNote E value nullifier)] 0 _
    operation value amount nullifier recipientHash (by norm_num)
    (by simp [LeanIMT.leafFn, LeanIMT.scalars, Merkle.pad, leafOf]) (frFromBytes_frToBytes _)
    (by omega) hle
  have h0 : fr32ToI128 (word 0) = 0 := fr32ToI128_word (by norm_num)
  have hamount : fr32ToI128 (word amount) = amount := fr32ToI128_word (by omega)
  refine ⟨proof, fun w hw => ?_⟩
  refine ⟨rfl, ?_, ?_, ?_, ?_, rfl, ?_, ?_, ?_, hproof w hw, rfl, ?_, rfl⟩
  · simpa [spendWords, spendWordsAt, hamount] using hpos
  · simp [spendWords, spendWordsAt, h0]
  · simp [spendWords, spendWordsAt, h0, hamount]
  · simp [spendWords, spendWordsAt, h0, deposited, ready, fresh, construct]
  · simp [spendWords, spendWordsAt, h0, deposited, ready, fresh, construct]
  · simp [spendWords, spendWordsAt, h0, deposited, ready, fresh, construct]
  · simp [spendWords, spendWordsAt, deposited, State.pushed, TreeStore.push]
  · simp [deposited, ready]

/-! ## Runs -/

/-- A successful invocation at the head of a run. -/
theorem run_invoke {E : Env} {s s' : State} {auth : Address → Bool} {call : Call}
    (h : call.invoke E auth s = .ok s') (ts : List Step) :
    run E (.invoke auth call :: ts) s = ((run E ts s').1, ⟨call, s, s'⟩ :: (run E ts s').2) := by
  simp [run, Step.run, h]

/-- Two runs one after the other. -/
theorem run_append (E : Env) (ts us : List Step) (s : State) :
    run E (ts ++ us) s =
      ((run E us (run E ts s).1).1, (run E ts s).2 ++ (run E us (run E ts s).1).2) := by
  induction ts generalizing s with
  | nil => simp [run]
  | cons t ts ih => simp [run, ih]

/-- The call that deposits 100 units into the note `n`. -/
def depositCall (E : Env) (n : Note Bls12381) (proof : List UInt8) : Call :=
  .receiveCctpDeposit 0 (word 0) (acct 1) 100 (leafOf E n) ((ready E).pushed E (leafOf E n)).root
    (word 0) (word 0) proof (encodeSignals (depositWords E 100 n).toList)

/-- A configured pool with one deposit of 100 units into a note of 100. -/
theorem run_depositCall {E : Env} (hE : E.Exact) (nullifier : Bls12381) :
    ∃ proof, (depositCall E (usdcNote E (100 : ℕ) nullifier) proof).invoke E (fun _ => true)
        (ready E) = .ok (deposited E (leafOf E (usdcNote E (100 : ℕ) nullifier))) := by
  obtain ⟨proof, hok⟩ := @deposit_ready E hE 100 100 nullifier (by norm_num) (by norm_num) le_rfl
    (by norm_num) (fr32ToI128_word (by norm_num))
  refine ⟨proof, ?_⟩
  simp only [depositCall, Call.invoke]
  exact congrArg (· >>= fun r => pure r.2) hok

/-! ## Two deposits -/

theorem word_injOn {m n : ℕ} (hm : m < 256 ^ 32) (hn : n < 256 ^ 32) (h : word m = word n) : m = n := by
  rw [← toNat_word hm, h, toNat_word hn]

/-- The pool with a deposit in it, when another 100 units of USDC have arrived. -/
def refilled (E : Env) (c : Bytes32) : State :=
  (Step.run E (deposited E c) (.arrive (acct 1) E.pool 100)).1

/-- The signals of a second deposit of 100 units, under the CCTP nonce 1. -/
def secondWords (E : Env) (n : Note Bls12381) : DepositPub Bytes32 :=
  { depositWords E 100 n with cctpNonceHash := hashToField (word 1) }

/-- The call that deposits another 100 units into the note `n`, after one under the commitment `c`. -/
def secondCall (E : Env) (c : Bytes32) (n : Note Bls12381) (proof : List UInt8) : Call :=
  .receiveCctpDeposit 0 (word 1) (acct 1) 100 (leafOf E n) ((refilled E c).pushed E (leafOf E n)).root
    (word 0) (word 0) proof (encodeSignals (secondWords E n).toList)

/-- The pool after a second deposit of 100 units, under the commitment `c'`. -/
def redeposited (E : Env) (c c' : Bytes32) : State :=
  { refilled E c with
    tree := (refilled E c).pushed E c'
    leafCount := (refilled E c).leafCount + 1
    deposit := Function.update (refilled E c).deposit (word 1) true
    noteSupply := Function.update (refilled E c).noteSupply (E.recipientHash (acct 1))
      ((refilled E c).noteSupply (E.recipientHash (acct 1)) + 100)
    events := (refilled E c).events ++ [.deposit 0 (word 1) (acct 1) 100 c' (word 0) (word 0) 1
      ((refilled E c).pushed E c').root] }

/-- With exact verifiers the second deposit goes through. -/
theorem invoke_secondCall {E : Env} (hE : E.Exact) (c : Bytes32) (nullifier : Bls12381) :
    ∃ proof, (secondCall E c (usdcNote E (100 : ℕ) nullifier) proof).invoke E (fun _ => true)
      (refilled E c) = .ok (redeposited E c (leafOf E (usdcNote E (100 : ℕ) nullifier))) := by
  set n := usdcNote E (100 : ℕ) nullifier
  have h100 : fr32ToI128 (word 100) = 100 := fr32ToI128_word (by norm_num)
  have hword : ∀ n < 2 ^ 127, fr32ToI128 (word n) = n := fun n hn => fr32ToI128_word hn
  have hsat : DepositNoteMint E.poseidon ((secondWords E n).map frFromBytes)
      ⟨(100 : ℕ), ⟨0, nullifier, 0⟩⟩ :=
    have h := @depositNoteMint_depositWords E 100 100 nullifier (by norm_num) (by norm_num) le_rfl
      (by norm_num)
    ⟨h.commitment, h.surplus, h.value⟩
  obtain ⟨proof, hne, hproof⟩ := hE.complete .deposit (acct 0)
    ((secondWords E n).toList.map frFromBytes)
    ⟨_, _, (DepositPub.toList_map _ _).symm, hsat⟩
  have hver := Env.verify_of_groth16 hne (encodeSignals_ne_nil _)
    (parsePublicSignals_encodeSignals (by simp)) hproof
  have hnonce : (refilled E c).deposit (word 1) = false := by
    have hne : word 1 ≠ word 0 := fun h => by
      have := @word_injOn 1 0 (by norm_num) (by norm_num) h
      omega
    simp [refilled, Step.run, deposited, hne]
  have hbal : (refilled E c).poolBalance E (acct 1) = 200 := by
    simp [refilled, Step.run, deposited, ready, State.poolBalance]
  have hsup : (refilled E c).noteSupply (E.recipientHash (acct 1)) = 100 := by
    simp [refilled, Step.run, deposited]
  have hok := @State.receiveCctpDeposit_intro E (refilled E c) (fun _ => true) 0 (word 1) (word 0)
    (word 0) (acct 1) (acct 1) (acct 0) 100 proof (secondWords E n)
    rfl rfl (by norm_num) hnonce (hword 4 (by norm_num)) (hword 0 (by norm_num))
    (hword 27 (by norm_num))
    (by simp [secondWords, depositWords, hword])
    (by simp [secondWords, depositWords, hword])
    (by simp [secondWords, depositWords, hword])
    (by simp [secondWords, depositWords, hword])
    h100 rfl rfl rfl rfl rfl (hword 0 (by norm_num)) (hword 0 (by norm_num)) rfl hver
    (by simp [refilled, Step.run, deposited, State.pushed, ready, fresh, construct, capacity])
    (by simp [refilled, Step.run, deposited, ready, secondWords, depositWords])
    (by simp [secondWords, depositWords, hsup]) (by simp [secondWords, depositWords, hsup])
    (by simp [secondWords, depositWords, hsup, hbal])
  refine ⟨proof, ?_⟩
  simp only [secondCall, Call.invoke]
  exact congrArg (· >>= fun r => pure r.2) hok

/-- The steps that configure the pool and deposit 100 units into each of two notes. -/
def twoDeposits (E : Env) (n n' : Note Bls12381) (proof proof' : List UInt8) : List Step :=
  setup E ++ [.invoke (fun _ => true) (depositCall E n proof), .arrive (acct 1) E.pool 100,
    .invoke (fun _ => true) (secondCall E (leafOf E n) n' proof')]

/-- The configured pool and two deposits of 100 units each. -/
theorem run_twoDeposits {E : Env} (hE : E.Exact) (nullifier nullifier' : Bls12381) :
    let n := usdcNote E (100 : ℕ) nullifier
    let n' := usdcNote E (100 : ℕ) nullifier'
    ∃ proof proof', (run E (twoDeposits E n n' proof proof') fresh).1 =
        redeposited E (leafOf E n) (leafOf E n') ∧
      (run E (twoDeposits E n n' proof proof') fresh).2.map Invocation.call =
        (run E (setup E) fresh).2.map Invocation.call ++
          [depositCall E n proof, secondCall E (leafOf E n) n' proof'] := by
  intro n n'
  obtain ⟨proof, hdep⟩ := run_depositCall hE nullifier
  obtain ⟨proof', hdep'⟩ := invoke_secondCall hE (leafOf E n) nullifier'
  refine ⟨proof, proof', ?_⟩
  have hrun : run E [.arrive (acct 1) E.pool 100,
      .invoke (fun _ => true) (secondCall E (leafOf E n) n' proof')] (deposited E (leafOf E n)) =
        (redeposited E (leafOf E n) (leafOf E n'),
          [⟨secondCall E (leafOf E n) n' proof', refilled E (leafOf E n),
            redeposited E (leafOf E n) (leafOf E n')⟩]) :=
    run_invoke hdep' []
  rw [twoDeposits, run_append, run_setup, run_invoke hdep, hrun]
  exact ⟨rfl, by rw [List.map_append]; rfl⟩

/-- What the two deposits leave in the tree and in the log. -/
theorem run_deposits {E : Env} (hE : E.Exact) (nullifier nullifier' : Bls12381) :
    ∃ ts r r', (run E ts fresh).1.tree.leaves = [leafOf E (usdcNote E (100 : ℕ) nullifier),
        leafOf E (usdcNote E (100 : ℕ) nullifier')] ∧
      (run E ts fresh).1.events = [.regasset (E.recipientHash (acct 1)) (acct 1),
        .deposit 0 (word 0) (acct 1) 100 (leafOf E (usdcNote E (100 : ℕ) nullifier)) (word 0) (word 0)
          0 r,
        .deposit 0 (word 1) (acct 1) 100 (leafOf E (usdcNote E (100 : ℕ) nullifier')) (word 0) (word 0)
          1 r'] ∧
      ∃ proof proof', (run E ts fresh).2.map Invocation.call =
        (run E (setup E) fresh).2.map Invocation.call ++
          [depositCall E (usdcNote E (100 : ℕ) nullifier) proof,
            secondCall E (leafOf E (usdcNote E (100 : ℕ) nullifier)) (usdcNote E (100 : ℕ) nullifier')
              proof'] := by
  obtain ⟨proof, proof', hstate, hcalls⟩ := run_twoDeposits hE nullifier nullifier'
  exact ⟨_, _, _, by rw [hstate]; rfl, by rw [hstate]; rfl, proof, proof', hcalls⟩

/-! ## Withdrawals -/

/-- The pool's balance after it paid: what it sent away is gone, unless it paid itself. -/
theorem State.moveTokens_pool (E : Env) (s : State) (token token' a : Address) (amount : ℤ) :
    s.moveTokens E token a amount token' E.pool =
      if token' = token ∧ a ≠ E.pool then s.poolBalance E token' - amount
      else s.poolBalance E token' := by
  by_cases ht : token' = token
  · subst ht
    by_cases ha : a = E.pool
    · simp [State.moveTokens, State.poolBalance, ha]
    · simp [State.moveTokens, State.poolBalance, ha, Ne.symm ha]
  · simp [State.moveTokens, State.poolBalance, ht]

section
variable {E : Env} {s : State}

/-- A withdrawal out of a backed supply of USDC. It goes through, leaves the rest of the supply backed,
and whatever else could be spent before can be spent after. -/
theorem withdraw_backed {root : Bytes32} {amount supply : ℕ} {a : Address} {nh : Bytes32}
    {proof : List UInt8}
    (h : Spendable E s proof (spendWordsAt E root 1 amount (E.recipientHash a) nh))
    (ht : s.assetToken (E.recipientHash (acct 1)) = some (acct 1))
    (hs : s.noteSupply (E.recipientHash (acct 1)) = supply) (hle : amount ≤ supply)
    (hlt : supply < 2 ^ 127) (hb : supply ≤ s.poolBalance E (acct 1)) :
    ∃ s', s.withdraw E (fun _ => true) a proof
        (encodeSignals (spendWordsAt E root 1 amount (E.recipientHash a) nh).toList) = .ok s' ∧
      s'.registry = s.registry.mark nh ∧
      (∀ proof' x, x.nullifierHash ≠ nh → Spendable E s proof' x → Spendable E s' proof' x) ∧
      s'.assetToken (E.recipientHash (acct 1)) = some (acct 1) ∧
      s'.noteSupply (E.recipientHash (acct 1)) = (supply - amount : ℕ) ∧
      (supply - amount : ℕ) ≤ s'.poolBalance E (acct 1) := by
  have hamount : fr32ToI128 (word amount) = amount := fr32ToI128_word (by omega)
  have h0 : fr32ToI128 (word 0) = 0 := fr32ToI128_word (by norm_num)
  have hmove : ((supply : ℕ) : ℤ) - amount ≤ s.moveTokens E (acct 1) a amount (acct 1) E.pool := by
    rw [State.moveTokens_pool]
    split <;> omega
  refine ⟨_, State.withdraw_intro h rfl (fr32ToI128_word (by norm_num)) rfl ht ?_ ?_ ?_ ?_, rfl, ?_,
    ht, ?_, ?_⟩
  · simp only [spendWordsAt, hamount, h0]
    omega
  · simp only [spendWordsAt, hamount, hs]
    omega
  · simp only [spendWordsAt, hamount, hs]
    omega
  · simpa only [spendWordsAt, hamount, h0, sub_zero, hs] using hmove
  · intro proof' x hx h'
    exact ⟨h'.paused, h'.value, h'.fee, h'.fee_le, h'.deadline, h'.association, h'.pool, h'.chain,
      h'.root, h'.verified, h'.registry, h'.authorized,
      Registry.mark_spent_eq_false.2 ⟨hx, h'.fresh⟩⟩
  · simp only [spendWordsAt, hamount, hs, Function.update_self]
    omega
  · simp only [spendWordsAt, hamount, h0, sub_zero, State.poolBalance]
    omega

/-- A withdrawal out of a note of the tree with the root `root`, under the nullifier word `nh`. -/
def withdrawCallAt (E : Env) (root : Bytes32) (amount : ℕ) (a : Address) (proof : List UInt8)
    (nh : Bytes32) : Call :=
  .withdraw a proof (encodeSignals (spendWordsAt E root 1 amount (E.recipientHash a) nh).toList)

/-- A withdrawal out of the one note that was deposited. -/
def withdrawCall (E : Env) (n : Note Bls12381) (amount : ℕ) (a : Address) (proof : List UInt8)
    (nh : Bytes32) : Call :=
  withdrawCallAt E ((ready E).pushed E (leafOf E n)).root amount a proof nh

/-- Withdrawals out of a backed supply, one for each of a list of distinct words. -/
theorem run_withdrawals {n : Note Bls12381} {amount : ℕ} {a : Address} {proof : List UInt8}
    (ws : List Bytes32) {supply : ℕ} (hnd : ws.Nodup)
    (h : ∀ w ∈ ws, Spendable E s proof (spendWords E n 1 amount (E.recipientHash a) w))
    (ht : s.assetToken (E.recipientHash (acct 1)) = some (acct 1))
    (hs : s.noteSupply (E.recipientHash (acct 1)) = supply) (hle : amount * ws.length ≤ supply)
    (hlt : supply < 2 ^ 127) (hb : supply ≤ s.poolBalance E (acct 1)) :
    (run E (ws.map fun w => .invoke (fun _ => true) (withdrawCall E n amount a proof w)) s).2.map
      Invocation.call = ws.map (withdrawCall E n amount a proof) := by
  induction ws generalizing s supply with
  | nil => rfl
  | cons w ws ih =>
      rw [List.length_cons, Nat.mul_succ] at hle
      obtain ⟨hw, hnd⟩ := List.nodup_cons.1 hnd
      obtain ⟨s', hok, -, hkeep, ht', hs', hb'⟩ :=
        withdraw_backed (h w (by simp)) ht hs (by omega) hlt hb
      have hcall : (withdrawCall E n amount a proof w).invoke E (fun _ => true) s = .ok s' := hok
      rw [List.map_cons, run_invoke hcall, List.map_cons, List.map_cons]
      refine congrArg _ (ih hnd (fun v hv => ?_) ht' hs' (by omega) (by omega) hb')
      exact hkeep _ _ (fun he => hw (he ▸ hv)) (h v (by simp [hv]))

end

/-- A call under a spent nullifier word changes nothing and leaves no record. -/
theorem run_spent {E : Env} {s : State} {root : Bytes32} {amount : ℕ} {a : Address}
    {proof : List UInt8} {nh : Bytes32} (h : s.registry.spent nh = true) :
    run E [.invoke (fun _ => true) (withdrawCallAt E root amount a proof nh)] s = (s, []) := by
  cases hcall : (withdrawCallAt E root amount a proof nh).invoke E (fun _ => true) s with
  | error e => simp [run, Step.run, hcall]
  | ok s' =>
      obtain ⟨signals, nh', _, _, _, _, hfamily, -⟩ := State.withdraw_inv hcall
      have hsignals := hfamily.parsed
      rw [parse_withdrawWords] at hsignals
      have hnh := hfamily.nullifier
      rw [← Except.ok.inj hsignals] at hnh
      obtain rfl : nh = nh' := Option.some.inj hnh
      exact absurd (hfamily.fresh.symm.trans h) (by decide)

/-- The first of two notes can be spent as if it were alone: its root stays known. -/
theorem Spendable.redeposited {E : Env} {c c' : Bytes32} {proof : List UInt8}
    {x : WithdrawPub Bytes32} (h : Spendable E (deposited E c) proof x) :
    Spendable E (redeposited E c c') proof x := by
  refine ⟨h.paused, h.value, h.fee, h.fee_le, h.deadline, h.association, h.pool, h.chain, ?_,
    h.verified, h.registry, h.authorized, h.fresh⟩
  have hroot : (deposited E c).tree.knownRoot x.stateRoot = true := h.root
  simp only [Stellar.redeposited, State.pushed, TreeStore.push, Function.update_apply]
  split
  · rfl
  · exact hroot

/-- The second of two notes can be spent. -/
theorem spendable_second {E : Env} (hE : E.Exact) (nullifier nullifier' : Bls12381)
    (recipientHash : Bytes32) :
    let c := leafOf E (usdcNote E (100 : ℕ) nullifier)
    let c' := leafOf E (usdcNote E (100 : ℕ) nullifier')
    ∃ proof, ∀ nullifierHash, frFromBytes nullifierHash =
        (usdcNote E (100 : ℕ) nullifier').nullifierHash E.poseidon (frFromBytes (word 0))
          (frFromBytes (word 0)) →
      Spendable E (redeposited E c c') proof
        (spendWordsAt E (redeposited E c c').tree.root 1 40 recipientHash nullifierHash) := by
  intro c c'
  have hleaf : LeanIMT.leafFn [c, c'] 1 = (usdcNote E (100 : ℕ) nullifier').commitment E.poseidon := by
    simp [LeanIMT.leafFn, LeanIMT.scalars, Merkle.pad, c', leafOf]
  obtain ⟨proof, hproof⟩ := @verify_spendWordsAt E hE [c, c'] 1 (redeposited E c c').tree.root 1 100 40
    nullifier' recipientHash (by norm_num) hleaf (frFromBytes_frToBytes _) (by norm_num) (by norm_num)
  have h0 : fr32ToI128 (word 0) = 0 := fr32ToI128_word (by norm_num)
  have h40 : fr32ToI128 (word 40) = 40 := fr32ToI128_word (by norm_num)
  refine ⟨proof, fun w hw => ?_⟩
  refine ⟨rfl, ?_, ?_, ?_, ?_, rfl, ?_, ?_, ?_, hproof w hw, rfl, ?_, rfl⟩
  · simp [spendWordsAt, h40]
  · simp [spendWordsAt, h0]
  · simp [spendWordsAt, h0, h40]
  · simp [spendWordsAt, h0, redeposited, refilled, Step.run, deposited, ready, fresh, construct]
  · simp [spendWordsAt, h0, redeposited, refilled, Step.run, deposited, ready, fresh, construct]
  · simp [spendWordsAt, h0, redeposited, refilled, Step.run, deposited, ready, fresh, construct]
  · simp [spendWordsAt, redeposited, State.pushed, TreeStore.push]
  · simp [redeposited, refilled, Step.run, deposited, ready]

/-- The configured pool, deposits of 100 units into two notes, a withdrawal of 40 units out of each, and
the first withdrawal once more, which leaves no record. -/
theorem run_twoSpends {E : Env} (hE : E.Exact) (nullifier nullifier' : Bls12381) (a : Address)
    {nh nh' : Bytes32} (hne : nh ≠ nh')
    (hnh : frFromBytes nh = (usdcNote E (100 : ℕ) nullifier).nullifierHash E.poseidon
      (frFromBytes (word 0)) (frFromBytes (word 0)))
    (hnh' : frFromBytes nh' = (usdcNote E (100 : ℕ) nullifier').nullifierHash E.poseidon
      (frFromBytes (word 0)) (frFromBytes (word 0))) :
    let n := usdcNote E (100 : ℕ) nullifier
    ∃ ts p₁ p₂ p₃ p₄ root root', (run E ts fresh).2.map Invocation.call =
        (run E (setup E) fresh).2.map Invocation.call ++
          [depositCall E n p₁, secondCall E (leafOf E n) (usdcNote E (100 : ℕ) nullifier') p₂,
            withdrawCallAt E root 40 a p₃ nh, withdrawCallAt E root' 40 a p₄ nh'] ∧
      (run E (ts ++ [.invoke (fun _ => true) (withdrawCallAt E root 40 a p₃ nh)]) fresh).2 =
        (run E ts fresh).2 := by
  intro n
  obtain ⟨p₁, p₂, hstate, hcalls⟩ := run_twoDeposits hE nullifier nullifier'
  obtain ⟨p₃, hp₃⟩ := @spendable_deposited E hE 1 100 40 nullifier (E.recipientHash a)
    (by norm_num) (by norm_num) (by norm_num)
  obtain ⟨p₄, hp₄⟩ := spendable_second hE nullifier nullifier' (E.recipientHash a)
  set s := redeposited E (leafOf E (usdcNote E (100 : ℕ) nullifier))
    (leafOf E (usdcNote E (100 : ℕ) nullifier'))
  have hsupply : s.noteSupply (E.recipientHash (acct 1)) = (200 : ℕ) := by
    simp [s, redeposited, refilled, Step.run, deposited]
  have hbalance : ((200 : ℕ) : ℤ) ≤ s.poolBalance E (acct 1) := by
    simp [s, redeposited, refilled, Step.run, deposited, ready, State.poolBalance]
  have htoken : s.assetToken (E.recipientHash (acct 1)) = some (acct 1) := by
    simp [s, redeposited, refilled, Step.run, deposited, ready]
  obtain ⟨s₁, hok₁, hreg₁, hkeep, ht₁, hs₁, hb₁⟩ :=
    withdraw_backed (hp₃ nh hnh).redeposited htoken hsupply (by norm_num) (by norm_num) hbalance
  obtain ⟨s₂, hok₂, hreg₂, -⟩ :=
    withdraw_backed (hkeep _ _ hne.symm (hp₄ nh' hnh')) ht₁ hs₁ (by norm_num) (by norm_num) hb₁
  have hspent : s₂.registry.spent nh = true := by
    rw [hreg₂, hreg₁]
    simp [Registry.mark, hne]
  set root := ((ready E).pushed E (leafOf E n)).root
  have hfirst : (withdrawCallAt E root 40 a p₃ nh).invoke E (fun _ => true) s = .ok s₁ := hok₁
  have hsecond : (withdrawCallAt E s.tree.root 40 a p₄ nh').invoke E (fun _ => true) s₁ = .ok s₂ :=
    hok₂
  have hrun : run E [.invoke (fun _ => true) (withdrawCallAt E root 40 a p₃ nh),
      .invoke (fun _ => true) (withdrawCallAt E s.tree.root 40 a p₄ nh')] s =
      (s₂, [⟨withdrawCallAt E root 40 a p₃ nh, s, s₁⟩,
        ⟨withdrawCallAt E s.tree.root 40 a p₄ nh', s₁, s₂⟩]) := by
    rw [run_invoke hfirst, run_invoke hsecond]
    rfl
  refine ⟨twoDeposits E n (usdcNote E (100 : ℕ) nullifier') p₁ p₂ ++
    [.invoke (fun _ => true) (withdrawCallAt E root 40 a p₃ nh),
      .invoke (fun _ => true) (withdrawCallAt E s.tree.root 40 a p₄ nh')],
    p₁, p₂, p₃, p₄, root, s.tree.root, ?_, ?_⟩
  · rw [run_append, hstate, hrun, List.map_append, hcalls, List.append_assoc]
    rfl
  · rw [run_append, run_append, hstate, hrun, run_spent hspent, List.append_nil]

/-- The configured pool, a deposit of 100 units into a note, and withdrawals of 40 units out of it, one
for each word of its nullifier hash in `ws`. -/
theorem run_respend {E : Env} (hE : E.Exact) (nullifier : Bls12381) (a : Address) {ws : List Bytes32}
    (hnd : ws.Nodup) (hlen : ws.length ≤ 2)
    (hws : ∀ w ∈ ws, frFromBytes w = (usdcNote E (100 : ℕ) nullifier).nullifierHash E.poseidon
      (frFromBytes (word 0)) (frFromBytes (word 0))) :
    ∃ proof proof' ts is, (run E ts fresh).2 = (run E (setup E) fresh).2 ++ is ∧
      is.map Invocation.call = depositCall E (usdcNote E (100 : ℕ) nullifier) proof ::
        ws.map (withdrawCall E (usdcNote E (100 : ℕ) nullifier) 40 a proof') := by
  obtain ⟨proof, hdep⟩ := run_depositCall hE nullifier
  obtain ⟨proof', hsp⟩ := @spendable_deposited E hE 1 100 40 nullifier (E.recipientHash a)
    (by norm_num) (by norm_num) (by norm_num)
  refine ⟨proof, proof', setup E ++
    .invoke (fun _ => true) (depositCall E (usdcNote E (100 : ℕ) nullifier) proof) ::
    ws.map fun w => .invoke (fun _ => true)
      (withdrawCall E (usdcNote E (100 : ℕ) nullifier) 40 a proof' w), _,
    by rw [run_append, run_setup, run_invoke hdep], ?_⟩
  rw [List.map_cons]
  refine congrArg _ (@run_withdrawals E _ _ 40 a proof' ws 100 hnd (fun w hw => hsp w (hws w hw)) ?_
    ?_ (by omega) (by norm_num) ?_)
  · simp [deposited, ready]
  · simp [deposited]
  · simp [deposited, ready, State.poolBalance]

/-! ## An RFQ settlement -/

/-- An RFQ settlement of 60 units out of the note `n` to `a`, under the quote of hash zero signed by the
solver of key zero. -/
def rfqCall (E : Env) (n : Note Bls12381) (proof : List UInt8) (sig : BytesN 64) (a : Address) : Call :=
  .rfqSettle a proof (encodeSignals (spendWords E n 3 60 (word 0) (frToBytes (n.nullifierHash
    E.poseidon (frFromBytes (word 0)) (frFromBytes (word 0))))).toList) (word 0) (word 0) (word 0)
    (word 0) sig

/-- The pool after the RFQ settlement of a deposited note. -/
def rfqSettled (E : Env) (n : Note Bls12381) (a : Address) : State :=
  { deposited E (leafOf E n) with
    registry := (deposited E (leafOf E n)).registry.mark (frToBytes (n.nullifierHash
      E.poseidon (frFromBytes (word 0)) (frFromBytes (word 0))))
    balance := (deposited E (leafOf E n)).moveTokens E (acct 1) a 60
    payments := [.transfer (acct 1) a 60]
    events := (deposited E (leafOf E n)).events ++ [.rfq (word 0) a (frToBytes (n.nullifierHash
      E.poseidon (frFromBytes (word 0)) (frFromBytes (word 0)))) 60] }

/-- The same proof and signature settle to any account. -/
theorem invoke_rfqCall {E : Env} (hE : E.Exact) (nullifier : Bls12381) {sig : BytesN 64}
    (hsig : E.ed25519 (word 0) (word 0).bytes sig = true) :
    ∃ proof, ∀ auth a, (rfqCall E (usdcNote E (100 : ℕ) nullifier) proof sig a).invoke E auth
        (deposited E (leafOf E (usdcNote E (100 : ℕ) nullifier))) =
      .ok (rfqSettled E (usdcNote E (100 : ℕ) nullifier) a) := by
  obtain ⟨proof, hsp⟩ := @spendable_deposited E hE 3 100 60 nullifier (word 0) (by norm_num)
    (by norm_num) (by norm_num)
  have h60 : fr32ToI128 (word 60) = 60 := fr32ToI128_word (by norm_num)
  refine ⟨proof, fun auth a => ?_⟩
  have hok := @State.rfqSettle_intro E (deposited E (leafOf E (usdcNote E (100 : ℕ) nullifier))) proof
    _ a (word 0) (word 0) (word 0) (word 0) sig (hsp _ (frFromBytes_frToBytes _)) rfl hsig
    (fr32ToI128_word (by norm_num)) rfl rfl rfl (by
      simp [spendWords, spendWordsAt, h60, deposited, ready, fresh, construct, State.poolBalance])
  rw [rfqCall, Call.invoke, hok, rfqSettled]
  simp only [spendWords, spendWordsAt, h60]
  rfl

/-- The configured pool, a deposit of 100 units and the RFQ settlement of 60 of them. -/
theorem run_rfqCall {E : Env} (hE : E.Exact) (nullifier : Bls12381) (a : Address) {sig : BytesN 64}
    (hsig : E.ed25519 (word 0) (word 0).bytes sig = true) :
    ∃ proof proof' ts is,
      run E ts fresh = (rfqSettled E (usdcNote E (100 : ℕ) nullifier) a,
        (run E (setup E) fresh).2 ++ is) ∧
      is.map Invocation.call = [depositCall E (usdcNote E (100 : ℕ) nullifier) proof,
        rfqCall E (usdcNote E (100 : ℕ) nullifier) proof' sig a] := by
  obtain ⟨proof, hdep⟩ := run_depositCall hE nullifier
  obtain ⟨proof', hrfq⟩ := invoke_rfqCall hE nullifier hsig
  set n := usdcNote E (100 : ℕ) nullifier
  refine ⟨proof, proof', setup E ++ [.invoke (fun _ => true) (depositCall E n proof),
    .invoke (fun _ => true) (rfqCall E n proof' sig a)],
    [⟨depositCall E n proof, ready E, deposited E (leafOf E n)⟩,
      ⟨rfqCall E n proof' sig a, deposited E (leafOf E n), rfqSettled E n a⟩], ?_, rfl⟩
  rw [run_append, run_setup, run_invoke hdep, run_invoke (hrfq _ _)]
  rfl

end ShadePay.Stellar
