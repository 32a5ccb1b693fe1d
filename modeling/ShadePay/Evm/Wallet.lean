import ShadePay.Evm.Solvency
import ShadePay.Proving.Spending

/-!
# The honest wallet

What the holder of a note can count on. `Holds` says that a coin is a leaf of the pool's tree and that
its nullifier hash is not spent, `Allows` that its label is on the allow list on record, `Serves` that
the pool is open. `honest_withdrawal` puts the wallet, the circuit and the contract together: the proof
builder returns for such a coin, its assignment satisfies the circuit, and the contract carries out
the call, in whatever state the other users of the pool have left it. `honest_deposit` and
`honest_transfer` say how a coin comes to be held, and that it stays so until its nullifier hash is
revealed.
-/

namespace ShadePay.Evm

open Guard Reentrancy Proving

/-! ## Supplies are signed words -/

section
variable {E : Env} {A : Knowledge} {s s' : State}

/-- Every supply is below `2 ^ 255`. -/
def SupplyWord (s : State) : Prop := ∀ a, s.pool.noteSupplyOf a < 2 ^ 255

/-- **Invariant.** A supply is a word. -/
theorem preserves_supplyWord : Preserves (machine E) fun _ w => SupplyWord w.1 := by
  refine preserves_state (fun {p s s'} hI h a => ?_) (fun _ _ _ hI => hI) fun {s s'} hI hc a => ?_
  · cases p with
    | adjust b d =>
        obtain ⟨⟨-, hlt, -⟩, -⟩ := State.adjustNoteSupply_eq_ok.1 h
        rw [Prim.run_supply h, Prim.delta]
        split
        · next hb => exact hb ▸ hlt
        · simpa using hI a
    | _ => simpa [Prim.run_supply h, Prim.delta] using hI a
  · rcases hc.assets with ⟨-, h2⟩ | ⟨b, t, -, -, h2⟩
    · rw [h2]
      exact hI a
    · rw [h2]
      by_cases hab : a = b
      · simp [hab]
      · simpa [hab] using hI a

/-! ## Leaves stay -/

/-- The leaves `l` are among the first ones. -/
def Grown (E : Env) (l : List ℕ) (s : State) : Prop := TreeInv E s ∧ l <+: s.pool.tree.leaves

/-- **Invariant.** Leaves are not taken back. -/
theorem preserves_grown (l : List ℕ) : Preserves (machine E) fun _ w => Grown E l w.1 := by
  refine preserves_state (fun {p s s'} hI h => ⟨hI.1.prim h, ?_⟩) (fun _ _ _ hI => hI)
    fun {s s'} hI hc => ?_
  · rcases Prim.run_tree h with he | ⟨leaf, i, -, hins⟩
    · rw [he]
      exact hI.2
    · rw [(IncrementalMerkleTree.insert_inv hI.1 hins).2.1]
      exact hI.2.trans (List.prefix_append _ _)
  · rw [Grown, TreeInv, hc.tree]
    exact hI

/-! ## Holding a coin -/

/-- The coin opens its commitment, and its numbers are those of a note. -/
structure Genuine (E : Env) (A : Knowledge) (c : Bn254Coin) : Prop where
  minted : c.Minted E.poseidon
  assetId : c.assetId < bn254
  value : c.value < 2 ^ 128
  hashed : c.note.Hashed E.poseidon A.hashed

/-- The coin opens leaf `i`, and its nullifier hash is not spent. -/
structure Holds (E : Env) (A : Knowledge) (s : State) (c : Bn254Coin) (i : ℕ) : Prop
    extends Genuine E A c where
  leaf : s.pool.tree.leaves[i]? = some c.commitment
  unspent : s.registry.spent (noteKey E c.note) = false

/-- The labels are those of the association root on record, and the coin's is the one at `j`. -/
structure Allows (E : Env) (s : State) (labels : List ℕ) (c : Bn254Coin) (j : ℕ) : Prop where
  room : labels.length ≤ 2 ^ associationDepth
  label : labels[j]? = some c.label
  root : s.pool.associationRoot = Merkle.root (wordHash E.poseidon) 0 associationDepth labels

/-- The pool takes spends: neither it nor the registry is paused, it may spend, and its root is one
that `isKnownRoot` accepts. -/
structure Serves (E : Env) (s : State) : Prop where
  pool : s.pool.access.paused = false
  registry : s.registry.access.paused = false
  authorized : s.registry.authorized E.pool = true
  root : s.pool.tree.getRoot ≠ 0

/-- The domain of the pool consists of field elements, and the builders reach its depth. -/
structure Env.Provable (E : Env) : Prop where
  poolId : E.poolId < bn254
  chainId : E.chainId < bn254
  levels : E.levels ≤ 30

/-- Where the wallet says that the coin lies. -/
def locate (s : State) (i : ℕ) (labels : List ℕ) (j : ℕ) : Located :=
  ⟨s.pool.tree.leaves, i, labels, j⟩

/-- The contract hashes pairs as the wallet does. -/
theorem hashLeftRight_eq (E : Env) : E.hashLeftRight = wordHash E.poseidon := rfl

/-- A coin in the pool has what the prover asks for. -/
theorem Holds.spendable (hE : E.Provable) (hT : TreeInv E s) {c : Bn254Coin} {i j : ℕ}
    {labels : List ℕ} (hc : Holds E A s c i) (hl : Allows E s labels c j) :
    Proving.Spendable E.poseidon E.levels (locate s i labels j) c where
  minted := hc.minted
  stateLeaf := by simpa [locate, elementAt] using hc.leaf
  label := by simpa [locate, elementAt] using hl.label
  state := hT.capacity
  labels := hl.room
  depth := hE.levels

/-- **A held coin is backed by the supply.** -/
theorem Holds.value_le (hP : Ideal E A) {c : Bn254Coin} {i : ℕ} (hc : Holds E A s c i)
    {ns : List (Note Bn254)} (hns : List.Forall₂ (Opening E A) s.pool.tree.leaves ns)
    (hle : (unspentSum E s c.assetId ns : ℤ) ≤ s.pool.noteSupplyOf c.assetId) :
    (c.value : ℤ) ≤ s.pool.noteSupplyOf c.assetId := by
  obtain ⟨hi, hleaf⟩ := List.getElem?_eq_some_iff.1 hc.leaf
  have hi' : i < ns.length := hns.length_eq ▸ hi
  have hopen := hns.get hi hi'
  -- the note on record at the leaf is the coin's
  have hnote : ns[i] = c.note := by
    refine Note.commitment_inj hP.injOn hopen.1 hc.hashed ?_
    rw [← hc.minted.cast, ← hleaf]
    exact hopen.2
  have hmem : c.note ∈ ns := hnote ▸ List.getElem_mem hi'
  have hval : noteVal c.assetId c.note = c.value := by
    have hv : c.value < bn254 := lt_trans hc.value (by decide)
    rw [noteVal, Bn254Coin.note, val_word hc.assetId, val_word hv, if_pos rfl]
  have hone : c.value ≤ unspentSum E s c.assetId ns := by
    have := List.le_sum_of_mem (List.mem_map_of_mem (f := fun n =>
      if s.registry.spent (noteKey E n) = false then noteVal c.assetId n else 0) hmem)
    simpa [unspentSum, hc.unspent, hval] using this
  omega

/-! ## Calls that succeed -/

/-- The state after the pool has spent a nullifier. -/
def State.afterSpend (E : Env) (s : State) (n : ℕ) : State :=
  { s with
    registry := { s.registry with spent := Function.update s.registry.spent n true }
    events := s.events ++ [.nullifierSpent E.pool n] }

@[simp] theorem State.afterSpend_pool (n : ℕ) : (s.afterSpend E n).pool = s.pool := rfl

@[simp] theorem State.afterSpend_poolBalance (n : ℕ) (t : Address) :
    (s.afterSpend E n).poolBalance E t = s.poolBalance E t := rfl

/-- A new nullifier is spent. -/
theorem State.spend_of (hS : Serves E s) {n : ℕ} (hn : s.registry.spent n = false) :
    s.spend E.pool n = .ok (s.afterSpend E n) :=
  State.spend_eq_ok.2 ⟨⟨hS.registry, hS.authorized, hn⟩, rfl⟩

/-- The current root is one that the pool accepts. -/
theorem Serves.isKnownRoot (hS : Serves E s) (hT : TreeInv E s) :
    s.pool.tree.isKnownRoot (Merkle.root E.hashLeftRight 0 E.levels s.pool.tree.leaves) = true := by
  refine (IncrementalMerkleTree.isKnownRoot_iff hT _).2 ⟨?_, _, List.prefix_rfl, rfl⟩
  rw [← hT.root]
  exact hS.root

/-- **A withdrawal that passes its checks pays out** when the supply covers it: the nullifier hash is
spent, the supply falls by the value, and the tokens less the fee move. -/
theorem withdraw_call (hS : Serves E s) (hword : SupplyWord s) {e : Entry E} {recipient : Address}
    {proof : Groth16Proof} {pub : WithdrawPub ℕ} (he : e.call = .withdraw recipient proof pub)
    (hc : e.call.Checks E e.sender s) (hn : s.registry.spent pub.nullifierHash = false)
    (hsup : (pub.withdrawnValue : ℤ) ≤ s.pool.noteSupplyOf pub.assetId)
    (hback : s.Backed E pub.assetId) (tr : List (Frame State (Entry E) Kont)) :
    ∃ w', call? (machine E) e [[], []] [] (s, tr) = some w' ∧
      w'.1.registry.spent = Function.update s.registry.spent pub.nullifierHash true ∧
      w'.1.pool.noteSupplyOf = Function.update s.pool.noteSupplyOf pub.assetId
        (s.pool.noteSupplyOf pub.assetId - pub.withdrawnValue) ∧
      w'.1.balance = s.moveTokens E (s.pool.assetToken pub.assetId) recipient
        (pub.withdrawnValue - pub.relayerFee) := by
  rw [he] at hc
  obtain ⟨hw, hfee, hrec, hasset, hbal⟩ := hc
  have hval : int256 pub.withdrawnValue = pub.withdrawnValue :=
    int256_of_lt (E.lt_of_verifyProof hw.verified _ (by simp [WithdrawPub.toList]))
  have hbal' : pub.withdrawnValue - pub.relayerFee ≤ (s.afterSpend E pub.nullifierHash).poolBalance E
      (s.pool.assetToken pub.assetId) := hbal
  have htok : (s.afterSpend E pub.nullifierHash).getAssetToken pub.assetId =
      .ok (s.pool.assetToken pub.assetId) := State.getAssetToken_eq_ok.2 ⟨hasset, rfl⟩
  have henter : s.withdraw E recipient proof pub = .ok (s.afterSpend E pub.nullifierHash,
      some (.transferring (s.pool.assetToken pub.assetId) recipient
        (pub.withdrawnValue - pub.relayerFee) pub.assetId pub.withdrawnValue (.withdraw recipient
          pub.nullifierHash (pub.withdrawnValue - pub.relayerFee) pub.relayerFee))) := by
    simp only [State.withdraw, Access.whenNotPaused, require_of hS.pool, require_of hw.operation,
      require_of (And.intro hw.value hfee), State.requireNotExpired, require_of hw.deadline,
      require_of hrec, State.checkDomainCompliance, require_of hw.domain, require_of hw.association,
      State.requireKnownRoot, require_of hw.root, require_of hw.verified, State.spend_of hS hn,
      htok, require_of hbal', ok_bind]
    rfl
  generalize hnet : pub.withdrawnValue - pub.relayerFee = net at *
  generalize htoken : s.pool.assetToken pub.assetId = token at *
  generalize Event.withdraw recipient pub.nullifierHash net pub.relayerFee = event at *
  -- the state after the tokens have moved
  obtain ⟨s₂, hs₂⟩ : ∃ s₂ : State, s₂ = { s.afterSpend E pub.nullifierHash with
    balance := s.moveTokens E token recipient net } := ⟨_, rfl⟩
  have hmove : (s.afterSpend E pub.nullifierHash).proceed E (.transferring token recipient net
      pub.assetId pub.withdrawnValue event) = .ok (s₂,
        some (.transferred token recipient net pub.assetId pub.withdrawnValue event)) := by
    rw [State.proceed, require_of hbal', hs₂]
    rfl
  have hle : s.pool.noteSupplyOf pub.assetId - pub.withdrawnValue ≤ s₂.poolBalance E token := by
    have h1 := le_moveTokens (E := E) (s := s) token recipient net
    have h2 : s₂.poolBalance E token = s.moveTokens E token recipient net token E.pool := by rw [hs₂]; rfl
    have h3 : s.pool.noteSupplyOf pub.assetId ≤ s.poolBalance E token := htoken ▸ hback.2
    rw [h2]
    omega
  obtain ⟨s₃, hs₃⟩ : ∃ s₃ : State, s₃ = { s₂ with pool := { s₂.pool with
    noteSupplyOf := Function.update s.pool.noteSupplyOf pub.assetId
      (s.pool.noteSupplyOf pub.assetId - pub.withdrawnValue) } } := ⟨_, rfl⟩
  have hadjust : s₂.adjustNoteSupply E pub.assetId (-int256 pub.withdrawnValue) = .ok s₃ := by
    have hpool : s₂.pool = s.pool := by rw [hs₂]; rfl
    have hlt := hword pub.assetId
    rw [State.adjustNoteSupply_eq_ok, hval, hpool, ← sub_eq_add_neg, htoken, hs₃, hpool]
    exact ⟨⟨hasset, by omega, by omega, hle⟩, rfl⟩
  have hdebit : s₂.proceed E (.transferred token recipient net pub.assetId pub.withdrawnValue
      event) = .ok (s₃.emit event, none) := by
    rw [State.proceed, hadjust]
    rfl
  have hcall : ∃ f, call? (machine E) e [[], []] [] (s, tr) = some (s₃.emit event, tr ++ [f]) := by
    simp only [call?, machine, enter, he, henter, Except.toOption, drive, execAll, Pending.advance,
      hmove, hdebit]
    exact ⟨_, rfl⟩
  obtain ⟨f, hcall⟩ := hcall
  refine ⟨_, hcall, ?_⟩
  rw [State.emit, hs₃, hs₂]
  exact ⟨rfl, rfl, rfl⟩

/-! ## Withdrawals -/

/-- The hash of an account is a field element. -/
theorem Env.addressHash_lt (E : Env) (a : Address) : E.addressHash a < bn254 := by
  have hlt : (E.sha256 (Bytes.ofNat 20 a.toNat)).toNat < 2 ^ 256 := BitVec.isLt _
  have hwide : 2 ^ 253 < bn254 := WideModulus.wide
  rw [Env.addressHash]
  omega

/-- What the wallet asks of the builder to withdraw `v` of a coin. -/
def withdrawalOf (E : Env) (l : Located) (c : Bn254Coin) (recipient : Address) (v fee deadline : ℕ) :
    WithdrawInput where
  toLocated := l
  coin := c
  withdrawnValue := v
  poolId := E.poolId
  chainId := E.chainId
  binding := ⟨1, E.addressHash recipient, fee, deadline, none, none, none, none, none, none, none⟩

/-- The words of public signals. -/
def words (E : Env) (x : WithdrawProverInput) : WithdrawPub ℕ :=
  (x.publicSignals E.poseidon).map ZMod.val

/-- Words of field elements pass `checkField`. -/
theorem Env.verifyProof_val (E : Env) (v : Address) (proof : Groth16Proof) (l : List Bn254) :
    E.verifyProof v proof (l.map ZMod.val) = E.groth16 v proof (l.map ZMod.val) := by
  have hall : (l.map ZMod.val).all (· < bn254) = true := by simp [ZMod.val_lt]
  rw [Env.verifyProof, hall, Bool.true_and]

theorem val_int {x : ℕ} (h : x < bn254) : (((x : ℕ) : ℤ) : Bn254).val = x := by
  rw [Int.cast_natCast, val_word h]

/-- The root of a tree of words is a field element. -/
theorem root_lt (P : List Bn254 → Bn254) {d : ℕ} (hd : 0 < d) (l : List ℕ) :
    Merkle.root (wordHash P) 0 d l < bn254 := by
  rw [Merkle.root, ← Nat.sub_add_cancel hd, Merkle.node]
  exact ZMod.val_lt _

/-- The nullifier hash in the assignment of a coin is its key in the registry. -/
theorem val_nullifierHash {l : Located} {c : Bn254Coin} {paths : Paths} {d : ℕ}
    (h : paths.Spend E.poseidon d l c) :
    (paths.spend.nullifierHash E.poseidon (E.poolId : ℤ) (E.chainId : ℤ)).val = noteKey E c.note := by
  rw [h.nullifierHash, Int.cast_natCast, Int.cast_natCast, noteKey]

/-- The state root the prover finds is the pool's. -/
theorem val_stateRoot {l : Located} {c : Bn254Coin} {paths : Paths}
    (h : paths.Spend E.poseidon E.levels l c) : ((paths.stateRoot : ℕ) : Bn254).val =
      Merkle.root E.hashLeftRight 0 E.levels l.stateLeaves := by
  rw [h.stateRoot, hashLeftRight_eq, val_word (root_lt _ E.levels_pos _)]

/-- The association root the prover finds is that of its labels. -/
theorem val_associationRoot {l : Located} {c : Bn254Coin} {paths : Paths}
    (h : paths.Spend E.poseidon E.levels l c) : ((paths.associationRoot : ℕ) : Bn254).val =
      Merkle.root (wordHash E.poseidon) 0 associationDepth l.assocLabels := by
  rw [h.associationRoot, val_word (root_lt _ (by decide) _)]

/-- The words that the wallet sends. -/
theorem words_withdrawalOf (hE : E.Provable) {l : Located} {c : Bn254Coin} {recipient : Address}
    {v fee deadline : ℕ} {paths : Paths} (h : paths.Spend E.poseidon E.levels l c)
    (hasset : c.assetId < bn254) (hv : v < bn254) (hfee : fee < bn254) (hdl : deadline < bn254) :
    words E ((withdrawalOf E l c recipient v fee deadline).input paths) =
      { nullifierHash := noteKey E c.note
        operationType := 1
        withdrawnValue := v
        recipientHash := E.addressHash recipient
        relayerFee := fee
        deadline := deadline
        stateRoot := Merkle.root E.hashLeftRight 0 E.levels l.stateLeaves
        associationRoot := Merkle.root (wordHash E.poseidon) 0 associationDepth l.assocLabels
        poolId := E.poolId
        chainId := E.chainId
        quoteHash := 0
        intentHash := 0
        fillReceiptHash := 0
        destinationDomain := 0
        destinationRecipient := 0
        maxFee := 0
        minFinalityThreshold := 0
        assetId := c.assetId } := by
  have hzero : ((0 : ℤ) : Bn254).val = 0 := val_int (x := 0) (by decide)
  have hone : ((1 : ℤ) : Bn254).val = 1 := val_int (x := 1) (by decide)
  simp only [words, WithdrawPub.map, WithdrawProverInput.publicSignals, WithdrawInput.input,
    withdrawalOf, Option.getD_none]
  rw [val_nullifierHash h, val_stateRoot h, val_associationRoot h, val_int hv, val_int (E.addressHash_lt recipient),
    val_int hfee, val_int hdl, val_int hE.poolId, val_int hE.chainId, val_word hasset, hone, hzero]

/-- What a run between transactions knows about a held coin: its asset's supply is a signed word that
covers it and that the pool's tokens cover. -/
structure Funded (E : Env) (s : State) (c : Bn254Coin) : Prop where
  tree : TreeInv E s
  word : SupplyWord s
  supply : (c.value : ℤ) ≤ s.pool.noteSupplyOf c.assetId
  registered : 0 < c.value → s.pool.assetToken c.assetId ≠ 0
  backed : s.pool.assetToken c.assetId ≠ 0 → s.Backed E c.assetId

/-- A coin in the pool is backed by the supply and by the pool's tokens. -/
theorem Holds.funded {s₀ : State} {w : World State (Entry E) Kont} (hP : Ideal E A)
    (hlaw : ∀ x w, A.mpcLaw x w → w.outValueA.val + w.outValueB.val ≤ w.valueA.val + w.valueB.val)
    (hreb : E.rebasing = false) (hd : Deployed E s₀) (hG : Guarded E A s₀)
    (hr : Reach ((machine E).within fun s => Guarded E A s ∧ ByHash E s) [] (s₀, []) [] w)
    {c : Bn254Coin} {i : ℕ} (hc : Holds E A w.1 c i) : Funded E w.1 c := by
  have hrG : Reach ((machine E).within (Guarded E A)) [] (s₀, []) [] w :=
    hr.within_mono fun _ h => h.1
  have hrH : Reach ((machine E).within (ByHash E)) [] (s₀, []) [] w :=
    hr.within_mono fun _ h => h.2
  have hR : Reserve E [] w.1 := ((preserves_reserve hreb).reach hd.byHash hd.reserve hrH).2
  obtain ⟨ns, hns, hle⟩ := (solvent_reach hP hlaw hd hG hrG).notes
  have hsup := hc.value_le hP hns (by simpa using hle c.assetId)
  have hword₀ : SupplyWord (s₀, ([] : List (Entry E))).1 := fun a => by
    simp [(hd.spec.2.2.2.1 a).1]
  refine ⟨treeInv_reachable hd hr.of_within, preserves_supplyWord.reach hword₀ hr.of_within, hsup,
    fun hpos hzero => ?_,
    fun hreg => ⟨hR.nonneg _, (hR.backed _ hreg).resolve_right (by simp)⟩⟩
  rw [hR.unregistered _ hzero] at hsup
  omega

/-- **Withdrawals are served.** Poseidon has no collision among the inputs that are hashed, the
verifiers are sound, each token is registered under its own hash and none is rebasing. Then in every
state that a run reaches between transactions, the holder of an unspent coin on the allow list can
withdraw any part of it: the builder returns, its assignment satisfies the circuit, and with a proof
that the verifier accepts the call goes through, spends the nullifier hash, debits the supply and pays
the recipient all but the fee. -/
theorem honest_withdrawal {s₀ : State} {w : World State (Entry E) Kont} (hP : Ideal E A)
    (hlaw : ∀ x w, A.mpcLaw x w → w.outValueA.val + w.outValueB.val ≤ w.valueA.val + w.valueB.val)
    (hE : E.Provable) (hreb : E.rebasing = false) (hd : Deployed E s₀) (hG : Guarded E A s₀)
    (hr : Reach ((machine E).within fun s => Guarded E A s ∧ ByHash E s) [] (s₀, []) [] w)
    {c : Bn254Coin} {i j : ℕ} {labels : List ℕ} (hc : Holds E A w.1 c i)
    (hl : Allows E w.1 labels c j) (hS : Serves E w.1) (recipient : Address) {v fee deadline : ℕ}
    (hv : 0 < v ∧ v ≤ c.value) (hfee : fee ≤ v) (hdl : w.1.block ≤ deadline ∧ deadline < bn254) :
    ∃ x, buildWithdraw (wordHash E.poseidon) E.levels (withdrawalOf E (locate w.1 i labels j) c
        recipient v fee deadline) = .ok x ∧
      Withdraw E.poseidon E.levels associationDepth (x.publicSignals E.poseidon) x.privateSignals ∧
      ∀ (e : Entry E) proof, e.call = .withdraw recipient proof (words E x) →
        E.groth16 w.1.pool.withdrawVerifier proof (words E x).toList = true →
        ∃ w', call? (machine E) e [[], []] [] w = some w' ∧
          w'.1.registry.spent =
            Function.update w.1.registry.spent (noteKey E c.note) true ∧
          w'.1.pool.noteSupplyOf = Function.update w.1.pool.noteSupplyOf c.assetId
            (w.1.pool.noteSupplyOf c.assetId - v) ∧
          w'.1.balance = w.1.moveTokens E (w.1.pool.assetToken c.assetId) recipient (v - fee) := by
  obtain ⟨hT, hword, hsup, hreg, hback⟩ := hc.funded hP hlaw hreb hd hG hr
  have hreg := hreg (lt_of_lt_of_le hv.1 hv.2)
  have hback := hback hreg
  have hspend := hc.spendable hE hT hl
  have hval := hc.value
  obtain ⟨paths, hpaths, hbuild, hsat⟩ := buildWithdraw_sat (p := withdrawalOf E
    (locate w.1 i labels j) c recipient v fee deadline) hspend hval
    (by simp only [withdrawalOf]; omega) (by simp only [withdrawalOf]; omega)
    (by simp only [withdrawalOf]; omega) (by simp only [withdrawalOf]; omega)
  refine ⟨_, hbuild, hsat.2 (by simp only [withdrawalOf]; omega), fun e proof he hver => ?_⟩
  have hwide : 2 ^ 253 < bn254 := WideModulus.wide
  have hpaths' : paths.Spend E.poseidon E.levels (locate w.1 i labels j) c := hpaths
  rw [words, WithdrawPub.toList_map, ← E.verifyProof_val, ← WithdrawPub.toList_map, ← words] at hver
  rw [words_withdrawalOf hE hpaths' hc.assetId (by omega) (by omega) hdl.2] at he hver
  have hmoney : v - fee ≤ w.1.poolBalance E (w.1.pool.assetToken c.assetId) := by
    have := hback.2
    omega
  have hchecks : e.call.Checks E e.sender w.1 := by
    rw [he]
    refine ⟨⟨by simp [int256], by dsimp only; omega, hdl.1, ⟨rfl, rfl⟩, hl.root.symm,
      hS.isKnownRoot hT, hver⟩, hfee, rfl, hreg, hmoney⟩
  exact withdraw_call hS hword he hchecks hc.unspent (by dsimp only; omega) hback w.2

/-- The coin of the first note. -/
def coin₁ : Bn254Coin := generateCoin samplePoseidon 100 11 7 1 0

/-- The deposit of the first note. -/
def deposited : World State (Entry (sampleEnv withdrawal)) Kont :=
  runChecked withdrawal holdsFirst [depositTx _ note₁ 1]

/-- What the wallet asks for: 60 of the coin, for account 9. -/
def sixtyOf : WithdrawInput :=
  withdrawalOf (sampleEnv withdrawal) (locate deposited.1 0 [7] 0) coin₁ 9 60 0 100

/-- The coin of the run is genuine. -/
theorem coin₁_genuine : Genuine (sampleEnv withdrawal) withdrawalKnowledge coin₁ where
  minted := generateCoin_minted ..
  assetId := by decide
  value := by decide
  hashed l hl := by
    have hnote : coin₁.note = note₁ := rfl
    rw [hnote] at hl
    exact List.mem_append_left _ (List.mem_append_left _ (List.mem_append_left _ hl))

/-- After the deposit, the wallet withdraws 60 to account 9. -/
theorem honest_withdrawal_sixty : ∃ x w',
    buildWithdraw (wordHash samplePoseidon) 3 sixtyOf = .ok x ∧
    call? (machine (sampleEnv withdrawal)) ⟨admin, .withdraw 9 someProof
      (words (sampleEnv withdrawal) x), admin_ne_pool, admin_ne_escrow⟩ [[], []] [] deposited =
        some w' ∧
    w'.1.balance = deposited.1.moveTokens (sampleEnv withdrawal) usdc 9 60 := by
  have hG : ∀ t, Standard (sampleEnv withdrawal) t → holdsFirst t = true →
      Guarded (sampleEnv withdrawal) withdrawalKnowledge t ∧ ByHash (sampleEnv withdrawal) t := by
    intro t ht hc
    refine ⟨withdrawal_guarded ht ?_, ht.byHash⟩
    rcases of_decide_eq_true hc with h | h
    · rw [h]
      exact List.nil_prefix
    · rw [h]
  have hempty : ∀ t : State, t.pool.tree.leaves = [] → holdsFirst t = true :=
    fun t ht => decide_eq_true (.inl ht)
  have hprovable : (sampleEnv withdrawal).Provable := ⟨by decide, by decide, by decide⟩
  have hholds : Holds (sampleEnv withdrawal) withdrawalKnowledge deposited.1 coin₁ 0 :=
    ⟨coin₁_genuine, by decide, by decide⟩
  have hallows : Allows (sampleEnv withdrawal) deposited.1 [7] coin₁ 0 :=
    ⟨by decide, rfl, by decide⟩
  obtain ⟨x, hx, -, hserve⟩ := honest_withdrawal withdrawal_ideal (fun _ _ h => h) hprovable rfl
    deployed_fresh (hG _ standard_fresh (hempty _ deployed_fresh.spec.2.1)).1
    (reach_runChecked hG hempty [depositTx _ note₁ 1]) hholds hallows
    ⟨by decide, by decide, by decide, by decide⟩ 9
    (⟨by decide, by decide⟩ : 0 < 60 ∧ 60 ≤ coin₁.value) (Nat.zero_le 60)
    (⟨by decide, by decide⟩ : deposited.1.block ≤ 100 ∧ 100 < bn254)
  have hwords : ((buildWithdraw (wordHash samplePoseidon) 3 sixtyOf).toOption.map
      (words (sampleEnv withdrawal))) = some (withdrawOf note₁ [leafOf note₁] [7] 1 60 9) := by
    decide
  have hx' : buildWithdraw (wordHash samplePoseidon) 3 sixtyOf = .ok x := hx
  rw [hx'] at hwords
  obtain ⟨w', hcall, -, -, hbal⟩ := hserve ⟨admin, .withdraw 9 someProof
    (words (sampleEnv withdrawal) x), admin_ne_pool, admin_ne_escrow⟩ someProof rfl (by
      rw [Option.some.inj hwords]
      decide)
  exact ⟨x, w', hx', hcall, hbal⟩

/-! ## Transfers -/

/-- What the wallet asks of the builder to send a coin on, up to a fee. -/
def transferOf (E : Env) (l : Located) (c out : Bn254Coin) (fee : ℕ) : TransferInput where
  toLocated := l
  inCoin := c
  outCoin := out
  feePublic := fee
  poolId := E.poolId
  chainId := E.chainId

/-- The words of public signals. -/
def transferWords (E : Env) (x : TransferProverInput) : TransferPub ℕ :=
  (x.publicSignals E.poseidon).map ZMod.val

/-- The words that the wallet sends. -/
theorem words_transferOf (hE : E.Provable) {l : Located} {c out : Bn254Coin} {fee : ℕ} {paths : Paths}
    (h : paths.Spend E.poseidon E.levels l c) (hin : c.assetId < bn254) (hout : out.assetId < bn254)
    (hmint : out.Minted E.poseidon) (hfee : fee < bn254) :
    transferWords E ((transferOf E l c out fee).input paths) =
      { nullifierHash := noteKey E c.note
        outputCommitment := out.commitment
        feePublic := fee
        stateRoot := Merkle.root E.hashLeftRight 0 E.levels l.stateLeaves
        associationRoot := Merkle.root (wordHash E.poseidon) 0 associationDepth l.assocLabels
        poolId := E.poolId
        chainId := E.chainId
        inputAssetId := c.assetId
        outputAssetId := out.assetId } := by
  simp only [transferWords, TransferPub.map, TransferProverInput.publicSignals, TransferInput.input,
    transferOf]
  rw [val_nullifierHash h, val_stateRoot h, val_associationRoot h, val_word hmint.lt, val_int hfee,
    val_int hE.poolId, val_int hE.chainId, val_word hin, val_word hout]

/-- **A leaf stays** where it is, and its coin is held until its nullifier hash is spent. -/
theorem Genuine.holds_later {K K' : List (Pending State (Entry E) Kont)}
    {w w' : World State (Entry E) Kont} {c : Bn254Coin} {i : ℕ} (hc : Genuine E A c)
    (hT : TreeInv E w.1) (hleaf : w.1.pool.tree.leaves[i]? = some c.commitment)
    (hr : Reach (machine E) K w K' w') (hn : w'.1.registry.spent (noteKey E c.note) = false) :
    Holds E A w'.1 c i := by
  have hgrown := (preserves_grown w.1.pool.tree.leaves).reach ⟨hT, List.prefix_rfl⟩ hr
  obtain ⟨hi, -⟩ := List.getElem?_eq_some_iff.1 hleaf
  obtain ⟨t, ht⟩ := hgrown.2
  refine ⟨hc, ?_, hn⟩
  rw [← ht, List.getElem?_append_left hi, hleaf]

/-- **A transfer that passes its checks goes through** when the tree has room: the nullifier hash is
spent, the output is the next leaf, and neither supply nor tokens move. -/
theorem transfer_call (hS : Serves E s) (hT : TreeInv E s) {e : Entry E} {proof : Groth16Proof}
    {pub : TransferPub ℕ} {K : List (Pending State (Entry E) Kont)}
    (he : e.call = .privateTransferSettle proof pub) (hc : e.call.Checks E e.sender s)
    (hrole : s.pool.access.hasRole .registrar e.sender = true)
    (hn : s.registry.spent pub.nullifierHash = false)
    (hroom : s.pool.tree.leaves.length < 2 ^ E.levels) (tr : List (Frame State (Entry E) Kont)) :
    ∃ w', call? (machine E) e [] K (s, tr) = some w' ∧ TreeInv E w'.1 ∧
      w'.1.registry.spent = Function.update s.registry.spent pub.nullifierHash true ∧
      w'.1.pool.tree.leaves = s.pool.tree.leaves ++ [pub.outputCommitment] ∧
      w'.1.pool.noteSupplyOf = s.pool.noteSupplyOf ∧ w'.1.balance = s.balance := by
  rw [he] at hc
  obtain ⟨hassoc, hdomain, hroot, hver⟩ := hc
  have hcommit : pub.outputCommitment < bn254 :=
    E.lt_of_verifyProof hver _ (by simp [TransferPub.toList])
  obtain ⟨⟨k, t⟩, hins⟩ :=
    (IncrementalMerkleTree.insert_ok_iff hT pub.outputCommitment).2 ⟨hcommit, hroom⟩
  obtain ⟨hT', hleaves, -⟩ := IncrementalMerkleTree.insert_inv hT hins
  -- the state after the spend and the insertion
  obtain ⟨s₁, hs₁⟩ : ∃ s₁ : State, s₁ = { s.afterSpend E pub.nullifierHash with
    pool := { s.pool with tree := t } } := ⟨_, rfl⟩
  have hinsert : (s.afterSpend E pub.nullifierHash).insert E pub.outputCommitment = .ok (k, s₁) :=
    State.insert_eq_ok.2 ⟨t, hins, hs₁⟩
  have hsettle : s.privateTransferSettle E e.sender proof pub = .ok (s₁.emit
      (.transfer pub.nullifierHash pub.outputCommitment k s₁.pool.tree.getRoot)) := by
    simp only [State.privateTransferSettle, Access.whenNotPaused, require_of hS.pool,
      Access.onlyRole, require_of hrole, require_of hassoc, require_of hdomain,
      State.requireKnownRoot, require_of hroot, require_of hver, State.spend_of hS hn, hinsert,
      ok_bind]
    rfl
  generalize Event.transfer pub.nullifierHash pub.outputCommitment k s₁.pool.tree.getRoot = event
    at hsettle
  have hcall : call? (machine E) e [] K (s, tr) =
      some (s₁.emit event, tr ++ [⟨e, s, s₁.emit event, []⟩]) := by
    simp only [call?, machine, enter, he, hsettle, ok_bind]
    rfl
  have htree : (s₁.emit event).pool.tree = t := by
    rw [hs₁]
    rfl
  refine ⟨_, hcall, ?_, ?_, ?_, ?_, ?_⟩
  · rw [TreeInv, htree]
    exact hT'
  · rw [hs₁]
    rfl
  · rw [htree, hleaves]
  · rw [hs₁]
    rfl
  · rw [hs₁]
    rfl

/-- **Transfers are served.** Wherever control is outside, the holder of an unspent coin on the allow
list can send it on: the builder returns, its assignment satisfies the circuit, and with a proof that
the verifier accepts the call of a registrar goes through. It spends the nullifier hash, moves neither
supply nor tokens, and from then on the new coin is held, whatever happens, until its own nullifier
hash is spent. -/
theorem honest_transfer {s₀ : State} {K : List (Pending State (Entry E) Kont)}
    {w : World State (Entry E) Kont} (hE : E.Provable) (hd : Deployed E s₀) (hr : Reachable E s₀ K w)
    {c out : Bn254Coin} {i j fee : ℕ} {labels : List ℕ} (hc : Holds E A w.1 c i)
    (hl : Allows E w.1 labels c j) (hS : Serves E w.1) (hout : Genuine E A out)
    (hasset : out.assetId = c.assetId) (hcons : out.value + fee = c.value)
    (hroom : w.1.pool.tree.leaves.length < 2 ^ E.levels) :
    ∃ x, buildTransfer (wordHash E.poseidon) E.levels (transferOf E (locate w.1 i labels j) c out
        fee) = .ok x ∧
      PrivateTransfer E.poseidon E.levels associationDepth (x.publicSignals E.poseidon)
        x.privateSignals ∧
      ∀ (e : Entry E) proof, e.call = .privateTransferSettle proof (transferWords E x) →
        w.1.pool.access.hasRole .registrar e.sender = true →
        E.groth16 w.1.pool.transferVerifier proof (transferWords E x).toList = true →
        ∃ w', call? (machine E) e [] K w = some w' ∧
          w'.1.registry.spent = Function.update w.1.registry.spent (noteKey E c.note) true ∧
          w'.1.pool.noteSupplyOf = w.1.pool.noteSupplyOf ∧ w'.1.balance = w.1.balance ∧
          ∀ K' w'', Reach (machine E) K w' K' w'' →
            w''.1.registry.spent (noteKey E out.note) = false →
            Holds E A w''.1 out w.1.pool.tree.leaves.length := by
  have hT : TreeInv E w.1 := treeInv_reachable hd hr
  have hval := hc.value
  have hval' := hout.value
  obtain ⟨paths, hpaths, hbuild, hsat⟩ := buildTransfer_sat
    (p := transferOf E (locate w.1 i labels j) c out fee) (hc.spendable hE hT hl) hout.minted hval
    hval' hasset (by simp only [transferOf]; omega)
  refine ⟨_, hbuild, hsat.2 (Int.natCast_nonneg _), fun e proof he hrole hver => ?_⟩
  have hwide : 2 ^ 253 < bn254 := WideModulus.wide
  have hpaths' : paths.Spend E.poseidon E.levels (locate w.1 i labels j) c := hpaths
  rw [transferWords, TransferPub.toList_map, ← E.verifyProof_val, ← TransferPub.toList_map,
    ← transferWords] at hver
  rw [words_transferOf hE hpaths' hc.assetId hout.assetId hout.minted (by omega)] at he hver
  have hchecks : e.call.Checks E e.sender w.1 := by
    rw [he]
    exact ⟨hl.root.symm, ⟨rfl, rfl⟩, hS.isKnownRoot hT, hver⟩
  obtain ⟨w', hcall, hT', hspent, hleaves, hsup, hbal⟩ :=
    transfer_call hS hT he hchecks hrole hc.unspent hroom w.2
  refine ⟨w', hcall, hspent, hsup, hbal, fun K' w'' hr' hn => hout.holds_later hT' ?_ hr' hn⟩
  rw [hleaves]
  simp

/-- The sample deployment with verifiers that accept everything. -/
def trusting : Env := { sampleEnv withdrawal with groth16 := fun _ _ _ => true }

/-- A call of the admin. -/
def trustingEntry (c : Call) : Entry trusting := ⟨admin, c, admin_ne_pool, admin_ne_escrow⟩

/-- The configuration, and the deposit of the first note. -/
def trustingRun : List (Tx (Entry trusting) Action) :=
  setup.map (fun c => .act (.configure admin c)) ++ [.act (.mint usdc 1 100),
    .call (trustingEntry (.receiveDeposit 0 1 usdc 100 (leafOf note₁) 0 0 someProof
      (depositOf note₁ 1))) []]

def trusted : World State (Entry trusting) Kont :=
  execAll (machine trusting) trustingRun [] (fresh withdrawal, [])

/-- A coin of 99 for somebody else. -/
def coin₂ : Bn254Coin := generateCoin samplePoseidon 99 11 7 2 0

/-- What the wallet asks for: the coin, up to a fee of one, sent on. -/
def ninetyNineOf : TransferInput :=
  transferOf trusting (locate trusted.1 0 [7] 0) coin₁ coin₂ 1

/-- After the deposit, the wallet sends 99 on, and the new coin is held. -/
theorem honest_transfer_ninetyNine : ∃ x w',
    buildTransfer (wordHash samplePoseidon) 3 ninetyNineOf = .ok x ∧
    call? (machine trusting) (trustingEntry (.privateTransferSettle someProof
      (transferWords trusting x))) [] [] trusted = some w' ∧
    (w'.1.registry.spent (noteKey trusting coin₂.note) = false →
      Holds trusting noKnowledge w'.1 coin₂ 1) := by
  have hdeployed : Deployed trusting (fresh withdrawal) := @deployed_fresh withdrawal
  have hgenuine : ∀ n : ℕ, n < 2 ^ 128 → ∀ k,
      Genuine trusting noKnowledge (generateCoin samplePoseidon n 11 7 k 0) := fun n hn k =>
    ⟨generateCoin_minted .., (by decide : 11 < bn254), hn, Note.hashed_univ _⟩
  have hreach : Reachable trusting (fresh withdrawal) [] trusted :=
    reach_execAll (machine trusting) trustingRun .refl
  have hholds : Holds trusting noKnowledge trusted.1 coin₁ 0 :=
    ⟨hgenuine 100 (by decide) 1, by decide, by decide⟩
  have hrole : trusted.1.pool.access.hasRole .registrar admin = true := by decide
  have hlength : trusted.1.pool.tree.leaves.length = 1 := by decide +kernel
  have hallows : Allows trusting trusted.1 [7] coin₁ 0 := ⟨by decide, rfl, by decide +kernel⟩
  have hout : Genuine trusting noKnowledge coin₂ := hgenuine 99 (by decide) 2
  obtain ⟨x, hx, -, hserve⟩ := honest_transfer (w := trusted)
    ⟨by decide, by decide, by decide⟩ hdeployed hreach hholds hallows
    ⟨by decide, by decide, by decide, by decide⟩ hout rfl
    (rfl : coin₂.value + 1 = coin₁.value) (by decide)
  obtain ⟨w', hcall, -, -, -, hlater⟩ := hserve (trustingEntry (.privateTransferSettle someProof
    (transferWords trusting x))) someProof rfl hrole rfl
  refine ⟨x, w', hx, hcall, fun hn => ?_⟩
  have := hlater [] w' .refl hn
  rwa [hlength] at this

end

end ShadePay.Evm
