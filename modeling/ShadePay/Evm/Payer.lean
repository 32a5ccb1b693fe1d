import ShadePay.Evm.Wallet

/-!
# The payer of a channel

What the payer of a stream can count on. `honest_open` opens a channel out of a held coin with the
builder of `packages/proving/src/bn254/stream.ts`; from then on the channel keeps its terms
(`OpenedWith.later`), and as long as nobody has closed it, `reclaim` gives the cap back to the payer once
the expiry and the challenge window have passed.
-/

namespace ShadePay.Evm

open Guard Reentrancy Proving

section
variable {E : Env} {A : Knowledge} {s s' : State}

/-! ## Channels keep their terms -/

/-- The channel `c` was opened with the terms `ch`; it may have been closed since. -/
def OpenedWith (c : ℕ) (ch : Channel) (s : State) : Prop :=
  ch.opened = true ∧
    (s.escrow.channels c = ch ∨ s.escrow.channels c = { ch with consumed := true })

/-- A channel with these terms is open or closed, but was opened. -/
theorem OpenedWith.opened {c : ℕ} {ch : Channel} (h : OpenedWith c ch s) :
    (s.escrow.channels c).opened = true := by
  rcases h.2 with hc | hc
  · rw [hc, h.1]
  · rw [hc]
    exact h.1

/-- A channel that is not closed has its terms. -/
theorem OpenedWith.eq {c : ℕ} {ch : Channel} (h : OpenedWith c ch s)
    (hn : (s.escrow.channels c).consumed = false) : s.escrow.channels c = ch := by
  rcases h.2 with hc | hc
  · exact hc
  · rw [hc] at hn
    cases hn

/-- A primitive keeps the terms of a channel. -/
theorem OpenedWith.prim {c : ℕ} {ch : Channel} {p : Prim} (hI : OpenedWith c ch s)
    (h : p.run E s = .ok s') : OpenedWith c ch s' := by
  by_cases hp : ∃ k ch', p = .openChannel k ch'
  · obtain ⟨k, ch', rfl⟩ := hp
    have hopened := hI.opened
    simp only [Prim.run, bind_eq_ok, require_eq_ok, exists_unit, pure_eq_ok] at h
    obtain ⟨hfresh, rfl⟩ := h
    -- a channel that is open is not opened again
    have hne : c ≠ k := by
      rintro rfl
      rw [hopened] at hfresh
      cases hfresh
    simpa [OpenedWith, State.setChannel, hne] using hI
  · push Not at hp
    refine ⟨hI.1, ?_⟩
    rcases Prim.run_channels hp h c with h1 | h1
    · rw [h1]
      exact hI.2
    · rcases hI.2 with h2 | h2
      · exact .inr (by rw [h1, h2])
      · exact .inr (by rw [h1, h2])

/-- **Invariant.** The terms of a channel stay. -/
theorem preserves_openedWith (c : ℕ) (ch : Channel) : Preserves (machine E) fun _ w => OpenedWith c ch w.1 :=
  preserves_state (fun hI h => hI.prim h) (fun _ _ _ hI => hI) fun {s s'} hI hc => by
    rw [OpenedWith, hc.channels]
    exact hI

/-! ## Stream notes -/

/-- `_adjustNoteSupply` of the asset accepts the delta, or is not called. -/
def Adjusts (E : Env) (s : State) (assetId : ℕ) (delta : ℤ) : Prop :=
  delta = 0 ∨ (s.pool.assetToken assetId ≠ 0 ∧ s.pool.noteSupplyOf assetId + delta < 2 ^ 255 ∧
    0 ≤ s.pool.noteSupplyOf assetId + delta ∧
    s.pool.noteSupplyOf assetId + delta ≤ s.poolBalance E (s.pool.assetToken assetId))

/-- **`streamInsert` goes through** for an authorized contract when the supply can take the delta and
the tree has room. -/
theorem State.streamInsert_of (s : State) (sender : Address) (assetId c : ℕ) (delta : ℤ)
    (hpool : s.pool.access.paused = false)
    (hauth : s.pool.authorizedStreamContract sender = true) (hT : TreeInv E s) (hc : c < bn254)
    (hroom : s.pool.tree.leaves.length < 2 ^ E.levels) (hadj : Adjusts E s assetId delta) :
    ∃ s', s.streamInsert E sender assetId c delta = .ok s' ∧ TreeInv E s' ∧
      s'.pool.tree.leaves = s.pool.tree.leaves ++ [c] ∧ s'.escrow = s.escrow ∧
      s'.registry = s.registry ∧ s'.balance = s.balance ∧
      s'.pool.noteSupplyOf = Function.update s.pool.noteSupplyOf assetId
        (s.pool.noteSupplyOf assetId + delta) := by
  obtain ⟨⟨k, t⟩, hins⟩ := (IncrementalMerkleTree.insert_ok_iff hT c).2 ⟨hc, hroom⟩
  obtain ⟨hT', hleaves, -⟩ := IncrementalMerkleTree.insert_inv hT hins
  -- the state after the adjustment, which leaves the tree alone
  obtain ⟨s₁, hrun, htree, hescrow, hreg, hbal, hsup⟩ : ∃ s₁ : State,
      (∀ r, s₁.insert E c = .ok r → s.streamInsert E sender assetId c delta = .ok r.2) ∧
      s₁.pool.tree = s.pool.tree ∧ s₁.escrow = s.escrow ∧ s₁.registry = s.registry ∧
      s₁.balance = s.balance ∧ s₁.pool.noteSupplyOf = Function.update s.pool.noteSupplyOf assetId
        (s.pool.noteSupplyOf assetId + delta) := by
    by_cases hd : delta = 0
    · refine ⟨s, fun r hr => ?_, rfl, rfl, rfl, rfl, by simp [hd]⟩
      simp only [State.streamInsert, Access.whenNotPaused, require_of hpool, require_of hauth, hd,
        ne_eq, not_true_eq_false, if_false, hr, ok_bind]
      rfl
    · refine ⟨{ s with pool := { s.pool with
        noteSupplyOf := Function.update s.pool.noteSupplyOf assetId
          (s.pool.noteSupplyOf assetId + delta) } }, fun r hr => ?_, rfl, rfl, rfl, rfl, rfl⟩
      have hok := (State.adjustNoteSupply_eq_ok (s := s)).2 ⟨hadj.resolve_left hd, rfl⟩
      simp only [State.streamInsert, Access.whenNotPaused, require_of hpool, require_of hauth, ne_eq,
        hd, not_false_eq_true, if_true, hok, hr, ok_bind]
      rfl
  have hinsert : s₁.insert E c = .ok (k, { s₁ with pool := { s₁.pool with tree := t } }) :=
    State.insert_eq_ok.2 ⟨t, htree ▸ hins, rfl⟩
  exact ⟨{ s₁ with pool := { s₁.pool with tree := t } }, hrun _ hinsert, hT', hleaves, hescrow, hreg,
    hbal, hsup⟩

/-! ## The two calls -/

/-- The escrow takes openings and reclaims: nothing it needs is paused, it may spend and insert, and
the tree has room for one leaf. -/
structure Streams (E : Env) (s : State) : Prop where
  escrow : s.escrow.access.paused = false
  pool : s.pool.access.paused = false
  stream : s.pool.authorizedStreamContract E.escrow = true
  room : s.pool.tree.leaves.length < 2 ^ E.levels

/-- **An opening that passes its checks goes through** when the supply covers the cap: the nullifier
hash is spent, the change is the next leaf, and the channel has the terms of the signals. -/
theorem open_call (hS : Streams E s) (hreg : s.registry.access.paused = false)
    (hauth : s.registry.authorized E.escrow = true) (hT : TreeInv E s) {e : Entry E}
    {proof : Groth16Proof} {pub : StreamOpenPub ℕ} {K : List (Pending State (Entry E) Kont)}
    (he : e.call = .open proof pub) (hc : e.call.Checks E e.sender s)
    (hn : s.registry.spent pub.inputNullifierHash = false)
    (hadj : Adjusts E s pub.assetId (-pub.cap)) (tr : List (Frame State (Entry E) Kont)) :
    ∃ w', call? (machine E) e [] K (s, tr) = some w' ∧ TreeInv E w'.1 ∧
      w'.1.registry.spent = Function.update s.registry.spent pub.inputNullifierHash true ∧
      w'.1.pool.tree.leaves = s.pool.tree.leaves ++ [pub.changeCommitment] ∧
      OpenedWith pub.channelId ⟨pub.payerAx, pub.payerAy, pub.cap, pub.expiry, pub.reclaimCommitment,
        pub.assetId, true, false⟩ w'.1 ∧
      w'.1.pool.noteSupplyOf = Function.update s.pool.noteSupplyOf pub.assetId
        (s.pool.noteSupplyOf pub.assetId - pub.cap) ∧ w'.1.balance = s.balance := by
  rw [he] at hc
  obtain ⟨hop, hdomain, hassoc, hroot, hver, hstream⟩ := hc
  have hlt := E.lt_of_verifyProof hver
  have hcap : int256 pub.cap = pub.cap := int256_of_lt (hlt _ (by simp [StreamOpenPub.toList]))
  -- the state after the spend and the entry of the channel
  obtain ⟨s₂, hs₂⟩ : ∃ s₂ : State, s₂ = State.setChannel { s with
      registry := { s.registry with
        spent := Function.update s.registry.spent pub.inputNullifierHash true }
      events := s.events ++ [.nullifierSpent E.escrow pub.inputNullifierHash] } pub.channelId
    ⟨pub.payerAx, pub.payerAy, pub.cap, pub.expiry, pub.reclaimCommitment, pub.assetId, true,
      false⟩ := ⟨_, rfl⟩
  have hspend : s.spend E.escrow pub.inputNullifierHash = .ok { s with
      registry := { s.registry with
        spent := Function.update s.registry.spent pub.inputNullifierHash true }
      events := s.events ++ [.nullifierSpent E.escrow pub.inputNullifierHash] } :=
    State.spend_eq_ok.2 ⟨⟨hreg, hauth, hn⟩, rfl⟩
  have hpool : s₂.pool = s.pool := by
    rw [hs₂]
    rfl
  have hbalance : s₂.balance = s.balance := by
    rw [hs₂]
    rfl
  obtain ⟨s₃, hins, hT', hleaves, hescrow, hregistry, hbal, hsup⟩ :=
    s₂.streamInsert_of E.escrow pub.assetId pub.changeCommitment (-pub.cap)
      (by rw [hpool]; exact hS.pool)
      (by rw [hpool]; exact hS.stream) (by rw [TreeInv, hpool]; exact hT)
      (hlt _ (by simp [StreamOpenPub.toList])) (by rw [hpool]; exact hS.room)
      (by rw [Adjusts, hpool, State.poolBalance, hbalance]; exact hadj)
  have hopen : s.openChannel E proof pub = .ok (s₃.emit
      (.channelOpened pub.channelId pub.cap pub.expiry pub.changeCommitment)) := by
    simp only [State.openChannel, Access.whenNotPaused, require_of hS.escrow, require_of hop,
      require_of hdomain, require_of hassoc, State.requireKnownRoot, require_of hroot,
      require_of hver, hspend, hcap, ← hs₂, hins, ok_bind]
    rfl
  have hcall : call? (machine E) e [] K (s, tr) = some (s₃.emit
      (.channelOpened pub.channelId pub.cap pub.expiry pub.changeCommitment), tr ++ [⟨e, s, s₃.emit
        (.channelOpened pub.channelId pub.cap pub.expiry pub.changeCommitment), []⟩]) := by
    simp only [call?, machine, enter, he, hopen, ok_bind]
    rfl
  refine ⟨_, hcall, hT', ?_, ?_, ⟨rfl, .inl ?_⟩, ?_, ?_⟩
  · show s₃.registry.spent = _
    rw [hregistry, hs₂]
    rfl
  · show s₃.pool.tree.leaves = _
    rw [hleaves, hpool]
  · show s₃.escrow.channels _ = _
    rw [hescrow, hs₂]
    simp [State.setChannel]
  · show s₃.pool.noteSupplyOf = _
    rw [hsup, hpool, sub_eq_add_neg]
  · show s₃.balance = _
    rw [hbal, hbalance]

/-- **A reclaim goes through** once the expiry and the challenge window have passed, while the channel
is not closed and the supply can take the cap: the reclaim note is the next leaf. -/
theorem reclaim_call (hS : Streams E s) (hT : TreeInv E s) {e : Entry E} {c : ℕ} {ch : Channel}
    {K : List (Pending State (Entry E) Kont)} (he : e.call = .reclaim c) (hop : OpenedWith c ch s)
    (hn : (s.escrow.channels c).consumed = false) (hword : ch.expiry + E.challengeWindow < 2 ^ 256)
    (hlate : ch.expiry + E.challengeWindow < s.block) (hcap : ch.cap < bn254)
    (hcommit : ch.reclaimCommitment < bn254) (hadj : Adjusts E s ch.assetId ch.cap)
    (tr : List (Frame State (Entry E) Kont)) :
    ∃ w', call? (machine E) e [] K (s, tr) = some w' ∧ TreeInv E w'.1 ∧
      w'.1.registry = s.registry ∧
      w'.1.pool.tree.leaves = s.pool.tree.leaves ++ [ch.reclaimCommitment] ∧
      (w'.1.escrow.channels c).consumed = true ∧
      w'.1.pool.noteSupplyOf = Function.update s.pool.noteSupplyOf ch.assetId
        (s.pool.noteSupplyOf ch.assetId + ch.cap) ∧ w'.1.balance = s.balance := by
  have hch := hop.eq hn
  rw [hch] at hn
  obtain ⟨s₁, hs₁⟩ : ∃ s₁ : State, s₁ = s.setChannel c { ch with consumed := true } := ⟨_, rfl⟩
  have hpool : s₁.pool = s.pool := by
    rw [hs₁]
    rfl
  have hbalance : s₁.balance = s.balance := by
    rw [hs₁]
    rfl
  obtain ⟨s₂, hins, hT', hleaves, hescrow, hregistry, hbal, hsup⟩ :=
    s₁.streamInsert_of E.escrow ch.assetId ch.reclaimCommitment ch.cap
      (by rw [hpool]; exact hS.pool)
      (by rw [hpool]; exact hS.stream) (by rw [TreeInv, hpool]; exact hT) hcommit
      (by rw [hpool]; exact hS.room)
      (by rw [Adjusts, hpool, State.poolBalance, hbalance]; exact hadj)
  have hreclaim : s.reclaim E c =
      .ok (s₂.emit (.channelReclaimed c ch.cap ch.reclaimCommitment)) := by
    simp only [State.reclaim, Access.whenNotPaused, require_of hS.escrow, hch, require_of hop.1,
      require_of hn, require_of hword, require_of hlate, int256_of_lt hcap, ← hs₁, hins, ok_bind]
    rfl
  have hcall : call? (machine E) e [] K (s, tr) = some (s₂.emit
      (.channelReclaimed c ch.cap ch.reclaimCommitment), tr ++ [⟨e, s, s₂.emit
        (.channelReclaimed c ch.cap ch.reclaimCommitment), []⟩]) := by
    simp only [call?, machine, enter, he, hreclaim, ok_bind]
    rfl
  refine ⟨_, hcall, hT', ?_, ?_, ?_, ?_, ?_⟩
  · show s₂.registry = _
    rw [hregistry, hs₁]
    rfl
  · show s₂.pool.tree.leaves = _
    rw [hleaves, hpool]
  · show (s₂.escrow.channels c).consumed = true
    rw [hescrow, hs₁]
    simp [State.setChannel]
  · show s₂.pool.noteSupplyOf = _
    rw [hsup, hpool]
  · show s₂.balance = _
    rw [hbal, hbalance]

/-! ## Streams -/

/-- What the payer asks of the builder. -/
structure StreamTerms where
  channelId : ℕ
  payerAx : ℕ
  payerAy : ℕ
  cap : ℕ
  expiry : ℕ

/-- The terms are field elements. -/
structure StreamTerms.Canonical (t : StreamTerms) : Prop where
  channelId : t.channelId < bn254
  payerAx : t.payerAx < bn254
  payerAy : t.payerAy < bn254
  expiry : t.expiry < bn254

/-- The input of the builder for a coin. -/
def openingOf (E : Env) (l : Located) (c : Bn254Coin) (t : StreamTerms) : StreamOpenInput where
  toLocated := l
  inCoin := c
  channelId := t.channelId
  payerAx := t.payerAx
  payerAy := t.payerAy
  cap := t.cap
  expiry := t.expiry
  poolId := E.poolId
  chainId := E.chainId

/-- The words of public signals. -/
def openWords (E : Env) (x : StreamOpenProverInput) : StreamOpenPub ℕ :=
  (x.publicSignals E.poseidon).map ZMod.val

/-- The words that the payer sends. -/
theorem words_openingOf (hE : E.Provable) {l : Located} {c change reclaim : Bn254Coin}
    {t : StreamTerms} {paths : Paths} (h : paths.Spend E.poseidon E.levels l c) (ht : t.Canonical)
    (hasset : c.assetId < bn254) (hcap : t.cap < bn254) (hchange : change.Minted E.poseidon)
    (hreclaim : reclaim.Minted E.poseidon) :
    openWords E ((openingOf E l c t).input paths change reclaim) =
      { inputNullifierHash := noteKey E c.note
        changeCommitment := change.commitment
        reclaimCommitment := reclaim.commitment
        stateRoot := Merkle.root E.hashLeftRight 0 E.levels l.stateLeaves
        associationRoot := Merkle.root (wordHash E.poseidon) 0 associationDepth l.assocLabels
        poolId := E.poolId
        chainId := E.chainId
        channelId := t.channelId
        payerAx := t.payerAx
        payerAy := t.payerAy
        cap := t.cap
        expiry := t.expiry
        assetId := c.assetId } := by
  simp only [openWords, StreamOpenPub.map, StreamOpenProverInput.publicSignals, StreamOpenInput.input,
    openingOf]
  rw [val_nullifierHash h, val_stateRoot h, val_associationRoot h, val_word hchange.lt,
    val_word hreclaim.lt, val_int hE.poolId, val_int hE.chainId, val_int ht.channelId,
    val_int ht.payerAx, val_int ht.payerAy, val_word hcap, val_int ht.expiry, val_word hasset]

/-- The coins that the builder draws for the payer. -/
def StreamTerms.changeCoin (t : StreamTerms) (E : Env) (c : Bn254Coin) (o : OutputOpening ℕ) :
    Bn254Coin :=
  generateCoin E.poseidon (c.value - t.cap) c.assetId o.label o.nullifier o.secret

def StreamTerms.reclaimCoin (t : StreamTerms) (E : Env) (c : Bn254Coin) (o : OutputOpening ℕ) :
    Bn254Coin :=
  generateCoin E.poseidon t.cap c.assetId o.label o.nullifier o.secret

/-- **The payer gets the money back.** In every state that a run reaches between transactions, the
holder of an unspent coin on the allow list can put a part of it into a fresh channel: the builder
returns, its assignment satisfies the circuit, and with a proof that the verifier accepts the call
goes through. From then on, whatever happens, the change is held until its nullifier hash is spent;
and in every state in which nobody has closed the channel, after the expiry and the challenge window,
a reclaim by anyone goes through if the supply can take the cap, and the payer holds the whole cap. -/
theorem honest_stream {s₀ : State} {w : World State (Entry E) Kont} (hP : Ideal E A)
    (hlaw : ∀ x w, A.mpcLaw x w → w.outValueA.val + w.outValueB.val ≤ w.valueA.val + w.valueB.val)
    (hE : E.Provable) (hreb : E.rebasing = false) (hd : Deployed E s₀) (hG : Guarded E A s₀)
    (hr : Reach ((machine E).within fun s => Guarded E A s ∧ ByHash E s) [] (s₀, []) [] w)
    {c : Bn254Coin} {i j : ℕ} {labels : List ℕ} (hc : Holds E A w.1 c i)
    (hl : Allows E w.1 labels c j) (hS : Serves E w.1) (hSt : Streams E w.1)
    (hauth : w.1.registry.authorized E.escrow = true) {t : StreamTerms} (ht : t.Canonical)
    (hcap : t.cap ≤ c.value) (hfresh : (w.1.escrow.channels t.channelId).opened = false)
    {change reclaim : OutputOpening ℕ}
    (hchange : (t.changeCoin E c change).note.Hashed E.poseidon A.hashed)
    (hreclaim : (t.reclaimCoin E c reclaim).note.Hashed E.poseidon A.hashed) :
    ∃ x, buildStreamOpen E.poseidon E.levels (openingOf E (locate w.1 i labels j) c t) change
        reclaim = .ok (x, t.changeCoin E c change, t.reclaimCoin E c reclaim) ∧
      StreamOpen E.poseidon E.levels associationDepth (x.publicSignals E.poseidon)
        x.privateSignals ∧
      ∀ (e : Entry E) proof, e.call = .open proof (openWords E x) →
        E.groth16 w.1.escrow.openVerifier proof (openWords E x).toList = true →
        ∃ w', call? (machine E) e [] [] w = some w' ∧
          w'.1.registry.spent = Function.update w.1.registry.spent (noteKey E c.note) true ∧
          ∀ K' w'', Reach (machine E) [] w' K' w'' →
            (w''.1.registry.spent (noteKey E (t.changeCoin E c change).note) = false →
              Holds E A w''.1 (t.changeCoin E c change) w.1.pool.tree.leaves.length) ∧
            ((w''.1.escrow.channels t.channelId).consumed = false → Streams E w''.1 →
              t.expiry + E.challengeWindow < w''.1.block →
              t.expiry + E.challengeWindow < 2 ^ 256 → Adjusts E w''.1 c.assetId t.cap →
              ∀ e' : Entry E, e'.call = .reclaim t.channelId →
                ∃ w₁, call? (machine E) e' [] K' w'' = some w₁ ∧
                  ∀ K₁ w₂, Reach (machine E) K' w₁ K₁ w₂ →
                    w₂.1.registry.spent (noteKey E (t.reclaimCoin E c reclaim).note) = false →
                    Holds E A w₂.1 (t.reclaimCoin E c reclaim)
                      w''.1.pool.tree.leaves.length) := by
  obtain ⟨hT, hword, hsup, hreg, hback⟩ := hc.funded hP hlaw hreb hd hG hr
  have hval := hc.value
  obtain ⟨paths, _, _, hpaths, rfl, rfl, hbuild, hsat⟩ := buildStreamOpen_sat
    (p := openingOf E (locate w.1 i labels j) c t) (hc.spendable hE hT hl) hval hcap change reclaim
  refine ⟨_, hbuild, hsat, fun e proof he hver => ?_⟩
  have hwide : 2 ^ 253 < bn254 := WideModulus.wide
  have hpaths' : paths.Spend E.poseidon E.levels (locate w.1 i labels j) c := hpaths
  have hgchange : Genuine E A (t.changeCoin E c change) :=
    ⟨generateCoin_minted .., hc.assetId, lt_of_le_of_lt (Nat.sub_le _ _) hval, hchange⟩
  have hgreclaim : Genuine E A (t.reclaimCoin E c reclaim) :=
    ⟨generateCoin_minted .., hc.assetId, lt_of_le_of_lt hcap hval, hreclaim⟩
  rw [openWords, StreamOpenPub.toList_map, ← E.verifyProof_val, ← StreamOpenPub.toList_map,
    ← openWords] at hver
  have hwords := words_openingOf hE hpaths' ht hc.assetId (by omega) hgchange.minted
    hgreclaim.minted
  replace he := he.trans (congrArg (Call.open proof) hwords)
  replace hver := (congrArg (fun p : StreamOpenPub ℕ =>
    E.verifyProof w.1.escrow.openVerifier proof p.toList) hwords).symm.trans hver
  have hchecks : e.call.Checks E e.sender w.1 := by
    rw [he]
    exact ⟨hfresh, ⟨rfl, rfl⟩, hl.root.symm, hS.isKnownRoot hT, hver, hSt.stream⟩
  have hadj : Adjusts E w.1 c.assetId (-t.cap) := by
    rcases Nat.eq_zero_or_pos t.cap with hzero | hpos
    · exact .inl (by simp [hzero])
    · have hreg := hreg (lt_of_lt_of_le hpos hcap)
      have hlt := hword c.assetId
      have hb := (hback hreg).2
      exact .inr ⟨hreg, by omega, by omega, by omega⟩
  obtain ⟨w', hcall, hT', hspent, hleaves, hopened, -, -⟩ := open_call (K := []) hSt hS.registry
    hauth hT he hchecks hc.unspent hadj w.2
  refine ⟨w', hcall, hspent, fun K' w'' hr' => ⟨fun hn => ?_, ?_⟩⟩
  · refine hgchange.holds_later hT' ?_ hr' hn
    rw [hleaves]
    simp
  · intro hopen hSt' hlate hwd hadj' e' he'
    have hopened' := (preserves_openedWith _ _).reach hopened hr'
    have hT'' : TreeInv E w''.1 := preserves_treeInv.reach hT' hr'
    obtain ⟨w₁, hcall₁, hT₁, -, hleaves₁, -, -, -⟩ := reclaim_call hSt' hT'' he' hopened' hopen hwd
      hlate (by dsimp only; omega) hgreclaim.minted.lt hadj' w''.2
    refine ⟨w₁, hcall₁, fun K₁ w₂ hr₁ hn₁ => hgreclaim.holds_later hT₁ ?_ hr₁ hn₁⟩
    rw [hleaves₁]
    simp

/-! ## A channel of forty -/

/-- The signals of a deposit of 100 and of a channel of 40 out of it. -/
def channeling : Accepted where
  withdraws := []
  deposits := [depositOf note₁ 1]
  mpcs := []
  opens := [openOf note₁ (usdcNote 60 7 11) (usdcNote 40 7 12) [leafOf note₁] [7] 40 4]
  settles := []

/-- What is hashed by the deposit and the opening. -/
def channelHashed : List (List Bn254) :=
  withdrawalHashed ++ (usdcNote 60 7 11).inputs samplePoseidon ++
    (usdcNote 40 7 12).inputs samplePoseidon

def channelKnowledge : Knowledge where
  eddsa := sampleEddsa
  hashed := {l | l ∈ channelHashed}
  mpcLaw _ w := w.outValueA.val + w.outValueB.val ≤ w.valueA.val + w.valueB.val

/-- The hash of the run has no collision on what the run hashes. -/
theorem channel_ideal : Ideal (sampleEnv channeling) channelKnowledge where
  injOn := by
    have : ∀ a ∈ channelHashed, ∀ b ∈ channelHashed,
        samplePoseidon a = samplePoseidon b → a = b := by decide +kernel
    exact fun a ha b hb hab => this a ha b hb hab
  nonzero n hn := by
    have : ∀ a ∈ channelHashed, samplePoseidon a ≠ 0 := by decide +kernel
    exact this _ (hn _ (by simp [Note.inputs]))

/-- The run hashes what the withdrawal did. -/
theorem channel_hashed {l : List Bn254} (h : l ∈ withdrawalKnowledge.hashed) :
    l ∈ channelKnowledge.hashed :=
  List.mem_append_left _ (List.mem_append_left _ h)

/-- The verifiers of the run are sound for their lists. -/
theorem channel_sound : channeling.Sound channelKnowledge where
  withdraw x hx := by cases hx
  deposit x hx := by
    obtain rfl := List.mem_singleton.1 hx
    exact ⟨_, depositOf_sat 1, fun l hl => channel_hashed (coin₁_genuine.hashed l hl)⟩
  mpc x hx := by cases hx
  streamOpen x hx := by
    obtain rfl := List.mem_singleton.1 hx
    refine ⟨_, @openOf_sat [leafOf note₁] [7] 0 0 100 7 1 40 11 12 4 spends_note₁ (by norm_num)
      (by norm_num), hashed_sample (by norm_num) (by norm_num) rfl rfl
        (fun l hl => channel_hashed (coin₁_genuine.hashed l hl))
        (fun q hq => channel_hashed (withdrawal_treeHashed List.prefix_rfl q hq)) ?_, ?_, ?_⟩
    · refine treeHashed_of fun q hq => channel_hashed ?_
      simp [withdrawalKnowledge, withdrawalHashed, hq]
    · exact fun l hl => List.mem_append_left _ (List.mem_append_right _ hl)
    · exact fun _ hl => List.mem_append_right _ hl
  streamSettle x hx := by cases hx

/-- Standard configurations over the first note or nothing meet what solvency assumes. -/
theorem channel_guarded {s : State} (hs : Standard (sampleEnv channeling) s)
    (hl : s.pool.tree.leaves <+: [leafOf note₁]) :
    Guarded (sampleEnv channeling) channelKnowledge s where
  sound := soundAt_sample channel_sound s
  hashed _ hl' q hq := channel_hashed (withdrawal_treeHashed (hl'.trans hl) q hq)
  stream := hs.onlyEscrow

/-- The deposit of the first note. -/
def channelDeposited : World State (Entry (sampleEnv channeling)) Kont :=
  runChecked channeling holdsFirst [depositTx _ note₁ 1]

/-- A cap of 40 under the key `(4, 0)`, until block 5. -/
def fortyTerms : StreamTerms := ⟨3, 4, 0, 40, 5⟩

/-- What the payer asks for. -/
def fortyOf : StreamOpenInput :=
  openingOf (sampleEnv channeling) (locate channelDeposited.1 0 [7] 0) coin₁ fortyTerms

/-- A call of the admin. -/
def channelEntry (c : Call) : Entry (sampleEnv channeling) := ⟨admin, c, admin_ne_pool, admin_ne_escrow⟩

/-- Sixteen blocks later. -/
def sixteenLater (w : World State (Entry (sampleEnv channeling)) Kont) :
    World State (Entry (sampleEnv channeling)) Kont :=
  exec (machine (sampleEnv channeling)) (.act (.mine 16)) [] w

/-- What a reclaim of channel 3 reads of the state. -/
structure ReclaimView where
  escrowPaused : Bool
  poolPaused : Bool
  stream : Bool
  consumed : Bool
  leaves : ℕ
  block : ℕ
  token : Address
  supply : ℤ
  balance : ℕ
deriving DecidableEq

def reclaimView (s : State) : ReclaimView :=
  ⟨s.escrow.access.paused, s.pool.access.paused, s.pool.authorizedStreamContract 2,
    (s.escrow.channels 3).consumed, s.pool.tree.leaves.length, s.block, s.pool.assetToken 11,
    s.pool.noteSupplyOf 11, s.balance usdc 1⟩

/-- The payer opens the channel, nobody closes it, and sixteen blocks later the 40 are reclaimed. -/
theorem honest_stream_forty : ∃ x w' w₁,
    buildStreamOpen samplePoseidon 3 fortyOf ⟨7, 11, 0⟩ ⟨7, 12, 0⟩ = .ok x ∧
    call? (machine (sampleEnv channeling)) (channelEntry (.open someProof
      (openWords (sampleEnv channeling) x.1))) [] [] channelDeposited = some w' ∧
    call? (machine (sampleEnv channeling)) (channelEntry (.reclaim 3)) [] [] (sixteenLater w') =
      some w₁ ∧
    (w₁.1.registry.spent (noteKey (sampleEnv channeling) x.2.2.note) = false →
      Holds (sampleEnv channeling) channelKnowledge w₁.1 x.2.2 2) := by
  have hG : ∀ t, Standard (sampleEnv channeling) t → holdsFirst t = true →
      Guarded (sampleEnv channeling) channelKnowledge t ∧ ByHash (sampleEnv channeling) t := by
    intro t ht hc
    refine ⟨channel_guarded ht ?_, ht.byHash⟩
    rcases of_decide_eq_true hc with h | h
    · rw [h]
      exact List.nil_prefix
    · rw [h]
  have hempty : ∀ t : State, t.pool.tree.leaves = [] → holdsFirst t = true :=
    fun t ht => decide_eq_true (.inl ht)
  have hholds : Holds (sampleEnv channeling) channelKnowledge channelDeposited.1 coin₁ 0 :=
    ⟨⟨coin₁_genuine.minted, coin₁_genuine.assetId, coin₁_genuine.value,
      fun l hl => channel_hashed (coin₁_genuine.hashed l hl)⟩, by decide, by decide⟩
  have hallows : Allows (sampleEnv channeling) channelDeposited.1 [7] coin₁ 0 :=
    ⟨by decide, rfl, by decide +kernel⟩
  have hchange : (fortyTerms.changeCoin (sampleEnv channeling) coin₁ ⟨7, 11, 0⟩).note.Hashed
      samplePoseidon channelKnowledge.hashed :=
    fun l hl => List.mem_append_left _ (List.mem_append_right _ hl)
  have hreclaim : (fortyTerms.reclaimCoin (sampleEnv channeling) coin₁ ⟨7, 12, 0⟩).note.Hashed
      samplePoseidon channelKnowledge.hashed := fun _ hl => List.mem_append_right _ hl
  obtain ⟨x, hx, -, hserve⟩ := honest_stream channel_ideal (fun _ _ h => h)
    ⟨by decide, by decide, by decide⟩ rfl deployed_fresh
    (hG _ standard_fresh (hempty _ deployed_fresh.spec.2.1)).1
    (reach_runChecked hG hempty [depositTx _ note₁ 1]) hholds hallows
    ⟨by decide +kernel, by decide +kernel, by decide, by decide +kernel⟩
    ⟨by decide +kernel, by decide +kernel, by decide +kernel, by decide +kernel⟩
    (by decide +kernel) (t := fortyTerms) ⟨by decide, by decide, by decide, by decide⟩
    (by decide) (by decide +kernel) hchange hreclaim
  have hwords : ((buildStreamOpen samplePoseidon 3 fortyOf ⟨7, 11, 0⟩ ⟨7, 12, 0⟩).toOption.map
      fun r => openWords (sampleEnv channeling) r.1) =
        some (openOf note₁ (usdcNote 60 7 11) (usdcNote 40 7 12) [leafOf note₁] [7] 40 4) := by
    decide
  have hx' : buildStreamOpen samplePoseidon 3 fortyOf ⟨7, 11, 0⟩ ⟨7, 12, 0⟩ = .ok (x, _, _) := hx
  rw [hx'] at hwords
  have hword : openWords (sampleEnv channeling) x =
      openOf note₁ (usdcNote 60 7 11) (usdcNote 40 7 12) [leafOf note₁] [7] 40 4 :=
    Option.some.inj hwords
  obtain ⟨w', hcall, -, hlater⟩ := hserve (channelEntry (.open someProof
    (openWords (sampleEnv channeling) x))) someProof rfl (by
      rw [hword]
      decide)
  have hopen : call? (machine (sampleEnv channeling)) (channelEntry (.open someProof
      (openWords (sampleEnv channeling) x))) [] [] channelDeposited = some w' := hcall
  have hview : (call? (machine (sampleEnv channeling)) (channelEntry (.open someProof
      (openOf note₁ (usdcNote 60 7 11) (usdcNote 40 7 12) [leafOf note₁] [7] 40 4))) [] []
        channelDeposited).map (fun w' => reclaimView (sixteenLater w').1) =
          some ⟨false, false, true, false, 2, 16, usdc, 60, 100⟩ := by decide
  rw [← hword, hopen, Option.map_some, Option.some.injEq] at hview
  simp only [reclaimView, ReclaimView.mk.injEq] at hview
  obtain ⟨hescrow, hpool, hstream, hconsumed, hlen, hblock, htoken, hsup, hbal⟩ := hview
  have hlate : Reach (machine (sampleEnv channeling)) [] w' [] (sixteenLater w') :=
    reach_execAll (machine (sampleEnv channeling)) [.act (.mine 16)] .refl
  have hadjusts : Adjusts (sampleEnv channeling) (sixteenLater w').1 11 40 := by
    have hbal' : (sixteenLater w').1.poolBalance (sampleEnv channeling) usdc = 100 := hbal
    rw [Adjusts, htoken, hsup, hbal']
    exact .inr (by decide)
  obtain ⟨w₁, hreclaim, hheld⟩ := (hlater [] _ hlate).2 hconsumed
    ⟨hescrow, hpool, hstream, by rw [hlen]; decide⟩ (by rw [hblock]; decide) (by decide) hadjusts
    (channelEntry (.reclaim 3)) rfl
  refine ⟨_, w', w₁, hx', hopen, hreclaim, fun hn => ?_⟩
  have := hheld [] w₁ .refl hn
  rwa [hlen] at this

end

end ShadePay.Evm
