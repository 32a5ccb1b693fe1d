import ShadePay.Stellar.ShieldedPool

/-!
# What a successful invocation did

One inversion lemma per entry point of the Soroban pool: from success, the checks that passed and the
state that results, written out as an update of the state before. The checks that the four entry
points on the withdraw circuit share are `WithdrawFamily`, those of the two committee settlements
`MpcFamily`. Everything proved about runs goes through these lemmas.
-/

namespace ShadePay.Stellar

open Guard

/-! ## Internal functions -/

/-- The registry with one more spent nullifier. -/
def Registry.mark (n : Bytes32) (r : Registry) : Registry :=
  { r with spent := Function.update r.spent n true }

/-- The nullifiers that are unspent after one is marked. -/
@[simp] theorem Registry.mark_spent_eq_false {n m : Bytes32} {r : Registry} :
    (r.mark n).spent m = false ↔ m ≠ n ∧ r.spent m = false := by
  by_cases h : m = n
  · subst h
    simp [Registry.mark]
  · simp [Registry.mark, h]

/-- The tree store with one more leaf, under the root of the full tree over all of them. -/
def TreeStore.push (h : Bls12381 → Bls12381 → Bls12381) (c : Bytes32) (t : TreeStore) : TreeStore :=
  let root := frToBytes (Merkle.root h 0 t.depth (LeanIMT.scalars (t.leaves ++ [c])))
  { t with
    leaves := t.leaves ++ [c]
    root := root
    knownRoot := Function.update t.knownRoot root true }

/-- The leaves after one is appended. -/
@[simp] theorem TreeStore.push_leaves (h : Bls12381 → Bls12381 → Bls12381) (c : Bytes32)
    (t : TreeStore) : (t.push h c).leaves = t.leaves ++ [c] := rfl
@[simp] theorem TreeStore.push_depth (h : Bls12381 → Bls12381 → Bls12381) (c : Bytes32)
    (t : TreeStore) : (t.push h c).depth = t.depth := rfl

/-- The number of leaves a tree of a depth holds: `1u32.checked_shl(depth)` or `u32::MAX`. -/
def capacity (depth : ℕ) : ℕ := if depth < 32 then 2 ^ depth else 2 ^ 32 - 1

/-- **`append_leaf`.** Below capacity it appends and computes the root of the full tree. -/
theorem TreeStore.appendLeaf_of_lt {h : Bls12381 → Bls12381 → Bls12381} {c : Bytes32}
    {t : TreeStore} (hroom : t.leaves.length < capacity t.depth) :
    t.appendLeaf h c = .ok ((t.push h c).root, t.push h c) := by
  obtain ⟨hI, hnil⟩ := @LeanIMT.new_inv h t.depth
  obtain ⟨t₁, h1, hI₁, hl₁⟩ := (LeanIMT.insertAll_spec t.leaves hI).1 (by
    rw [hnil, hI.capacity]
    simpa [capacity] using hroom.le)
  rw [hnil, List.nil_append] at hl₁
  obtain ⟨t₂, h2, hI₂, hl₂⟩ := LeanIMT.insert_inv hI₁ (by
    rw [hl₁, hI₁.capacity]
    exact hroom) c
  rw [appendLeaf, h1, Option.bind_some, h2]
  simp only [push, hI₂.root, hl₂, hl₁]

/-- At capacity it fails. -/
theorem TreeStore.appendLeaf_of_le {h : Bls12381 → Bls12381 → Bls12381} {c : Bytes32}
    {t : TreeStore} (hfull : capacity t.depth ≤ t.leaves.length) :
    t.appendLeaf h c = .error .treeFull := by
  obtain ⟨hI, hnil⟩ := @LeanIMT.new_inv h t.depth
  have hcap : (LeanIMT.new h t.depth).capacity = capacity t.depth := hI.capacity
  have hall := (LeanIMT.insertAll_spec t.leaves hI)
  have hnone : (LeanIMT.insertAll h t.leaves (LeanIMT.new h t.depth)).bind (LeanIMT.insert h c) =
      none := by
    rcases Nat.lt_or_ge (capacity t.depth) t.leaves.length with hlt | hge
    · rw [hall.2 (by rw [hnil, hcap]; simpa using hlt), Option.bind_none]
    · obtain ⟨t₁, h1, hI₁, hl₁⟩ := hall.1 (by rw [hnil, hcap]; simpa using hge)
      rw [h1, Option.bind_some]
      refine LeanIMT.insert_full ?_ c
      rw [hI₁.capacity, hl₁, hnil]
      simpa [capacity] using hfull
  rw [appendLeaf, hnone]

/-- A leaf is appended while there is room. -/
@[simp] theorem TreeStore.appendLeaf_eq_ok {h : Bls12381 → Bls12381 → Bls12381} {c r : Bytes32}
    {t t' : TreeStore} : t.appendLeaf h c = .ok (r, t') ↔
      t.leaves.length < capacity t.depth ∧ r = (t.push h c).root ∧ t' = t.push h c := by
  rcases Nat.lt_or_ge t.leaves.length (capacity t.depth) with hroom | hfull
  · rw [appendLeaf_of_lt hroom]
    simp [hroom, eq_comm]
  · rw [appendLeaf_of_le hfull]
    simp [Nat.not_lt.2 hfull]

section
variable {E : Env} {s s' : State}

/-- A nullifier is spent if the registry runs, the pool is authorized and it is new. -/
@[simp] theorem State.spend_eq_ok {n : Bytes32} : s.spend E n = .ok s' ↔
    (s.registry.paused = false ∧ s.registry.authorized E.pool = true ∧
      s.registry.spent n = false) ∧ s' = { s with registry := s.registry.mark n } := by
  simp [State.spend, Registry.spend, Registry.mark, @eq_comm _ s', and_assoc]

/-- A leaf is appended while there is room, and nothing else is touched. -/
@[simp] theorem State.appendLeaf_eq_ok {c r : Bytes32} : s.appendLeaf E c = .ok (r, s') ↔
    s.tree.leaves.length < capacity s.tree.depth ∧ r = (s.tree.push (hash2 E.poseidon) c).root ∧
      s' = { s with tree := s.tree.push (hash2 E.poseidon) c } := by
  simp only [State.appendLeaf, bind_eq_ok, Prod.exists, TreeStore.appendLeaf_eq_ok, pure_eq_ok,
    Prod.mk.injEq]
  constructor
  · rintro ⟨_, _, ⟨hr, rfl, rfl⟩, rfl, rfl⟩
    exact ⟨hr, rfl, rfl⟩
  · rintro ⟨hr, rfl, rfl⟩
    exact ⟨_, _, ⟨hr, rfl, rfl⟩, rfl, rfl⟩

/-- The pool pays what it has. -/
@[simp] theorem State.pay_eq_ok {token a : Address} {amount : ℤ} :
    s.pay E token a amount = .ok s' ↔ (amount ≤ s.poolBalance E token ∧ 0 ≤ amount) ∧
      s' = { s with
        balance := s.moveTokens E token a amount
        payments := s.payments ++ [.transfer token a amount] } := by
  simp [State.pay, @eq_comm _ s', and_assoc]

/-- The token of an asset that is registered. -/
@[simp] theorem State.getAssetToken_eq_ok {id : Bytes32} {t : Address} :
    s.getAssetToken id = .ok t ↔ s.assetToken id = some t := by
  simp [State.getAssetToken]

/-- The supply of a registered asset moves if it stays between zero and the pool's balance. -/
@[simp] theorem State.adjustNoteSupply_eq_ok {id : Bytes32} {delta : ℤ} :
    s.adjustNoteSupply E id delta = .ok s' ↔ ∃ token, s.assetToken id = some token ∧
      s.noteSupply id + delta < 2 ^ 127 ∧ 0 ≤ s.noteSupply id + delta ∧
      s.noteSupply id + delta ≤ s.poolBalance E token ∧
      s' = { s with noteSupply := Function.update s.noteSupply id (s.noteSupply id + delta) } := by
  simp only [State.adjustNoteSupply, bind_eq_ok, State.getAssetToken_eq_ok, checkI128_eq_ok,
    require_eq_ok, exists_unit, pure_eq_ok]
  constructor
  · rintro ⟨token, ht, next, ⟨⟨_, hlt⟩, rfl⟩, h0, hb, rfl⟩
    exact ⟨token, ht, hlt, h0, hb, rfl⟩
  · rintro ⟨token, ht, hlt, h0, hb, rfl⟩
    exact ⟨token, ht, _, ⟨⟨by omega, hlt⟩, rfl⟩, h0, hb, rfl⟩

/-- The check passes for a proof that verifies. -/
@[simp] theorem State.requireVerified_eq_ok {c : Circuit} {v : Address} {proof pub : List UInt8}
    {e : Error} {u : Unit} :
    State.requireVerified E c v proof pub e = .ok u ↔ E.verify c v proof pub = .ok true := by
  simp only [State.requireVerified, bind_eq_ok, require_eq_ok]
  constructor
  · rintro ⟨b, h, rfl⟩
    exact h
  · exact fun h => ⟨true, h, rfl⟩

/-- What an accepted proof says: the signal string parses, and the pairing check passed on its
words as scalars. -/
theorem Env.groth16_of_verify {c : Circuit} {v : Address} {proof pub : List UInt8}
    {signals : List Bytes32} (h : E.verify c v proof pub = .ok true)
    (hp : parsePublicSignals pub = .ok signals) :
    E.groth16 c v proof (signals.map frFromBytes) = true := by
  unfold Env.verify at h
  split at h
  · simp at h
  · simpa [publicFromBytes, hp] using h

/-! ## Checks shared by entry points -/

/-- The checks of the entry points on the withdraw circuit: the words of the signals, the domain and
the two roots, an accepted proof, and a nullifier that is not spent. -/
structure WithdrawFamily (E : Env) (s : State) (proof pub : List UInt8) (signals : List Bytes32)
    (nullifierHash : Bytes32) : Prop where
  parsed : parsePublicSignals pub = .ok signals
  nullifier : signals[0]? = some nullifierHash
  domain : ∃ poolIn chainIn, signals[8]? = some poolIn ∧ signals[9]? = some chainIn ∧
    fr32ToI128 poolIn = s.poolId ∧ fr32ToI128 chainIn = s.chainId
  association : signals[7]? = some (s.assocRoot.getD zeroWord)
  root : ∃ stateRoot, signals[6]? = some stateRoot ∧ s.tree.knownRoot stateRoot = true
  verified : E.verify .withdraw s.verifier proof pub = .ok true
  fresh : s.registry.spent nullifierHash = false

/-- The checks of the two committee settlements. -/
structure MpcFamily (E : Env) (s : State) (c : Circuit) (verifier : Option Address)
    (na nb oa ob batchHash : Bytes32) (proof pub : Option (List UInt8)) (sb : List UInt8)
    (signals : List Bytes32) : Prop where
  given : pub = some sb
  parsed : parsePublicSignals sb = .ok signals
  nullifierA : signals[0]? = some na
  nullifierB : signals[1]? = some nb
  outputA : signals[2]? = some oa
  outputB : signals[3]? = some ob
  root : ∃ stateRoot, signals[4]? = some stateRoot ∧ s.tree.knownRoot stateRoot = true
  association : ∃ r, signals[5]? = some r ∧ s.assocRoot = some r
  batch : signals[6]? = some (hashToField batchHash)
  domain : ∃ poolIn chainIn, signals[7]? = some poolIn ∧ signals[8]? = some chainIn ∧
    fr32ToI128 poolIn = s.poolId ∧ fr32ToI128 chainIn = s.chainId
  verified : ∃ v pb, verifier = some v ∧ proof = some pb ∧ E.verify c v pb sb = .ok true
  freshA : s.registry.spent na = false
  freshB : s.registry.spent nb = false
  distinct : na ≠ nb
  room : s.tree.leaves.length + 1 < capacity s.tree.depth

/-! ## Entry points -/

/-- The pool's tree after `c`. -/
def State.pushed (E : Env) (s : State) (c : Bytes32) : TreeStore := s.tree.push (hash2 E.poseidon) c

/-- What `receive_cctp_deposit` has checked, and what it leaves. -/
theorem State.receiveCctpDeposit_inv {auth : Address → Bool} {sourceDomain i : ℕ}
    {cctpNonce commitment newRoot enc policyId : Bytes32} {asset : Address} {amount : ℤ}
    {proof pub : List UInt8}
    (h : s.receiveCctpDeposit E auth sourceDomain cctpNonce asset amount commitment newRoot enc
      policyId proof pub = .ok (i, s')) :
    ∃ signals : List Bytes32, ∃ v op src dst amount6 amount7 poolIn chainIn,
      parsePublicSignals pub = .ok signals ∧ s.depverifier = some v ∧
      E.verify .deposit v proof pub = .ok true ∧ 0 < amount ∧ signals[0]? = some commitment ∧
      signals[1]? = some op ∧ fr32ToI128 op = 4 ∧
      signals[2]? = some src ∧ fr32ToI128 src = sourceDomain ∧
      signals[3]? = some dst ∧ fr32ToI128 dst = 27 ∧
      signals[6]? = some amount6 ∧ 0 < fr32ToI128 amount6 ∧ amount ≤ fr32ToI128 amount6 * 10 ∧
      signals[7]? = some amount7 ∧ fr32ToI128 amount7 = amount ∧
      signals[8]? = some (E.recipientHash asset) ∧
      signals[12]? = some poolIn ∧ fr32ToI128 poolIn = s.poolId ∧
      signals[13]? = some chainIn ∧ fr32ToI128 chainIn = s.chainId ∧
      s.tree.leaves.length < capacity s.tree.depth ∧ newRoot = (s.pushed E commitment).root ∧
      (∃ token, s.assetToken (E.recipientHash asset) = some token ∧
        0 ≤ s.noteSupply (E.recipientHash asset) + amount ∧
        s.noteSupply (E.recipientHash asset) + amount ≤ s.poolBalance E token) ∧
      i = s.leafCount ∧
      s' = { s with
        tree := s.pushed E commitment
        leafCount := s.leafCount + 1
        deposit := Function.update s.deposit cctpNonce true
        noteSupply := Function.update s.noteSupply (E.recipientHash asset)
          (s.noteSupply (E.recipientHash asset) + amount)
        events := s.events ++ [.deposit sourceDomain cctpNonce asset amount commitment enc policyId
          s.leafCount (s.pushed E commitment).root] } := by
  simp only [State.receiveCctpDeposit, State.requireNotPaused, State.requireAuth, bind_eq_ok,
    require_eq_ok, exists_unit, getSignal_eq_ok, checkI128_eq_ok, State.unwrap_eq_ok,
    State.requireVerified_eq_ok, Prod.exists, State.appendLeaf_eq_ok, State.adjustNoteSupply_eq_ok,
    pure_eq_ok, Prod.mk.injEq] at h
  obtain ⟨-, -, hpos, -, signals, hp, _, h0, h⟩ := h
  obtain ⟨e1, op, h1, hop, src, h2, hsrc, a7, h⟩ := h
  obtain ⟨h7, ha7, dst, h3, hdst, _, -, -, h⟩ := h
  obtain ⟨a6, h6, ha6, _, ⟨-, e2⟩, hle, _, -, h⟩ := h
  obtain ⟨-, _, -, -, _, -, -, _, h⟩ := h
  obtain ⟨h8, e3, _, -, -, p, h12, c, h⟩ := h
  obtain ⟨h13, ⟨hpool, hchain⟩, v, hv, hver, _, s₁, ⟨hroom, e4, e5⟩, h⟩ := h
  obtain ⟨hroot, s₂, ⟨token, ht, hlt, hn0, hnb, e6⟩, e7, e8⟩ := h
  subst e1 e2 e3 e4 e5 e6 e7 e8
  exact ⟨signals, v, op, src, dst, a6, a7, p, c, hp, hv, hver, hpos, h0, h1, hop, h2, hsrc, h3, hdst,
    h6, ha6, hle, h7, ha7, h8, h12, hpool, h13, hchain, hroom, hroot, ⟨token, ht, hn0, hnb⟩, rfl,
    rfl⟩

/-- What `withdraw` has checked, and what it leaves. -/
theorem State.withdraw_inv {auth : Address → Bool} {a : Address} {proof pub : List UInt8}
    (h : s.withdraw E auth a proof pub = .ok s') :
    ∃ signals nh value fee asset token, WithdrawFamily E s proof pub signals nh ∧
      signals[2]? = some value ∧ signals[3]? = some (E.recipientHash a) ∧ signals[4]? = some fee ∧
      signals[17]? = some asset ∧ 0 < fr32ToI128 value ∧ 0 ≤ fr32ToI128 fee ∧
      fr32ToI128 fee ≤ fr32ToI128 value ∧ s.assetToken asset = some token ∧
      fr32ToI128 value - fr32ToI128 fee ≤ s.poolBalance E token ∧
      0 ≤ s.noteSupply asset - fr32ToI128 value ∧
      s.noteSupply asset - fr32ToI128 value ≤
        s.moveTokens E token a (fr32ToI128 value - fr32ToI128 fee) token E.pool ∧
      s' = { s with
        registry := s.registry.mark nh
        balance := s.moveTokens E token a (fr32ToI128 value - fr32ToI128 fee)
        payments := s.payments ++ [.transfer token a (fr32ToI128 value - fr32ToI128 fee)]
        noteSupply := Function.update s.noteSupply asset (s.noteSupply asset - fr32ToI128 value)
        events := s.events ++ [.withdraw a nh (fr32ToI128 value - fr32ToI128 fee)
          (fr32ToI128 fee)] } := by
  simp only [State.withdraw, State.requireNotPaused, State.requireAuth, State.requireNotExpired,
    State.requireKnownRoot, State.checkDomainCompliance, bind_eq_ok, require_eq_ok, exists_unit,
    getSignal_eq_ok, State.requireVerified_eq_ok, State.spend_eq_ok, State.getAssetToken_eq_ok,
    State.pay_eq_ok, State.adjustNoteSupply_eq_ok, pure_eq_ok] at h
  obtain ⟨-, -, signals, hp, _, -, nh, h0, h⟩ := h
  obtain ⟨value, h2, _, h3, fee, h4, _, -, h⟩ := h
  obtain ⟨root, h6, asset, h17, -, ⟨hv, hf, hle⟩, -, e1, h⟩ := h
  obtain ⟨⟨_, h7, p, h8, c, h9, ⟨hpool, hchain⟩, e2⟩, hroot, hver, s₁, ⟨⟨-, -, hfresh⟩, e3⟩, token,
    ht, s₂, h⟩ := h
  obtain ⟨⟨⟨hbal, -⟩, e4⟩, s₃, ⟨token', ht', -, hn0, hnb, e5⟩, e6⟩ := h
  subst e1 e2 e3 e4 e5 e6
  obtain rfl : token = token' := Option.some.inj (ht.symm.trans ht')
  simp only [← sub_eq_add_neg] at hn0 hnb ⊢
  exact ⟨signals, nh, value, fee, asset, token,
    ⟨hp, h0, ⟨p, c, h8, h9, hpool, hchain⟩, h7, ⟨root, h6, hroot⟩, hver, hfresh⟩, h2, h3, h4, h17,
    hv, hf, hle, ht, hbal, hn0, hnb, rfl⟩

/-- What `withdraw_cctp` has checked, and what it leaves. -/
theorem State.withdrawCctp_inv {auth : Address → Bool} {a : Address} {proof pub : List UInt8}
    {dom fin : ℕ} {rcpt : Bytes32} {maxFee out : ℤ}
    (h : s.withdrawCctp E auth a proof pub dom rcpt maxFee fin = .ok (out, s')) :
    ∃ signals nh value fee finality token, WithdrawFamily E s proof pub signals nh ∧
      signals[2]? = some value ∧ signals[14]? = some rcpt ∧ signals[15]? = some fee ∧
      fr32ToI128 fee = maxFee ∧ signals[16]? = some finality ∧ fr32ToI128 finality = fin ∧
      signals[17]? = some (E.recipientHash s.usdc) ∧
      dom = 3 ∧ 0 < fr32ToI128 value ∧ s.assetToken (E.recipientHash s.usdc) = some token ∧
      fr32ToI128 value ≤ s.poolBalance E s.usdc ∧
      0 ≤ s.noteSupply (E.recipientHash s.usdc) - fr32ToI128 value ∧
      s.noteSupply (E.recipientHash s.usdc) - fr32ToI128 value ≤
        Function.update s.balance s.usdc (Function.update (s.balance s.usdc) E.pool
          (s.poolBalance E s.usdc - fr32ToI128 value)) token E.pool ∧
      out = fr32ToI128 value ∧
      s' = { s with
        registry := s.registry.mark nh
        balance := Function.update s.balance s.usdc (Function.update (s.balance s.usdc) E.pool
          (s.poolBalance E s.usdc - fr32ToI128 value))
        payments := s.payments ++ [.burn s.usdc (fr32ToI128 value) dom rcpt maxFee fin]
        noteSupply := Function.update s.noteSupply (E.recipientHash s.usdc)
          (s.noteSupply (E.recipientHash s.usdc) - fr32ToI128 value)
        events := s.events ++ [.cctpout dom a nh rcpt (fr32ToI128 value)] } := by
  simp only [State.withdrawCctp, State.requireNotPaused, State.requireAuth, State.requireNotExpired,
    State.requireKnownRoot, State.checkDomainCompliance, bind_eq_ok, require_eq_ok, exists_unit,
    getSignal_eq_ok, State.requireVerified_eq_ok, State.spend_eq_ok, State.unwrap_eq_ok,
    checkI128_eq_ok, State.adjustNoteSupply_eq_ok, pure_eq_ok, Prod.mk.injEq] at h
  obtain ⟨-, -, signals, hp, _, -, nh, h0, h⟩ := h
  obtain ⟨value, h2, _, -, root, h6, _, h17, h⟩ := h
  obtain ⟨hv, -, e1, -, hdom, _, -, -, h⟩ := h
  obtain ⟨_, h14, e2, fee, h15, hfee, fin', h16, h⟩ := h
  obtain ⟨hfin, ⟨_, h7, p, h8, c, h9, ⟨hpool, hchain⟩, e3⟩, hroot, hver, s₁, ⟨⟨-, -, hfresh⟩, e4⟩,
    _, -, h⟩ := h
  obtain ⟨_, ⟨-, -⟩, hbal, s₂, ⟨token, ht, -, hn0, hnb, e5⟩, e6, e7⟩ := h
  subst e1 e2 e3 e4 e5 e6 e7
  simp only [← sub_eq_add_neg] at hn0 hnb ⊢
  exact ⟨signals, nh, value, fee, fin', token,
    ⟨hp, h0, ⟨p, c, h8, h9, hpool, hchain⟩, h7, ⟨root, h6, hroot⟩, hver, hfresh⟩, h2, h14, h15,
    hfee, h16, hfin, h17, hdom, hv, ht, hbal, hn0, hnb, rfl, rfl⟩

/-- What `rfq_settle` has checked, and what it leaves: the supply is not adjusted. -/
theorem State.rfqSettle_inv {a : Address} {proof pub : List UInt8} {q i f pk : Bytes32}
    {sig : BytesN 64} (h : s.rfqSettle E a proof pub q i f pk sig = .ok s') :
    ∃ signals nh value, WithdrawFamily E s proof pub signals nh ∧ signals[2]? = some value ∧
      0 < fr32ToI128 value ∧ fr32ToI128 value ≤ s.poolBalance E s.usdc ∧
      s' = { s with
        registry := s.registry.mark nh
        balance := s.moveTokens E s.usdc a (fr32ToI128 value)
        payments := s.payments ++ [.transfer s.usdc a (fr32ToI128 value)]
        events := s.events ++ [.rfq q a nh (fr32ToI128 value)] } := by
  simp only [State.rfqSettle, State.requireNotPaused, State.requireNotExpired,
    State.requireKnownRoot, State.checkDomainCompliance, bind_eq_ok, require_eq_ok, exists_unit,
    getSignal_eq_ok, State.requireVerified_eq_ok, State.spend_eq_ok, State.pay_eq_ok,
    pure_eq_ok] at h
  obtain ⟨-, -, -, signals, hp, _, -, nh, h⟩ := h
  obtain ⟨h0, value, h2, _, -, _, -, root, h⟩ := h
  obtain ⟨h6, ⟨hv, -, -⟩, -, -, _, -, -, _, h⟩ := h
  obtain ⟨-, -, _, -, -, ⟨_, h7, p, h8, c, h9, ⟨hpool, hchain⟩, e1⟩, hroot, hver, h⟩ := h
  obtain ⟨s₁, ⟨⟨-, -, hfresh⟩, e2⟩, s₂, ⟨⟨hbal, -⟩, e3⟩, e4⟩ := h
  subst e1 e2 e3 e4
  exact ⟨signals, nh, value,
    ⟨hp, h0, ⟨p, c, h8, h9, hpool, hchain⟩, h7, ⟨root, h6, hroot⟩, hver, hfresh⟩, h2, hv, hbal,
    rfl⟩

/-- What `rfq_settle_atomic_swap` has checked, and what it leaves. -/
theorem State.rfqSettleAtomicSwap_inv {u v : Address} {proof pub : List UInt8}
    {q i f o pk : Bytes32} {qo mo ps : ℤ} {sig : BytesN 64}
    (h : s.rfqSettleAtomicSwap E u v proof pub q i f o qo mo ps pk sig = .ok s') :
    ∃ signals nh value fee asset outToken inToken, WithdrawFamily E s proof pub signals nh ∧
      E.ed25519 pk (E.sha256 (State.swapTerms q o qo mo ps (E.recipientHash u))).bytes sig = true ∧
      signals[2]? = some value ∧ signals[4]? = some fee ∧ signals[17]? = some asset ∧
      signals[10]? = some (hashToField q) ∧
      0 < qo ∧ 0 < fr32ToI128 value ∧ 0 ≤ fr32ToI128 fee ∧ fr32ToI128 fee ≤ fr32ToI128 value ∧
      o ≠ asset ∧ s.assetToken o = some outToken ∧ s.assetToken asset = some inToken ∧
      qo ≤ s.poolBalance E outToken ∧
      0 ≤ s.noteSupply asset - fr32ToI128 value ∧
      (∀ mid : State, mid = { s with balance := s.moveTokens E outToken u qo } →
        s.noteSupply asset - fr32ToI128 value ≤
          mid.moveTokens E inToken v (fr32ToI128 value - fr32ToI128 fee) inToken E.pool) ∧
      s' = { s with
        registry := s.registry.mark nh
        balance := State.moveTokens E inToken v (fr32ToI128 value - fr32ToI128 fee)
          { s with balance := s.moveTokens E outToken u qo }
        payments := s.payments ++ [.transfer outToken u qo,
          .transfer inToken v (fr32ToI128 value - fr32ToI128 fee)]
        noteSupply := Function.update s.noteSupply asset (s.noteSupply asset - fr32ToI128 value)
        events := s.events ++ [.rfqswap q u v nh qo (fr32ToI128 value - fr32ToI128 fee)] } := by
  simp only [State.rfqSettleAtomicSwap, State.requireNotPaused, State.requireNotExpired,
    State.requireKnownRoot, State.checkDomainCompliance, bind_eq_ok, require_eq_ok, exists_unit,
    getSignal_eq_ok, State.requireVerified_eq_ok, State.spend_eq_ok, State.getAssetToken_eq_ok,
    State.pay_eq_ok, State.adjustNoteSupply_eq_ok, pure_eq_ok] at h
  obtain ⟨-, -, ⟨hqo, -, -, -⟩, hsig, signals, hp, _, -, h⟩ := h
  obtain ⟨nh, h0, value, h2, fee, h4, _, -, h⟩ := h
  obtain ⟨root, h6, asset, h17, -, ⟨hv, hf, hle⟩, -, -, h⟩ := h
  obtain ⟨-, hne, _, h10, e1, _, -, -, h⟩ := h
  obtain ⟨_, -, -, ⟨_, h7, p, h8, c, h9, ⟨hpool, hchain⟩, e2⟩, hroot, hver, s₁,
    ⟨⟨-, -, hfresh⟩, e3⟩, h⟩ := h
  obtain ⟨outToken, hout, s₂, ⟨⟨hbal, -⟩, e4⟩, inToken, hin, s₃, ⟨-, e5⟩, h⟩ := h
  obtain ⟨s₄, ⟨token', ht', -, hn0, hnb, e6⟩, e7⟩ := h
  subst e1 e2 e3 e4 e5 e6 e7
  obtain rfl : inToken = token' := Option.some.inj (hin.symm.trans ht')
  simp only [← sub_eq_add_neg] at hn0 hnb ⊢
  refine ⟨signals, nh, value, fee, asset, outToken, inToken,
    ⟨hp, h0, ⟨p, c, h8, h9, hpool, hchain⟩, h7, ⟨root, h6, hroot⟩, hver, hfresh⟩, hsig, h2, h4, h17,
    h10, hqo, hv, hf, hle, hne, hout, hin, hbal, hn0, ?_, ?_⟩
  · rintro _ rfl
    exact hnb
  · simp [State.moveTokens]

/-- What `private_transfer_settle` has checked, and what it leaves. -/
theorem State.privateTransferSettle_inv {auth : Address → Bool} {proof pub : List UInt8}
    {newRoot : Bytes32} (h : s.privateTransferSettle E auth proof pub newRoot = .ok s') :
    ∃ signals : List Bytes32, ∃ nh out v poolIn chainIn, parsePublicSignals pub = .ok signals ∧
      signals[0]? = some nh ∧ signals[1]? = some out ∧
      signals[5]? = some poolIn ∧ signals[6]? = some chainIn ∧ fr32ToI128 poolIn = s.poolId ∧
      fr32ToI128 chainIn = s.chainId ∧ s.xverifier = some v ∧
      E.verify .transfer v proof pub = .ok true ∧ s.registry.spent nh = false ∧
      s.tree.leaves.length < capacity s.tree.depth ∧ newRoot = (s.pushed E out).root ∧
      s' = { s with
        registry := s.registry.mark nh
        tree := s.pushed E out
        leafCount := s.leafCount + 1
        events := s.events ++ [.xfer nh out s.leafCount (s.pushed E out).root] } := by
  simp only [State.privateTransferSettle, State.requireNotPaused, State.requireAuth,
    State.requireKnownRoot, bind_eq_ok, require_eq_ok, exists_unit, getSignal_eq_ok,
    State.unwrap_eq_ok, State.requireVerified_eq_ok, State.spend_eq_ok, Prod.exists,
    State.appendLeaf_eq_ok, pure_eq_ok] at h
  obtain ⟨-, -, signals, hp, nh, h0, out, h1, h⟩ := h
  obtain ⟨_, -, _, -, -, p, h5, c, h⟩ := h
  obtain ⟨h6, ⟨hpool, hchain⟩, -, v, hv, hver, s₁, ⟨⟨-, -, hfresh⟩, e1⟩, h⟩ := h
  obtain ⟨_, s₂, ⟨hroom, e2, e3⟩, hroot, e4⟩ := h
  subst e1 e2 e3 e4
  exact ⟨signals, nh, out, v, p, c, hp, h0, h1, h5, h6, hpool, hchain, hv, hver, hfresh, hroom, hroot,
    rfl⟩

/-- The state after a committee settlement, up to its event. -/
def State.settled (E : Env) (s : State) (na nb oa ob : Bytes32) (e : Event) : State :=
  { s with
    registry := (s.registry.mark na).mark nb
    tree := (s.pushed E oa).push (hash2 E.poseidon) ob
    leafCount := s.leafCount + 2
    events := s.events ++ [e] }

/-- What `mpc_settle` has checked, and what it leaves. -/
theorem State.mpcSettle_inv {na nb oa ob newRoot b : Bytes32} {pks : List Bytes32}
    {sigs : List (BytesN 64)} {proof pub : Option (List UInt8)}
    (h : s.mpcSettle E na nb oa ob newRoot b pks sigs proof pub = .ok s') :
    ∃ sb signals, MpcFamily E s .mpc s.mpcVerifier na nb oa ob b proof pub sb signals ∧
      newRoot = ((s.pushed E oa).push (hash2 E.poseidon) ob).root ∧
      s' = s.settled E na nb oa ob
        (.mpc b na nb oa ob ((s.pushed E oa).push (hash2 E.poseidon) ob).root) := by
  simp only [State.mpcSettle, State.requireNotPaused, State.requireNotExpired,
    State.requireKnownRoot, bind_eq_ok, require_eq_ok, exists_unit, getSignal_eq_ok,
    State.unwrap_eq_ok, State.requireVerified_eq_ok, State.spend_eq_ok, Prod.exists,
    State.appendLeaf_eq_ok, pure_eq_ok] at h
  obtain ⟨-, -, v, hv, pb, hpb, sb, hsb, h⟩ := h
  obtain ⟨hver, signals, hp, _, h0, e1, _, h1, h⟩ := h
  obtain ⟨e2, _, h2, e3, _, h3, e4, root, h⟩ := h
  obtain ⟨h4, hroot, _, h5, assoc, hassoc, e5, _, h⟩ := h
  obtain ⟨h6, e6, p, h7, c, h8, ⟨hpool, hchain⟩, _, h⟩ := h
  obtain ⟨-, -, s₁, ⟨⟨-, -, hfA⟩, e7⟩, s₂, ⟨⟨-, -, hfB⟩, e8⟩, _, s₃, h⟩ := h
  obtain ⟨⟨-, e9, e10⟩, _, s₄, ⟨hroom, e11, e12⟩, hnew, e13⟩ := h
  subst e1 e2 e3 e4 e5 e6 e7 e8 e9 e10 e11 e12 e13
  obtain ⟨hne, hfB⟩ := Registry.mark_spent_eq_false.1 hfB
  exact ⟨sb, signals, ⟨hsb, hp, h0, h1, h2, h3, ⟨root, h4, hroot⟩, ⟨_, h5, hassoc⟩, h6,
    ⟨p, c, h7, h8, hpool, hchain⟩, ⟨v, pb, hv, hpb, hver⟩, hfA, hfB, hne.symm,
    by simpa using hroom⟩, hnew, rfl⟩

/-- What `mpc_settle_priced` has checked, and what it leaves. -/
theorem State.mpcSettlePriced_inv {na nb oa ob newRoot b : Bytes32} {pks : List Bytes32}
    {sigs : List (BytesN 64)} {proof pub : Option (List UInt8)}
    (h : s.mpcSettlePriced E na nb oa ob newRoot b pks sigs proof pub = .ok s') :
    ∃ sb signals, MpcFamily E s .mpcPriced s.mpcPricedVerifier na nb oa ob b proof pub sb signals ∧
      newRoot = ((s.pushed E oa).push (hash2 E.poseidon) ob).root ∧
      s' = s.settled E na nb oa ob
        (.mpcprice b na nb oa ob ((s.pushed E oa).push (hash2 E.poseidon) ob).root) := by
  simp only [State.mpcSettlePriced, State.requireNotPaused, State.requireNotExpired,
    State.requireKnownRoot, bind_eq_ok, require_eq_ok, exists_unit, getSignal_eq_ok,
    State.unwrap_eq_ok, State.requireVerified_eq_ok, State.spend_eq_ok, Prod.exists,
    State.appendLeaf_eq_ok, State.getAssetToken_eq_ok, pure_eq_ok] at h
  obtain ⟨-, -, v, hv, pb, hpb, sb, hsb, h⟩ := h
  obtain ⟨hver, signals, hp, _, h0, e1, _, h1, h⟩ := h
  obtain ⟨e2, _, h2, e3, _, h3, e4, root, h⟩ := h
  obtain ⟨h4, hroot, _, h5, assoc, hassoc, e5, _, h⟩ := h
  obtain ⟨h6, e6, p, h7, c, h8, ⟨hpool, hchain⟩, _, h⟩ := h
  obtain ⟨-, -, _, -, _, -, -, _, h⟩ := h
  obtain ⟨-, _, -, _, -, _, -, s₁, h⟩ := h
  obtain ⟨⟨⟨-, -, hfA⟩, e7⟩, s₂, ⟨⟨-, -, hfB⟩, e8⟩, -, _, s₃, ⟨-, e9, e10⟩, _, h⟩ := h
  obtain ⟨s₄, ⟨hroom, e11, e12⟩, hnew, e13⟩ := h
  subst e1 e2 e3 e4 e5 e6 e7 e8 e9 e10 e11 e12 e13
  obtain ⟨hne, hfB⟩ := Registry.mark_spent_eq_false.1 hfB
  exact ⟨sb, signals, ⟨hsb, hp, h0, h1, h2, h3, ⟨root, h4, hroot⟩, ⟨_, h5, hassoc⟩, h6,
    ⟨p, c, h7, h8, hpool, hchain⟩, ⟨v, pb, hv, hpb, hver⟩, hfA, hfB, hne.symm,
    by simpa using hroom⟩, hnew, rfl⟩

end

end ShadePay.Stellar
