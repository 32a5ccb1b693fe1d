import ShadePay.Committee
import ShadePay.Evm.Effects
import ShadePay.Stellar.Scenario

/-!
# The committee settlements, ported

`mpcSettle` and `mpcSettlePriced` of the Arc pool against `mpc_settle` and `mpc_settle_priced` of the
Soroban pool. `Corresponds` relates a state of the one to a state of the other, `Shared` lists the
checks both ports make, and each entry point is put in the form "`Shared`, and what this port checks
on its own". What is left over is where the ports part (`mpc_port_iff`): the Arc pool never accepts
the root zero, and its priced settlement asks neither that the two assets are registered nor that the
two amounts are positive.
-/

namespace ShadePay

open Guard
open Stellar (Bytes32 BytesN word)

/-! ## What both ports check -/

/-- The signals both committee settlements read, and the whole vector the proof is for. -/
structure MpcTerms where
  signals : List ℕ
  nullifierHashA : ℕ
  nullifierHashB : ℕ
  outputCommitmentA : ℕ
  outputCommitmentB : ℕ
  stateRoot : ℕ
  associationRoot : ℕ
  batchHash : ℕ
  poolId : ℕ
  chainId : ℕ
  deadline : ℕ

def MpcPub.terms (x : MpcPub ℕ) : MpcTerms :=
  ⟨x.toList, x.nullifierHashA, x.nullifierHashB, x.outputCommitmentA, x.outputCommitmentB, x.stateRoot,
    x.associationRoot, x.batchHash, x.poolId, x.chainId, x.deadline⟩

def MpcPricedPub.terms (x : MpcPricedPub ℕ) : MpcTerms :=
  ⟨x.toList, x.nullifierHashA, x.nullifierHashB, x.outputCommitmentA, x.outputCommitmentB, x.stateRoot,
    x.associationRoot, x.batchHash, x.poolId, x.chainId, x.deadline⟩

/-- The vector is canonical in both fields, and its domain and deadline fit `i128`. -/
structure MpcTerms.Canonical (T : MpcTerms) : Prop where
  signals : ∀ x ∈ T.signals, x < bn254
  nullifierA : T.nullifierHashA < bn254
  nullifierB : T.nullifierHashB < bn254
  outputA : T.outputCommitmentA < bn254
  outputB : T.outputCommitmentB < bn254
  root : T.stateRoot < bn254
  association : T.associationRoot < bn254
  batch : T.batchHash < bn254
  poolId : T.poolId < 2 ^ 127
  chainId : T.chainId < 2 ^ 127
  deadline : T.deadline < 2 ^ 127

/-- Verified signals are canonical terms. -/
theorem MpcPub.canonical {x : MpcPub ℕ} (hx : ∀ v ∈ x.toList, v < bn254) (hp : x.poolId < 2 ^ 127)
    (hc : x.chainId < 2 ^ 127) (hd : x.deadline < 2 ^ 127) : x.terms.Canonical := by
  refine ⟨hx, ?_, ?_, ?_, ?_, ?_, ?_, ?_, hp, hc, hd⟩ <;> exact hx _ (by simp [MpcPub.toList, terms])

/-- Verified signals of the priced circuit are canonical terms. -/
theorem MpcPricedPub.canonical {x : MpcPricedPub ℕ} (hx : ∀ v ∈ x.toList, v < bn254)
    (hp : x.poolId < 2 ^ 127) (hc : x.chainId < 2 ^ 127) (hd : x.deadline < 2 ^ 127) :
    x.terms.Canonical := by
  refine ⟨hx, ?_, ?_, ?_, ?_, ?_, ?_, ?_, hp, hc, hd⟩ <;>
    exact hx _ (by simp [MpcPricedPub.toList, terms])

/-- The checks of a committee settlement that both ports make, as the Soroban pool makes them. -/
structure Shared (F : Stellar.Env) (t : Stellar.State) (c : Stellar.Circuit)
    (verifier : Option Stellar.Address) (batchHash : Bytes32) (signers : List Bytes32)
    (signatures : List (BytesN 64)) (proof : List UInt8) (T : MpcTerms) : Prop where
  active : t.paused = false
  quorum : t.verifyCommitteeThreshold F batchHash signers signatures = .ok ()
  verified : ∃ v, verifier = some v ∧
    F.verify c v proof (Stellar.encodeSignals (T.signals.map word)) = .ok true
  root : t.tree.knownRoot (word T.stateRoot) = true
  association : t.assocRoot = some (word T.associationRoot)
  batch : word T.batchHash = Stellar.hashToField batchHash
  poolId : Stellar.fr32ToI128 (word T.poolId) = t.poolId
  chainId : Stellar.fr32ToI128 (word T.chainId) = t.chainId
  deadline : (t.ledger : ℤ) ≤ Stellar.fr32ToI128 (word T.deadline)
  spending : t.registry.paused = false
  authorized : t.registry.authorized F.pool = true
  freshA : t.registry.spent (word T.nullifierHashA) = false
  freshB : t.registry.spent (word T.nullifierHashB) = false
  distinct : word T.nullifierHashA ≠ word T.nullifierHashB
  room : t.tree.leaves.length + 1 < Stellar.capacity t.tree.depth

/-! ## The Soroban port -/

namespace Stellar

variable {F : Env} {t t' : State}

/-- The root after both outputs: the `new_root` the Soroban port asks its caller for. -/
def State.newRoot (F : Env) (t : State) (T : MpcTerms) : Bytes32 :=
  ((t.pushed F (word T.outputCommitmentA)).push (hash2 F.poseidon) (word T.outputCommitmentB)).root

section
variable {b : Bytes32} {pks : List Bytes32} {sigs : List (BytesN 64)} {proof : List UInt8}

/-- When `mpcSettle` of the port succeeds. -/
theorem State.mpcSettle_ok_iff {x : MpcPub ℕ} :
    (∃ t', t.mpcSettle F (word x.nullifierHashA) (word x.nullifierHashB) (word x.outputCommitmentA)
      (word x.outputCommitmentB) (t.newRoot F x.terms) b pks sigs (some proof)
      (some (encodeSignals (x.toList.map word))) = .ok t') ↔
    Shared F t .mpc t.mpcVerifier b pks sigs proof x.terms := by
  have hparse : parsePublicSignals (encodeSignals (x.toList.map word)) = .ok (x.toList.map word) :=
    parsePublicSignals_encodeSignals (by simp)
  have h0 : (x.toList.map word)[0]? = some (word x.nullifierHashA) := rfl
  have h1 : (x.toList.map word)[1]? = some (word x.nullifierHashB) := rfl
  have h2 : (x.toList.map word)[2]? = some (word x.outputCommitmentA) := rfl
  have h3 : (x.toList.map word)[3]? = some (word x.outputCommitmentB) := rfl
  have h4 : (x.toList.map word)[4]? = some (word x.stateRoot) := rfl
  have h5 : (x.toList.map word)[5]? = some (word x.associationRoot) := rfl
  have h6 : (x.toList.map word)[6]? = some (word x.batchHash) := rfl
  have h7 : (x.toList.map word)[7]? = some (word x.poolId) := rfl
  have h8 : (x.toList.map word)[8]? = some (word x.chainId) := rfl
  have h10 : (x.toList.map word)[10]? = some (word x.deadline) := rfl
  simp only [State.mpcSettle, State.requireNotPaused, State.requireNotExpired,
    State.requireKnownRoot, bind_eq_ok, require_eq_ok, exists_unit, getSignal_eq_ok,
    State.unwrap_eq_ok, State.requireVerified_eq_ok, State.spend_eq_ok, Prod.exists,
    State.appendLeaf_eq_ok, pure_eq_ok, hparse, Except.ok.injEq, Option.some.injEq, exists_eq_left',
    h0, h1, h2, h3, h4, h5, h6, h7, h8, h10, true_and]
  constructor
  · rintro ⟨t', hp, hq, v, hv, hver, hroot, _, hassoc, rfl, hb, ⟨hpool, hchain⟩, hdl, s₁,
      ⟨⟨hsp, hau, hfA⟩, rfl⟩, s₂, ⟨⟨-, -, hfB⟩, rfl⟩, _, s₃, ⟨-, -, rfl⟩, _, s₄, ⟨hroom, -, -⟩, -⟩
    obtain ⟨hne, hfB⟩ := Registry.mark_spent_eq_false.1 hfB
    exact ⟨hp, hq, ⟨v, hv, hver⟩, hroot, hassoc, hb, hpool, hchain, hdl, hsp, hau, hfA, hfB, hne.symm,
      by simpa using hroom⟩
  · rintro ⟨hp, hq, ⟨v, hv, hver⟩, hroot, hassoc, hb, hpool, hchain, hdl, hsp, hau, hfA, hfB, hne,
      hroom⟩
    exact ⟨_, hp, hq, v, hv, hver, hroot, _, hassoc, rfl, hb, ⟨hpool, hchain⟩, hdl, _,
      ⟨⟨hsp, hau, hfA⟩, rfl⟩, _, ⟨⟨hsp, hau, Registry.mark_spent_eq_false.2 ⟨hne.symm, hfB⟩⟩, rfl⟩, _, _,
      ⟨Nat.lt_of_succ_lt hroom, rfl, rfl⟩, _, _, ⟨by simpa using hroom, rfl, rfl⟩, rfl, rfl⟩

/-- What the Soroban port checks of a priced settlement on its own. -/
structure State.Priced (t : State) (x : MpcPricedPub ℕ) : Prop where
  assetA : t.assetToken (word x.inputAssetA) ≠ none
  assetB : t.assetToken (word x.inputAssetB) ≠ none
  amountA : 0 < fr32ToI128 (word x.matchedAmountA)
  amountB : 0 < fr32ToI128 (word x.matchedAmountB)

/-- When `mpcSettlePriced` of the port succeeds. -/
theorem State.mpcSettlePriced_ok_iff {x : MpcPricedPub ℕ} :
    (∃ t', t.mpcSettlePriced F (word x.nullifierHashA) (word x.nullifierHashB)
      (word x.outputCommitmentA) (word x.outputCommitmentB) (t.newRoot F x.terms) b pks sigs
      (some proof) (some (encodeSignals (x.toList.map word))) = .ok t') ↔
    Shared F t .mpcPriced t.mpcPricedVerifier b pks sigs proof x.terms ∧
      word x.inputAssetA ≠ word x.inputAssetB ∧ t.Priced x := by
  have hparse : parsePublicSignals (encodeSignals (x.toList.map word)) = .ok (x.toList.map word) :=
    parsePublicSignals_encodeSignals (by simp)
  have h0 : (x.toList.map word)[0]? = some (word x.nullifierHashA) := rfl
  have h1 : (x.toList.map word)[1]? = some (word x.nullifierHashB) := rfl
  have h2 : (x.toList.map word)[2]? = some (word x.outputCommitmentA) := rfl
  have h3 : (x.toList.map word)[3]? = some (word x.outputCommitmentB) := rfl
  have h4 : (x.toList.map word)[4]? = some (word x.stateRoot) := rfl
  have h5 : (x.toList.map word)[5]? = some (word x.associationRoot) := rfl
  have h6 : (x.toList.map word)[6]? = some (word x.batchHash) := rfl
  have h7 : (x.toList.map word)[7]? = some (word x.poolId) := rfl
  have h8 : (x.toList.map word)[8]? = some (word x.chainId) := rfl
  have h9 : (x.toList.map word)[9]? = some (word x.deadline) := rfl
  have h10 : (x.toList.map word)[10]? = some (word x.inputAssetA) := rfl
  have h12 : (x.toList.map word)[12]? = some (word x.inputAssetB) := rfl
  have h14 : (x.toList.map word)[14]? = some (word x.matchedAmountA) := rfl
  have h15 : (x.toList.map word)[15]? = some (word x.matchedAmountB) := rfl
  simp only [State.mpcSettlePriced, State.requireNotPaused, State.requireNotExpired,
    State.requireKnownRoot, bind_eq_ok, require_eq_ok, exists_unit, getSignal_eq_ok,
    State.unwrap_eq_ok, State.requireVerified_eq_ok, State.spend_eq_ok, Prod.exists,
    State.appendLeaf_eq_ok, State.getAssetToken_eq_ok, pure_eq_ok, hparse, Except.ok.injEq,
    Option.some.injEq, exists_eq_left', h0, h1, h2, h3, h4, h5, h6, h7, h8, h9, h10, h12, h14, h15,
    true_and]
  constructor
  · rintro ⟨t', hp, hq, v, hv, hver, hroot, _, hassoc, rfl, hb, ⟨hpool, hchain⟩, hdl, hcross, _, hA,
      _, hB, s₁, ⟨⟨hsp, hau, hfA⟩, rfl⟩, s₂, ⟨⟨-, -, hfB⟩, rfl⟩, ⟨hmA, hmB⟩, _, s₃, ⟨-, -, rfl⟩, _, s₄,
      ⟨hroom, -, -⟩, -⟩
    obtain ⟨hne, hfB⟩ := Registry.mark_spent_eq_false.1 hfB
    exact ⟨⟨hp, hq, ⟨v, hv, hver⟩, hroot, hassoc, hb, hpool, hchain, hdl, hsp, hau, hfA, hfB, hne.symm,
      by simpa using hroom⟩, hcross, by simp [hA], by simp [hB], hmA, hmB⟩
  · rintro ⟨⟨hp, hq, ⟨v, hv, hver⟩, hroot, hassoc, hb, hpool, hchain, hdl, hsp, hau, hfA, hfB, hne,
      hroom⟩, hcross, hA, hB, hmA, hmB⟩
    obtain ⟨_, hA⟩ := Option.ne_none_iff_exists'.1 hA
    obtain ⟨_, hB⟩ := Option.ne_none_iff_exists'.1 hB
    exact ⟨_, hp, hq, v, hv, hver, hroot, _, hassoc, rfl, hb, ⟨hpool, hchain⟩, hdl, hcross, _, hA, _, hB,
      _, ⟨⟨hsp, hau, hfA⟩, rfl⟩, _, ⟨⟨hsp, hau, Registry.mark_spent_eq_false.2 ⟨hne.symm, hfB⟩⟩, rfl⟩,
      ⟨hmA, hmB⟩, _, _, ⟨Nat.lt_of_succ_lt hroom, rfl, rfl⟩, _, _, ⟨by simpa using hroom, rfl, rfl⟩, rfl,
      rfl⟩

end

end Stellar

/-! ## The Arc port -/

namespace Evm

variable {E : Env} {s s' : State}

/-- What the two spends and the two insertions ask for. -/
structure State.PairOk (E : Env) (s : State) (T : MpcTerms) : Prop where
  spending : s.registry.access.paused = false
  authorized : s.registry.authorized E.pool = true
  freshA : s.registry.spent T.nullifierHashA = false
  freshB : s.registry.spent T.nullifierHashB = false
  distinct : T.nullifierHashA ≠ T.nullifierHashB
  outputA : T.outputCommitmentA < bn254
  outputB : T.outputCommitmentB < bn254
  room : s.pool.tree.leaves.length + 1 < 2 ^ E.levels

/-- The spent nullifiers and the leaves after the pair. -/
structure State.Paired (s s' : State) (T : MpcTerms) : Prop where
  spent : s'.registry.spent =
    Function.update (Function.update s.registry.spent T.nullifierHashA true) T.nullifierHashB true
  leaves : s'.pool.tree.leaves =
    s.pool.tree.leaves ++ [T.outputCommitmentA, T.outputCommitmentB]

/-- When the two spends and the two insertions go through, and what they leave. -/
theorem State.settlePair_spec {b : ℕ} {T : MpcTerms}
    (hI : IncrementalMerkleTree.Inv E.hashLeftRight E.levels s.pool.tree) :
    ((∃ s', s.settlePair E b T.nullifierHashA T.nullifierHashB T.outputCommitmentA
      T.outputCommitmentB = .ok s') ↔ s.PairOk E T) ∧
    ∀ s', s.settlePair E b T.nullifierHashA T.nullifierHashB T.outputCommitmentA
      T.outputCommitmentB = .ok s' → s.Paired s' T := by
  simp only [State.settlePair, bind_eq_ok, State.spend_eq_ok, Prod.exists, State.insert_eq_ok,
    pure_eq_ok]
  refine ⟨⟨?_, ?_⟩, ?_⟩
  · rintro ⟨s', _, ⟨⟨hsp, hau, hfA⟩, rfl⟩, _, ⟨⟨-, -, hfB⟩, rfl⟩, i, _, ⟨t₁, h1, rfl⟩, j, _,
      ⟨t₂, h2, rfl⟩, -⟩
    obtain ⟨hI₁, hl₁, -⟩ := IncrementalMerkleTree.insert_inv hI h1
    have hA := (IncrementalMerkleTree.insert_ok_iff hI _).1 ⟨_, h1⟩
    have hB := (IncrementalMerkleTree.insert_ok_iff hI₁ _).1 ⟨_, h2⟩
    have hne : T.nullifierHashB ≠ T.nullifierHashA := by
      intro he
      simp [he] at hfB
    refine ⟨hsp, hau, hfA, ?_, hne.symm, hA.1, hB.1, ?_⟩
    · simpa [Function.update_of_ne hne] using hfB
    · simpa [hl₁] using hB.2
  · rintro ⟨hsp, hau, hfA, hfB, hne, hA, hB, hroom⟩
    obtain ⟨⟨i, t₁⟩, h1⟩ := (IncrementalMerkleTree.insert_ok_iff hI _).2 ⟨hA, by omega⟩
    obtain ⟨hI₁, hl₁, -⟩ := IncrementalMerkleTree.insert_inv hI h1
    obtain ⟨⟨j, t₂⟩, h2⟩ := (IncrementalMerkleTree.insert_ok_iff hI₁ _).2
      ⟨hB, by simpa [hl₁] using hroom⟩
    exact ⟨_, _, ⟨⟨hsp, hau, hfA⟩, rfl⟩, _,
      ⟨⟨hsp, hau, by simpa [Function.update_of_ne hne.symm] using hfB⟩, rfl⟩, i, _, ⟨t₁, h1, rfl⟩, j, _,
      ⟨t₂, h2, rfl⟩, rfl⟩
  · rintro s' ⟨_, ⟨-, rfl⟩, _, ⟨-, rfl⟩, i, _, ⟨t₁, h1, rfl⟩, j, _, ⟨t₂, h2, rfl⟩, rfl⟩
    obtain ⟨hI₁, hl₁, -⟩ := IncrementalMerkleTree.insert_inv hI h1
    obtain ⟨-, hl₂, -⟩ := IncrementalMerkleTree.insert_inv hI₁ h2
    exact ⟨rfl, by simp [State.emit, hl₂, hl₁]⟩

/-- The checks of the Arc port that do not look at the tree's room or at the nullifiers, the root
zero apart. -/
structure State.MpcOk (E : Env) (s : State) (verifier : Address) (batchHash : ℕ)
    (signers : List ℕ) (signatures : List (List UInt8)) (proof : Groth16Proof) (T : MpcTerms) :
    Prop where
  active : s.pool.access.paused = false
  quorum : verifyThreshold (E.ed25519 s.pool.ed25519Verifier) s.pool.committee batchHash signers
    signatures = .ok ()
  verified : E.verifyProof verifier proof T.signals = true
  root : s.pool.tree.knownRoots T.stateRoot = true
  configured : s.pool.associationRoot ≠ 0
  association : T.associationRoot = s.pool.associationRoot
  batch : T.batchHash = E.hashToField batchHash
  poolId : T.poolId = E.poolId
  chainId : T.chainId = E.chainId
  deadline : s.block ≤ T.deadline

section
variable {b : ℕ} {pks : List ℕ} {sigs : List (List UInt8)} {proof : Groth16Proof}

/-- When `mpcSettle` of the port succeeds. -/
theorem State.mpcSettle_ok_iff {x : MpcPub ℕ}
    (hI : IncrementalMerkleTree.Inv E.hashLeftRight E.levels s.pool.tree) :
    (∃ s', s.mpcSettle E b pks sigs proof x = .ok s') ↔
      s.MpcOk E s.pool.mpcVerifier b pks sigs proof x.terms ∧ s.PairOk E x.terms ∧
        x.stateRoot ≠ 0 := by
  rw [← (State.settlePair_spec (b := b) hI).1]
  simp only [State.mpcSettle, bind_eq_ok, Access.whenNotPaused_eq_ok, require_eq_ok, exists_unit,
    State.requireKnownRoot_eq_ok, State.requireNotExpired_eq_ok, IncrementalMerkleTree.isKnownRoot,
    Bool.and_eq_true, bne_iff_ne]
  constructor
  · rintro ⟨s', hp, hq, hver, ⟨h0, hroot⟩, ⟨hne, hassoc⟩, hb, ⟨hpool, hchain⟩, hdl, h⟩
    exact ⟨⟨hp, hq, hver, hroot, hne, hassoc, hb, hpool, hchain, hdl⟩, ⟨s', h⟩, h0⟩
  · rintro ⟨⟨hp, hq, hver, hroot, hne, hassoc, hb, hpool, hchain, hdl⟩, ⟨s', h⟩, h0⟩
    exact ⟨s', hp, hq, hver, ⟨h0, hroot⟩, ⟨hne, hassoc⟩, hb, ⟨hpool, hchain⟩, hdl, h⟩

/-- When `mpcSettlePriced` of the port succeeds. -/
theorem State.mpcSettlePriced_ok_iff {x : MpcPricedPub ℕ}
    (hI : IncrementalMerkleTree.Inv E.hashLeftRight E.levels s.pool.tree) :
    (∃ s', s.mpcSettlePriced E b pks sigs proof x = .ok s') ↔
      s.MpcOk E s.pool.mpcPricedVerifier b pks sigs proof x.terms ∧ s.PairOk E x.terms ∧
        x.stateRoot ≠ 0 ∧ x.inputAssetA ≠ x.inputAssetB := by
  rw [← (State.settlePair_spec (b := b) hI).1]
  simp only [State.mpcSettlePriced, bind_eq_ok, Access.whenNotPaused_eq_ok, require_eq_ok,
    exists_unit, State.requireKnownRoot_eq_ok, State.requireNotExpired_eq_ok,
    IncrementalMerkleTree.isKnownRoot, Bool.and_eq_true, bne_iff_ne]
  constructor
  · rintro ⟨s', hp, hq, hver, ⟨h0, hroot⟩, ⟨hne, hassoc⟩, hb, ⟨hpool, hchain⟩, hdl, hcross, h⟩
    exact ⟨⟨hp, hq, hver, hroot, hne, hassoc, hb, hpool, hchain, hdl⟩, ⟨s', h⟩, h0, hcross⟩
  · rintro ⟨⟨hp, hq, hver, hroot, hne, hassoc, hb, hpool, hchain, hdl⟩, ⟨s', h⟩, h0, hcross⟩
    exact ⟨s', hp, hq, hver, ⟨h0, hroot⟩, ⟨hne, hassoc⟩, hb, ⟨hpool, hchain⟩, hdl, hcross, h⟩

/-- What a settlement leaves. -/
theorem State.mpcSettle_paired {x : MpcPub ℕ}
    (hI : IncrementalMerkleTree.Inv E.hashLeftRight E.levels s.pool.tree)
    (h : s.mpcSettle E b pks sigs proof x = .ok s') : s.Paired s' x.terms := by
  simp only [State.mpcSettle, bind_eq_ok, exists_unit] at h
  obtain ⟨-, -, -, -, -, -, -, -, h⟩ := h
  exact (State.settlePair_spec hI).2 s' h

/-- What a priced settlement leaves. -/
theorem State.mpcSettlePriced_paired {x : MpcPricedPub ℕ}
    (hI : IncrementalMerkleTree.Inv E.hashLeftRight E.levels s.pool.tree)
    (h : s.mpcSettlePriced E b pks sigs proof x = .ok s') : s.Paired s' x.terms := by
  simp only [State.mpcSettlePriced, bind_eq_ok, exists_unit] at h
  obtain ⟨-, -, -, -, -, -, -, -, -, h⟩ := h
  exact (State.settlePair_spec hI).2 s' h

end

end Evm

/-! ## Corresponding states -/

/-- A verifier of the one port accepts what a verifier of the other accepts, on canonical signals;
`enc` lays out a proof for the Soroban verifier. -/
def SameVerifier (E : Evm.Env) (F : Stellar.Env) (enc : Evm.Groth16Proof → List UInt8)
    (verifier : Evm.Address) (c : Stellar.Circuit) (verifier' : Option Stellar.Address) : Prop :=
  ∃ v, verifier' = some v ∧ ∀ proof (xs : List ℕ), (∀ x ∈ xs, x < bn254) → xs.length < 2 ^ 32 →
    F.verify c v (enc proof) (Stellar.encodeSignals (xs.map word)) =
      .ok (E.verifyProof verifier proof xs)

/-- The two pools hold the same: domain, committee and signature check, verifiers, association root,
known roots, spent nullifiers, registered assets, leaves, height, and switches. Of the roots only
the non-zero ones are compared: the Soroban constructor marks zero as known. -/
structure Corresponds (E : Evm.Env) (F : Stellar.Env) (enc : Evm.Groth16Proof → List UInt8)
    (s : Evm.State) (t : Stellar.State) : Prop where
  tree : Evm.IncrementalMerkleTree.Inv E.hashLeftRight E.levels s.pool.tree
  depth : t.tree.depth = E.levels
  poolId : t.poolId = E.poolId
  chainId : t.chainId = E.chainId
  committee : s.pool.committee = (t.committee.getD []).map BytesN.toNat
  ed25519 : ∀ pk msg sig, F.ed25519 pk msg sig =
    E.ed25519 s.pool.ed25519Verifier pk.toNat msg sig.bytes
  verifier : SameVerifier E F enc s.pool.mpcVerifier .mpc t.mpcVerifier
  pricedVerifier : SameVerifier E F enc s.pool.mpcPricedVerifier .mpcPriced t.mpcPricedVerifier
  associationRoot : t.assocRoot = some (word s.pool.associationRoot)
  associationRoot_ne : s.pool.associationRoot ≠ 0
  associationRoot_lt : s.pool.associationRoot < 256 ^ 32
  knownRoot : ∀ r < 256 ^ 32, r ≠ 0 → t.tree.knownRoot (word r) = s.pool.tree.knownRoots r
  spent : ∀ n < 256 ^ 32, t.registry.spent (word n) = s.registry.spent n
  assets : ∀ a < 256 ^ 32, t.assetToken (word a) ≠ none ↔ s.pool.assetToken a ≠ 0
  leaves : t.tree.leaves = s.pool.tree.leaves.map word
  height : t.ledger = s.block
  paused : t.paused = s.pool.access.paused
  registryPaused : t.registry.paused = s.registry.access.paused
  authorized : t.registry.authorized F.pool = s.registry.authorized E.pool

theorem word_inj {m n : ℕ} (hm : m < 256 ^ 32) (hn : n < 256 ^ 32) (h : word m = word n) : m = n := by
  rw [← Stellar.toNat_word hm, h, Stellar.toNat_word hn]

theorem bn254_lt_word : bn254 < 256 ^ 32 := by decide

namespace Corresponds

variable {E : Evm.Env} {F : Stellar.Env} {enc : Evm.Groth16Proof → List UInt8} {s : Evm.State}
  {t : Stellar.State}

/-- The committee checks agree. -/
theorem threshold_iff (hc : Corresponds E F enc s t) (b : Bytes32) (pks : List Bytes32)
    (sigs : List (BytesN 64)) :
    Evm.verifyThreshold (E.ed25519 s.pool.ed25519Verifier) s.pool.committee b.toNat
        (pks.map BytesN.toNat) (sigs.map BytesN.bytes) = .ok () ↔
      t.verifyCommitteeThreshold F b pks sigs = .ok () := by
  have hmsg : Bytes.ofNat 32 b.toNat = b.bytes := congrArg BytesN.bytes (BytesN.ofNat_toNat b)
  rw [Evm.verifyThreshold_eq_ok, Stellar.State.verifyCommitteeThreshold_eq_ok, hc.committee]
  refine Quorum.map_iff BytesN.toNat_injective fun pk sig => ?_
  rw [hc.ed25519, hmsg]

/-- **The shared checks are shared.** Away from the root zero the Arc port makes them too. -/
theorem shared_iff (hc : Corresponds E F enc s t) {T : MpcTerms} (hT : T.Canonical)
    (hlen : T.signals.length < 2 ^ 32) (h0 : T.stateRoot ≠ 0) {b : Bytes32}
    (hb : E.hashToField b.toNat = (Stellar.hashToField b).toNat) {verifier : Evm.Address}
    {c : Stellar.Circuit} {verifier' : Option Stellar.Address}
    (hv : SameVerifier E F enc verifier c verifier') (pks : List Bytes32) (sigs : List (BytesN 64))
    (proof : Evm.Groth16Proof) :
    s.MpcOk E verifier b.toNat (pks.map BytesN.toNat) (sigs.map BytesN.bytes) proof T ∧ s.PairOk E T ↔
      Shared F t c verifier' b pks sigs (enc proof) T := by
  have hw {x : ℕ} (hx : x < bn254) : x < 256 ^ 32 := hx.trans bn254_lt_word
  obtain ⟨v, rfl, hver⟩ := hv
  have hverify := hver proof T.signals hT.signals hlen
  have hcap : Stellar.capacity t.tree.depth = 2 ^ E.levels := by
    rw [hc.depth]
    exact if_pos E.levels_lt
  have hroom : t.tree.leaves.length = s.pool.tree.leaves.length := by rw [hc.leaves, List.length_map]
  have hpool : Stellar.fr32ToI128 (word T.poolId) = t.poolId ↔ T.poolId = E.poolId := by
    rw [Stellar.fr32ToI128_word hT.poolId, hc.poolId, Nat.cast_inj]
  have hchain : Stellar.fr32ToI128 (word T.chainId) = t.chainId ↔ T.chainId = E.chainId := by
    rw [Stellar.fr32ToI128_word hT.chainId, hc.chainId, Nat.cast_inj]
  have hdl : (t.ledger : ℤ) ≤ Stellar.fr32ToI128 (word T.deadline) ↔ s.block ≤ T.deadline := by
    rw [Stellar.fr32ToI128_word hT.deadline, hc.height, Nat.cast_le]
  have hassoc : t.assocRoot = some (word T.associationRoot) ↔
      T.associationRoot = s.pool.associationRoot := by
    rw [hc.associationRoot, Option.some_inj]
    constructor
    · exact fun h => (word_inj hc.associationRoot_lt (hw hT.association) h).symm
    · rintro h
      rw [h]
  have hbatch : word T.batchHash = Stellar.hashToField b ↔ T.batchHash = E.hashToField b.toNat := by
    rw [hb]
    constructor
    · intro h
      rw [← h, Stellar.toNat_word (hw hT.batch)]
    · intro h
      rw [h]
      exact BytesN.ofNat_toNat _
  constructor
  · rintro ⟨h, g⟩
    refine ⟨hc.paused.trans h.active, (hc.threshold_iff b pks sigs).1 h.quorum,
      ⟨v, rfl, hverify.trans (by rw [h.verified])⟩, ?_, hassoc.2 h.association, hbatch.2 h.batch,
      hpool.2 h.poolId, hchain.2 h.chainId, hdl.2 h.deadline, hc.registryPaused.trans g.spending,
      hc.authorized.trans g.authorized, ?_, ?_, ?_, ?_⟩
    · rw [hc.knownRoot _ (hw hT.root) h0]
      exact h.root
    · rw [hc.spent _ (hw hT.nullifierA)]
      exact g.freshA
    · rw [hc.spent _ (hw hT.nullifierB)]
      exact g.freshB
    · exact fun he => g.distinct (word_inj (hw hT.nullifierA) (hw hT.nullifierB) he)
    · rw [hcap, hroom]
      exact g.room
  · rintro h
    obtain ⟨_, hv, hok⟩ := h.verified
    obtain rfl := Option.some.inj hv
    refine ⟨⟨hc.paused.symm.trans h.active, (hc.threshold_iff b pks sigs).2 h.quorum, ?_, ?_,
      hc.associationRoot_ne, hassoc.1 h.association, hbatch.1 h.batch, hpool.1 h.poolId,
      hchain.1 h.chainId, hdl.1 h.deadline⟩, hc.registryPaused.symm.trans h.spending,
      hc.authorized.symm.trans h.authorized, ?_, ?_, ?_, hT.outputA, hT.outputB, ?_⟩
    · exact Except.ok.inj (hverify.symm.trans hok)
    · rw [← hc.knownRoot _ (hw hT.root) h0]
      exact h.root
    · rw [← hc.spent _ (hw hT.nullifierA)]
      exact h.freshA
    · rw [← hc.spent _ (hw hT.nullifierB)]
      exact h.freshB
    · rintro he
      exact h.distinct (by rw [he])
    · rw [← hroom, ← hcap]
      exact h.room

end Corresponds

/-! ## Agreement -/

/-- The spent nullifiers and the leaf sequences of two states are the same. -/
structure SameLedger (s : Evm.State) (t : Stellar.State) : Prop where
  spent : ∀ n < 256 ^ 32, t.registry.spent (word n) = s.registry.spent n
  leaves : t.tree.leaves = s.pool.tree.leaves.map word

/-- Two calls are accepted or refused together, and lead to the same nullifiers and leaves. -/
structure Agree (r : Except Evm.Error Evm.State) (r' : Except Stellar.Error Stellar.State) :
    Prop where
  accepted : (∃ s', r = .ok s') ↔ ∃ t', r' = .ok t'
  result : ∀ s' t', r = .ok s' → r' = .ok t' → SameLedger s' t'

section
variable {E : Evm.Env} {F : Stellar.Env} {enc : Evm.Groth16Proof → List UInt8} {s s' : Evm.State}
  {t t' : Stellar.State}

/-- Two settlements of the same terms leave the same ledger on both chains. -/
theorem Corresponds.sameLedger (hc : Corresponds E F enc s t) {T : MpcTerms} (hT : T.Canonical)
    {e : Stellar.Event} (hs : s.Paired s' T)
    (ht : t' = t.settled F (word T.nullifierHashA) (word T.nullifierHashB) (word T.outputCommitmentA)
      (word T.outputCommitmentB) e) : SameLedger s' t' := by
  have hw {x : ℕ} (hx : x < bn254) : x < 256 ^ 32 := hx.trans bn254_lt_word
  subst ht
  refine ⟨fun n hn => ?_, ?_⟩
  · have hword {m : ℕ} (hm : m < bn254) : word n = word m ↔ n = m :=
      ⟨word_inj hn (hw hm), fun h => by rw [h]⟩
    rw [hs.spent]
    simp only [Stellar.State.settled, Stellar.Registry.mark, Function.update_apply,
      hword hT.nullifierA, hword hT.nullifierB, hc.spent n hn]
  · rw [hs.leaves]
    simp [Stellar.State.settled, Stellar.State.pushed, hc.leaves]

/-- The Arc call of a same-asset settlement. -/
def arcSettle (E : Evm.Env) (s : Evm.State) (b : Bytes32) (pks : List Bytes32)
    (sigs : List (BytesN 64)) (proof : Evm.Groth16Proof) (x : MpcPub ℕ) :
    Except Evm.Error Evm.State :=
  s.mpcSettle E b.toNat (pks.map BytesN.toNat) (sigs.map BytesN.bytes) proof x

/-- The Soroban call with the matching arguments and the correct `new_root`. -/
def sorobanSettle (F : Stellar.Env) (t : Stellar.State) (b : Bytes32) (pks : List Bytes32)
    (sigs : List (BytesN 64)) (proof : List UInt8) (x : MpcPub ℕ) :
    Except Stellar.Error Stellar.State :=
  t.mpcSettle F (word x.nullifierHashA) (word x.nullifierHashB) (word x.outputCommitmentA)
    (word x.outputCommitmentB) (t.newRoot F x.terms) b pks sigs (some proof)
    (some (Stellar.encodeSignals (x.toList.map word)))

/-- The Arc call of a priced settlement. -/
def arcSettlePriced (E : Evm.Env) (s : Evm.State) (b : Bytes32) (pks : List Bytes32)
    (sigs : List (BytesN 64)) (proof : Evm.Groth16Proof) (x : MpcPricedPub ℕ) :
    Except Evm.Error Evm.State :=
  s.mpcSettlePriced E b.toNat (pks.map BytesN.toNat) (sigs.map BytesN.bytes) proof x

/-- The Soroban call with the matching arguments and the correct `new_root`. -/
def sorobanSettlePriced (F : Stellar.Env) (t : Stellar.State) (b : Bytes32) (pks : List Bytes32)
    (sigs : List (BytesN 64)) (proof : List UInt8) (x : MpcPricedPub ℕ) :
    Except Stellar.Error Stellar.State :=
  t.mpcSettlePriced F (word x.nullifierHashA) (word x.nullifierHashB) (word x.outputCommitmentA)
    (word x.outputCommitmentB) (t.newRoot F x.terms) b pks sigs (some proof)
    (some (Stellar.encodeSignals (x.toList.map word)))

variable {b : Bytes32} {pks : List Bytes32} {sigs : List (BytesN 64)} {proof : Evm.Groth16Proof}

/-- The two ports agree on a settlement, except where Soroban accepts one whose state root is zero.
-/
theorem Corresponds.settle_iff (hc : Corresponds E F enc s t)
    (hb : E.hashToField b.toNat = (Stellar.hashToField b).toNat) {x : MpcPub ℕ}
    (hx : x.terms.Canonical) :
    Agree (arcSettle E s b pks sigs proof x) (sorobanSettle F t b pks sigs (enc proof) x) ↔
      (Shared F t .mpc t.mpcVerifier b pks sigs (enc proof) x.terms → x.stateRoot ≠ 0) := by
  have harc := @Evm.State.mpcSettle_ok_iff E s b.toNat (pks.map BytesN.toNat)
    (sigs.map BytesN.bytes) proof x hc.tree
  have hsor := @Stellar.State.mpcSettle_ok_iff F t b pks sigs (enc proof) x
  have hshared (h0 : x.stateRoot ≠ 0) :=
    hc.shared_iff hx (by simp [MpcPub.terms]) h0 hb hc.verifier pks sigs proof
  constructor
  · intro h hS
    obtain ⟨s', hs'⟩ := h.accepted.2 (hsor.2 hS)
    exact (harc.1 ⟨s', hs'⟩).2.2
  · intro h
    refine ⟨⟨fun hs => ?_, fun ht => ?_⟩, fun s' t' hs ht => ?_⟩
    · obtain ⟨hM, hP, h0⟩ := harc.1 hs
      exact hsor.2 ((hshared h0).1 ⟨hM, hP⟩)
    · have hS := hsor.1 ht
      obtain ⟨hM, hP⟩ := (hshared (h hS)).2 hS
      exact harc.2 ⟨hM, hP, h hS⟩
    · obtain ⟨-, -, -, -, ht'⟩ := Stellar.State.mpcSettle_inv ht
      exact hc.sameLedger hx (Evm.State.mpcSettle_paired hc.tree hs) ht'

/-- The two ports agree on a priced settlement of two assets if the price Soroban asks for and the
root Arc asks for come out alike. -/
theorem Corresponds.settlePriced_iff (hc : Corresponds E F enc s t)
    (hb : E.hashToField b.toNat = (Stellar.hashToField b).toNat) {x : MpcPricedPub ℕ}
    (hx : x.terms.Canonical) :
    Agree (arcSettlePriced E s b pks sigs proof x)
        (sorobanSettlePriced F t b pks sigs (enc proof) x) ↔
      (Shared F t .mpcPriced t.mpcPricedVerifier b pks sigs (enc proof) x.terms →
        word x.inputAssetA ≠ word x.inputAssetB → (x.stateRoot ≠ 0 ↔ t.Priced x)) := by
  have hw {v : ℕ} (hv : v ∈ x.toList) : v < 256 ^ 32 := (hx.signals v hv).trans bn254_lt_word
  have hcross : word x.inputAssetA ≠ word x.inputAssetB ↔ x.inputAssetA ≠ x.inputAssetB := by
    refine not_congr ⟨word_inj (hw ?_) (hw ?_), fun h => by rw [h]⟩ <;> simp [MpcPricedPub.toList]
  have harc := @Evm.State.mpcSettlePriced_ok_iff E s b.toNat (pks.map BytesN.toNat)
    (sigs.map BytesN.bytes) proof x hc.tree
  have hsor := @Stellar.State.mpcSettlePriced_ok_iff F t b pks sigs (enc proof) x
  have hshared (h0 : x.stateRoot ≠ 0) :=
    hc.shared_iff hx (by simp [MpcPricedPub.terms]) h0 hb hc.pricedVerifier pks sigs proof
  constructor
  · intro h hS hne
    constructor
    · intro h0
      obtain ⟨hM, hP⟩ := (hshared h0).2 hS
      exact (hsor.1 (h.accepted.1 (harc.2 ⟨hM, hP, h0, hcross.1 hne⟩))).2.2
    · intro hpr
      exact (harc.1 (h.accepted.2 (hsor.2 ⟨hS, hne, hpr⟩))).2.2.1
  · intro h
    refine ⟨⟨fun hs => ?_, fun ht => ?_⟩, fun s' t' hs ht => ?_⟩
    · obtain ⟨hM, hP, h0, hne⟩ := harc.1 hs
      have hS := (hshared h0).1 ⟨hM, hP⟩
      exact hsor.2 ⟨hS, hcross.2 hne, (h hS (hcross.2 hne)).1 h0⟩
    · obtain ⟨hS, hne, hpr⟩ := hsor.1 ht
      have h0 := (h hS hne).2 hpr
      obtain ⟨hM, hP⟩ := (hshared h0).2 hS
      exact harc.2 ⟨hM, hP, h0, hcross.1 hne⟩
    · obtain ⟨-, -, -, -, ht'⟩ := Stellar.State.mpcSettlePriced_inv ht
      exact hc.sameLedger hx (Evm.State.mpcSettlePriced_paired hc.tree hs) ht'

/-- The Soroban port's own checks, in the words of the Arc state. -/
theorem Corresponds.priced_iff (hc : Corresponds E F enc s t) {x : MpcPricedPub ℕ}
    (hx : ∀ v ∈ x.toList, v < bn254) (hA : x.matchedAmountA < 2 ^ 127)
    (hB : x.matchedAmountB < 2 ^ 127) :
    t.Priced x ↔ s.pool.assetToken x.inputAssetA ≠ 0 ∧ s.pool.assetToken x.inputAssetB ≠ 0 ∧
      x.matchedAmountA ≠ 0 ∧ x.matchedAmountB ≠ 0 := by
  have hw {v : ℕ} (hv : v ∈ x.toList) : v < 256 ^ 32 := (hx v hv).trans bn254_lt_word
  rw [← hc.assets x.inputAssetA (hw (by simp [MpcPricedPub.toList])),
    ← hc.assets x.inputAssetB (hw (by simp [MpcPricedPub.toList]))]
  constructor
  · rintro ⟨hiA, hiB, hmA, hmB⟩
    rw [Stellar.fr32ToI128_word hA] at hmA
    rw [Stellar.fr32ToI128_word hB] at hmB
    exact ⟨hiA, hiB, by omega, by omega⟩
  · rintro ⟨hiA, hiB, hmA, hmB⟩
    refine ⟨hiA, hiB, ?_, ?_⟩
    · rw [Stellar.fr32ToI128_word hA]
      omega
    · rw [Stellar.fr32ToI128_word hB]
      omega

end

/-- **The committee settlements, both ports.** From corresponding states, on canonical signals with
numbers below `2 ^ 127` and with the two reductions of the batch hash identified, `mpcSettle` agrees
with `mpc_settle` unless the checks both make pass for the root zero; and `mpcSettlePriced` agrees
with `mpc_settle_priced` exactly when those checks do not all pass, or the assets are the same, or
the root is non-zero just when both assets are registered and both matched amounts positive. -/
theorem mpc_port_iff {E : Evm.Env} {F : Stellar.Env} {enc : Evm.Groth16Proof → List UInt8}
    {s : Evm.State} {t : Stellar.State} (hc : Corresponds E F enc s t) (b : Bytes32)
    (hb : E.hashToField b.toNat = (Stellar.hashToField b).toNat) (pks : List Bytes32)
    (sigs : List (BytesN 64)) (proof : Evm.Groth16Proof) :
    (∀ x : MpcPub ℕ, (∀ v ∈ x.toList, v < bn254) → x.poolId < 2 ^ 127 → x.chainId < 2 ^ 127 →
      x.deadline < 2 ^ 127 →
      (Agree (arcSettle E s b pks sigs proof x) (sorobanSettle F t b pks sigs (enc proof) x) ↔
        (Shared F t .mpc t.mpcVerifier b pks sigs (enc proof) x.terms → x.stateRoot ≠ 0))) ∧
    ∀ x : MpcPricedPub ℕ, (∀ v ∈ x.toList, v < bn254) → x.poolId < 2 ^ 127 → x.chainId < 2 ^ 127 →
      x.deadline < 2 ^ 127 → x.matchedAmountA < 2 ^ 127 → x.matchedAmountB < 2 ^ 127 →
      (Agree (arcSettlePriced E s b pks sigs proof x)
          (sorobanSettlePriced F t b pks sigs (enc proof) x) ↔
        (Shared F t .mpcPriced t.mpcPricedVerifier b pks sigs (enc proof) x.terms →
          x.inputAssetA ≠ x.inputAssetB →
          (x.stateRoot ≠ 0 ↔
            s.pool.assetToken x.inputAssetA ≠ 0 ∧ s.pool.assetToken x.inputAssetB ≠ 0 ∧
              x.matchedAmountA ≠ 0 ∧ x.matchedAmountB ≠ 0))) := by
  constructor
  · intro x hx hp hch hd
    exact hc.settle_iff hb (MpcPub.canonical hx hp hch hd)
  · intro x hx hp hch hd hA hB
    have hw {v : ℕ} (hv : v ∈ x.toList) : v < 256 ^ 32 := (hx v hv).trans bn254_lt_word
    have hcross : word x.inputAssetA ≠ word x.inputAssetB ↔ x.inputAssetA ≠ x.inputAssetB := by
      refine not_congr ⟨word_inj (hw ?_) (hw ?_), fun h => by rw [h]⟩ <;> simp [MpcPricedPub.toList]
    rw [hc.settlePriced_iff hb (MpcPricedPub.canonical hx hp hch hd), hc.priced_iff hx hA hB, hcross]

/-! ## A pair of pools -/

/-- A Soroban host around an Arc pool whose verifiers look at the signals only. -/
def mirrorEnv (E : Evm.Env) (s : Evm.State) (proof : Evm.Groth16Proof) : Stellar.Env where
  poseidon := fun _ => 0
  sha256 := fun _ => word 0
  ed25519 := fun pk msg sig => E.ed25519 s.pool.ed25519Verifier pk.toNat msg sig.bytes
  groth16 := fun c _ _ xs => E.groth16
    (if c = .mpc then s.pool.mpcVerifier else s.pool.mpcPricedVerifier) proof (xs.map ZMod.val)
  pool := Stellar.acct 0

/-- The Soroban pool that corresponds to an Arc pool. -/
def mirror (E : Evm.Env) (s : Evm.State) : Stellar.State :=
  { Stellar.construct (Stellar.acct 0) (Stellar.acct 0) (Stellar.acct 0) E.levels E.poolId E.chainId
      (fun _ _ => 0) s.block with
    mpcVerifier := some (Stellar.acct 0)
    mpcPricedVerifier := some (Stellar.acct 0)
    paused := s.pool.access.paused
    tree := ⟨E.levels, s.pool.tree.leaves.map word, word 0, fun w => s.pool.tree.knownRoots w.toNat⟩
    assocRoot := some (word s.pool.associationRoot)
    committee := some (s.pool.committee.map word)
    assetToken := fun w => if s.pool.assetToken w.toNat = 0 then none else some (Stellar.acct 0)
    registry := ⟨none, s.registry.access.paused, fun w => s.registry.spent w.toNat,
      fun _ => s.registry.authorized E.pool⟩ }

/-- The scalar field of Arc is the smaller one. -/
theorem bn254_lt_bls12381 : bn254 < bls12381 := by decide

/-- A canonical word is read back as its number. -/
theorem val_frFromBytes_word {x : ℕ} (hx : x < bn254) : (Stellar.frFromBytes (word x)).val = x := by
  rw [Stellar.frFromBytes_word (hx.trans bn254_lt_word)]
  exact ZMod.val_cast_of_lt (hx.trans bn254_lt_bls12381)

/-- Canonical words are read back as their numbers. -/
theorem map_val_word {xs : List ℕ} (hx : ∀ x ∈ xs, x < bn254) :
    ((xs.map word).map Stellar.frFromBytes).map ZMod.val = xs := by
  induction xs with
  | nil => rfl
  | cons x xs ih =>
      rw [List.map_cons, List.map_cons, List.map_cons, val_frFromBytes_word (hx x (by simp)),
        ih fun y hy => hx y (by simp [hy])]

/-- Words of 32 bytes are read back as their numbers. -/
theorem map_toNat_word {ks : List ℕ} (hk : ∀ k ∈ ks, k < 256 ^ 32) :
    (ks.map word).map BytesN.toNat = ks := by
  induction ks with
  | nil => rfl
  | cons k ks ih =>
      rw [List.map_cons, List.map_cons, Stellar.toNat_word (hk k (by simp)),
        ih fun j hj => hk j (by simp [hj])]

section
variable {E : Evm.Env} {s : Evm.State}

/-- The mirrored verifier answers as that of Arc does. -/
theorem sameVerifier_mirror (hignore : ∀ v π π' xs, E.groth16 v π xs = E.groth16 v π' xs)
    (π : Evm.Groth16Proof) {verifier : Evm.Address} {c : Stellar.Circuit}
    (hverifier : (if c = .mpc then s.pool.mpcVerifier else s.pool.mpcPricedVerifier) = verifier)
    (v : Stellar.Address) :
    SameVerifier E (mirrorEnv E s π) (fun _ => [0]) verifier c (some v) := by
  subst hverifier
  refine ⟨v, rfl, fun proof xs hxs hlen => ?_⟩
  have hall : xs.all (· < bn254) = true := by simpa using hxs
  have hparse : Stellar.parsePublicSignals (Stellar.encodeSignals (xs.map word)) =
      .ok (xs.map word) := Stellar.parsePublicSignals_encodeSignals (by simpa using hlen)
  have hne : ¬ (([0] : List UInt8) = [] ∨ Stellar.encodeSignals (xs.map word) = []) := by
    simp [Stellar.encodeSignals_ne_nil]
  rw [Evm.Env.verifyProof, hall, Bool.true_and, hignore _ proof π, Stellar.Env.verify, if_neg hne,
    Stellar.publicFromBytes, hparse]
  show Except.ok (E.groth16 _ π (((xs.map word).map Stellar.frFromBytes).map ZMod.val)) = _
  rw [map_val_word hxs]

/-- A state of the Arc pool corresponds to its mirror. -/
theorem corresponds_mirror (hignore : ∀ v π π' xs, E.groth16 v π xs = E.groth16 v π' xs)
    (π : Evm.Groth16Proof)
    (htree : Evm.IncrementalMerkleTree.Inv E.hashLeftRight E.levels s.pool.tree)
    (hcommittee : ∀ k ∈ s.pool.committee, k < 256 ^ 32) (hne : s.pool.associationRoot ≠ 0)
    (hlt : s.pool.associationRoot < 256 ^ 32) :
    Corresponds E (mirrorEnv E s π) (fun _ => [0]) s (mirror E s) where
  tree := htree
  depth := rfl
  poolId := rfl
  chainId := rfl
  committee := (map_toNat_word hcommittee).symm
  ed25519 := fun _ _ _ => rfl
  verifier := sameVerifier_mirror hignore π (if_pos rfl) _
  pricedVerifier := sameVerifier_mirror hignore π (if_neg (by decide)) _
  associationRoot := rfl
  associationRoot_ne := hne
  associationRoot_lt := hlt
  knownRoot := fun r hr _ => by simp [mirror, Stellar.toNat_word hr]
  spent := fun n hn => by simp [mirror, Stellar.toNat_word hn]
  assets := fun a ha => by simp [mirror, Stellar.toNat_word ha]
  leaves := rfl
  height := rfl
  paused := rfl
  registryPaused := rfl
  authorized := rfl

end

theorem one_ne_two : (1 : Evm.Address) ≠ 2 := by decide

/-- An Arc deployment whose hash of pairs is constant, whose SHA-256 is the identity on words and
whose verifiers accept everything. -/
def portEnv : Evm.Env where
  poseidon := fun _ => ((7 : ℕ) : Bn254)
  sha256 := fun bs => BitVec.ofNat 256 (Bytes.toNat bs)
  ed25519 := fun _ _ _ _ => true
  groth16 := fun _ _ _ => true
  pool := 1
  escrow := 2
  poolId := 1
  chainId := 2
  levels := 4
  challengeWindow := 0
  rebasing := false
  levels_pos := by decide
  levels_lt := by decide
  pool_ne_escrow := one_ne_two

/-- The empty tree of that deployment. -/
def portTree : Evm.IncrementalMerkleTree :=
  match Evm.IncrementalMerkleTree.construct portEnv.hashLeftRight 4 with
  | .ok t => t
  | .error _ => ⟨fun _ => 0, fun _ => 0, 0, fun _ => 0, 0, fun _ => false, []⟩

/-- Its pool: one committee member, association root 9, and assets 21 and 22 registered. -/
def portState : Evm.State where
  registry := ⟨⟨fun _ _ => false, false⟩, fun _ => false, fun _ => true⟩
  pool := {
    access := ⟨fun _ _ => false, false⟩
    tree := portTree
    withdrawVerifier := 3
    transferVerifier := 3
    depositVerifier := 3
    mpcVerifier := 3
    mpcPricedVerifier := 4
    associationRoot := 9
    associationRootVersion := 1
    assetToken := fun a => if a = 21 ∨ a = 22 then 5 else 0
    noteSupplyOf := fun _ => 0
    committee := [5]
    ed25519Verifier := 6
    authorizedSolver := fun _ => false
    cctpOutboundDomain := 0
    tokenMessenger := 0
    usdcToken := 0
    depositUsed := fun _ => false
    authorizedStreamContract := fun _ => false }
  escrow := ⟨⟨fun _ _ => false, false⟩, 0, 0, fun _ => .zero⟩
  balance := fun _ _ => 0
  allowance := fun _ _ => 0
  block := 10
  events := []

/-- A priced settlement of `m` units on both sides. -/
def portSignals (m : ℕ) : MpcPricedPub ℕ :=
  ⟨11, 12, 13, 14, 7, 9, 0, 1, 2, 100, 21, 22, 22, 21, m, m, 1, 1, 0, 0⟩

/-- Any proof. -/
def portProof : Evm.Groth16Proof := ⟨(0, 0), ((0, 0), (0, 0)), (0, 0)⟩

/-- The tree of the port is empty and well-formed. -/
theorem portTree_spec : Evm.IncrementalMerkleTree.Inv portEnv.hashLeftRight 4 portTree ∧
    portTree.leaves = [] := by
  obtain ⟨t, ht, hI, hnil⟩ := @Evm.IncrementalMerkleTree.construct_inv portEnv.hashLeftRight 4
    (by decide) (by decide)
  rw [portTree, ht]
  exact ⟨hI, hnil⟩

/-- The state of the port corresponds to its mirror. -/
theorem corresponds_port :
    Corresponds portEnv (mirrorEnv portEnv portState portProof) (fun _ => [0]) portState
      (mirror portEnv portState) :=
  corresponds_mirror (fun _ _ _ _ => rfl) portProof portTree_spec.1 (by decide) (by decide) (by decide)

/-- The tree of the port knows the root 7. -/
theorem portTree_known : portTree.knownRoots 7 = true := by
  have hroot : Merkle.root portEnv.hashLeftRight 0 4 [] = 7 := by
    rw [Evm.IncrementalMerkleTree.root_nil, Merkle.zeroNode]
    exact ZMod.val_cast_of_lt (by decide)
  exact (portTree_spec.1.known 7).2 ⟨[], List.nil_prefix, hroot.symm⟩

/-- The signals of the port are canonical. -/
theorem portSignals_canonical {m : ℕ} (hm : m < 100) : ∀ v ∈ (portSignals m).toList, v < bn254 := by
  have hbig : (100 : ℕ) < bn254 := by decide
  intro v hv
  simp only [portSignals, MpcPricedPub.toList, List.mem_cons, List.not_mem_nil, or_false] at hv
  omega

theorem hashToField_zero : portEnv.hashToField (word 0).toNat = (Stellar.hashToField (word 0)).toNat := by
  decide +kernel

/-- The two ports agree on a settlement with a positive price. -/
theorem mpc_port_iff_positive :
    Agree (arcSettlePriced portEnv portState (word 0) [word 5] [.ofNat 64 0] portProof (portSignals 8))
      (sorobanSettlePriced (mirrorEnv portEnv portState portProof) (mirror portEnv portState) (word 0)
        [word 5] [.ofNat 64 0] [0] (portSignals 8)) := by
  refine ((mpc_port_iff corresponds_port (word 0) hashToField_zero [word 5] [.ofNat 64 0]
    portProof).2 (portSignals 8) (portSignals_canonical (by decide)) (by decide) (by decide) (by decide)
    (by decide) (by decide)).2 fun _ _ => ⟨fun _ => ?_, fun _ => by decide⟩
  exact ⟨by decide, by decide, by decide, by decide⟩

/-- The Arc pool settles a priced match of nothing for nothing, the Soroban pool does not. -/
theorem priced_port_differs :
    Corresponds portEnv (mirrorEnv portEnv portState portProof) (fun _ => [0]) portState
      (mirror portEnv portState) ∧
    portEnv.hashToField (word 0).toNat = (Stellar.hashToField (word 0)).toNat ∧
    (∀ v ∈ (portSignals 0).toList, v < bn254) ∧
    (∃ s', arcSettlePriced portEnv portState (word 0) [word 5] [.ofNat 64 0] portProof
      (portSignals 0) = .ok s') ∧
    ¬ ∃ t', sorobanSettlePriced (mirrorEnv portEnv portState portProof) (mirror portEnv portState)
      (word 0) [word 5] [.ofNat 64 0] [0] (portSignals 0) = .ok t' := by
  have hquorum : Evm.verifyThreshold (portEnv.ed25519 6) [5] (word 0).toNat [(word 5).toNat]
      [(BytesN.ofNat 64 0).bytes] = .ok () := by decide +kernel
  have hverified : portEnv.verifyProof 4 portProof (portSignals 0).toList = true := by decide
  refine ⟨corresponds_port, hashToField_zero, portSignals_canonical (by decide), ?_, ?_⟩
  · refine (Evm.State.mpcSettlePriced_ok_iff portTree_spec.1).2 ⟨⟨rfl, hquorum, hverified, portTree_known,
      by decide, rfl, ?_, rfl, rfl, by decide⟩, ⟨rfl, rfl, rfl, rfl, by decide, by decide, by decide, ?_⟩,
      by decide, by decide⟩
    · decide +kernel
    · show portTree.leaves.length + 1 < 2 ^ 4
      rw [portTree_spec.2]
      decide
  · intro h
    obtain ⟨-, -, hpriced⟩ := Stellar.State.mpcSettlePriced_ok_iff.1 h
    have := hpriced.amountA
    rw [Stellar.fr32ToI128_word (by decide)] at this
    exact absurd this (by decide)

end ShadePay
