import ShadePay.Circuit.Hashing
import ShadePay.Circuit.Values
import ShadePay.Evm.Runs

/-!
# Verifiers, circuits and consumed notes

`SoundAt` says of the verifiers a state is configured with that they accept only signals with a
satisfying assignment; `Knowledge` holds what else is assumed of those assignments. `Call.inputs` are
the input notes of a call: `Input.key` is the nullifier hash it reveals and `Input.opens` the notes
that a satisfying assignment for its public signals may spend there.
-/

namespace ShadePay.Evm

open Guard Reentrancy

/-! ## Soundness -/

/-- What is assumed of accepted proofs beyond the constraints. -/
structure Knowledge where
  /-- circomlib's `EdDSAPoseidonVerifier`. -/
  eddsa : Bn254 → Bn254 → Bn254 → Signature Bn254 → Prop
  /-- The inputs on which provers and contracts evaluate Poseidon. -/
  hashed : Set (List Bn254)
  /-- A law the private values of a committee settlement obey. -/
  mpcLaw : MpcPub Bn254 → MpcWit Bn254 → Prop

/-- The verifiers configured in `s` accept only signals with a satisfying assignment. The circuits
are compiled for the depth of the pool's tree and an allowlist of depth 2. This is about every proof;
a run may be taken as one of a deployment that accepts the proofs it presents and no others
(`reach_presenting`), where it is about finitely many and a finite `hashed` will do. -/
structure SoundAt (E : Env) (A : Knowledge) (s : State) : Prop where
  withdraw : ∀ {proof x}, E.groth16 s.pool.withdrawVerifier proof (WithdrawPub.toList x) = true →
    ∃ w, Withdraw E.poseidon E.levels 2 (x.map Nat.cast) w ∧
      w.input.Hashed E.poseidon A.hashed E.levels 2 (w.note (x.map Nat.cast))
  transfer : ∀ {proof x}, E.groth16 s.pool.transferVerifier proof (TransferPub.toList x) = true →
    ∃ w, PrivateTransfer E.poseidon E.levels 2 (x.map Nat.cast) w ∧
      w.input.Hashed E.poseidon A.hashed E.levels 2 (w.note (x.map Nat.cast)) ∧
      (w.outNote (x.map Nat.cast)).Hashed E.poseidon A.hashed
  deposit : ∀ {proof x}, E.groth16 s.pool.depositVerifier proof (DepositPub.toList x) = true →
    ∃ w, DepositNoteMint E.poseidon (x.map Nat.cast) w ∧
      (w.note (x.map Nat.cast)).Hashed E.poseidon A.hashed
  mpc : ∀ {proof x}, E.groth16 s.pool.mpcVerifier proof (MpcPub.toList x) = true →
    ∃ w, MpcSettlement E.poseidon E.levels 2 (x.map Nat.cast) w ∧ A.mpcLaw (x.map Nat.cast) w ∧
      w.inputA.Hashed E.poseidon A.hashed E.levels 2 (w.noteA (x.map Nat.cast)) ∧
      w.inputB.Hashed E.poseidon A.hashed E.levels 2 (w.noteB (x.map Nat.cast)) ∧
      (w.outNoteA (x.map Nat.cast)).Hashed E.poseidon A.hashed ∧
      (w.outNoteB (x.map Nat.cast)).Hashed E.poseidon A.hashed
  mpcPriced : ∀ {proof x},
    E.groth16 s.pool.mpcPricedVerifier proof (MpcPricedPub.toList x) = true →
    ∃ w, MpcPricedSettlement E.poseidon E.levels 2 (x.map Nat.cast) w ∧
      w.inputA.Hashed E.poseidon A.hashed E.levels 2 (w.noteA (x.map Nat.cast)) ∧
      w.inputB.Hashed E.poseidon A.hashed E.levels 2 (w.noteB (x.map Nat.cast)) ∧
      (w.outNoteA (x.map Nat.cast)).Hashed E.poseidon A.hashed ∧
      (w.outNoteB (x.map Nat.cast)).Hashed E.poseidon A.hashed
  streamOpen : ∀ {proof x},
    E.groth16 s.escrow.openVerifier proof (StreamOpenPub.toList x) = true →
    ∃ w, StreamOpen E.poseidon E.levels 2 (x.map Nat.cast) w ∧
      w.input.Hashed E.poseidon A.hashed E.levels 2 (w.note (x.map Nat.cast)) ∧
      (w.changeNote (x.map Nat.cast)).Hashed E.poseidon A.hashed ∧
      (w.reclaimNote (x.map Nat.cast)).Hashed E.poseidon A.hashed
  streamSettle : ∀ {proof x},
    E.groth16 s.escrow.settleVerifier proof (StreamSettlePub.toList x) = true →
    ∃ w, StreamSettle E.poseidon A.eddsa (x.map Nat.cast) w ∧
      (w.payeeNote (x.map Nat.cast)).Hashed E.poseidon A.hashed ∧
      (w.refundNote (x.map Nat.cast)).Hashed E.poseidon A.hashed

/-! ## Consumed notes -/

/-- An input note of a call. -/
structure Input where
  key : ℕ
  opens : Note Bn254 → Prop

variable (E : Env)

/-- The input of a call on the withdraw circuit. -/
def WithdrawPub.input (x : WithdrawPub ℕ) : Input where
  key := x.nullifierHash
  opens n := ∃ w, Withdraw E.poseidon E.levels 2 (x.map Nat.cast) w ∧ n = w.note (x.map Nat.cast)

/-- The input notes of a call. -/
def Call.inputs : Call → List Input
  | .withdraw _ _ x => [WithdrawPub.input E x]
  | .rfqSettle _ _ _ _ _ _ _ x => [WithdrawPub.input E x]
  | .withdrawCctp _ _ _ _ _ x => [WithdrawPub.input E x]
  | .privateTransferSettle _ x => [⟨x.nullifierHash, fun n => ∃ w,
      PrivateTransfer E.poseidon E.levels 2 (x.map Nat.cast) w ∧ n = w.note (x.map Nat.cast)⟩]
  | .mpcSettle _ _ _ _ x =>
      [⟨x.nullifierHashA, fun n => ∃ w,
        MpcSettlement E.poseidon E.levels 2 (x.map Nat.cast) w ∧ n = w.noteA (x.map Nat.cast)⟩,
      ⟨x.nullifierHashB, fun n => ∃ w,
        MpcSettlement E.poseidon E.levels 2 (x.map Nat.cast) w ∧ n = w.noteB (x.map Nat.cast)⟩]
  | .mpcSettlePriced _ _ _ _ x =>
      [⟨x.nullifierHashA, fun n => ∃ w, MpcPricedSettlement E.poseidon E.levels 2
        (x.map Nat.cast) w ∧ n = w.noteA (x.map Nat.cast)⟩,
      ⟨x.nullifierHashB, fun n => ∃ w, MpcPricedSettlement E.poseidon E.levels 2
        (x.map Nat.cast) w ∧ n = w.noteB (x.map Nat.cast)⟩]
  | .open _ x => [⟨x.inputNullifierHash, fun n => ∃ w,
      StreamOpen E.poseidon E.levels 2 (x.map Nat.cast) w ∧ n = w.note (x.map Nat.cast)⟩]
  | _ => []

/-- The registry key of a note: its nullifier hash under the pool's domain. -/
def noteKey (n : Note Bn254) : ℕ := (n.nullifierHash E.poseidon E.poolId E.chainId).val

section
variable {E} {s s' : State} {A : Knowledge}

/-- A canonical word is the key of every note whose nullifier hash it is. -/
theorem eq_noteKey {x p c : ℕ} {n : Note Bn254} (hx : x < bn254) (hd : p = E.poolId ∧ c = E.chainId)
    (h : (x : Bn254) = n.nullifierHash E.poseidon p c) : x = noteKey E n := by
  rw [noteKey, ← hd.1, ← hd.2, ← h, ZMod.val_cast_of_lt hx]

theorem WithdrawChecks.key_eq {op : ℤ} {proof : Groth16Proof} {x : WithdrawPub ℕ}
    (h : WithdrawChecks E s op proof x) {n : Note Bn254} (hn : (WithdrawPub.input E x).opens n) :
    x.nullifierHash = noteKey E n := by
  obtain ⟨w, hw, rfl⟩ := hn
  exact eq_noteKey (E.lt_of_verifyProof h.verified _ (by simp [WithdrawPub.toList])) h.domain
    hw.spends.nullifier

/-- **One key per note.** An input of a successful call reveals the key of every note it may open. -/
theorem Call.Checks.key_eq {x : Address} {call : Call} (h : call.Checks E x s) {i : Input}
    (hi : i ∈ call.inputs E) {n : Note Bn254} (hn : i.opens n) : i.key = noteKey E n := by
  cases call with
  | withdraw a proof pub =>
      obtain rfl := List.mem_singleton.1 hi
      exact h.1.key_eq hn
  | rfqSettle a q i f pk sig proof pub =>
      obtain rfl := List.mem_singleton.1 hi
      exact h.1.key_eq hn
  | withdrawCctp a r fee fin proof pub =>
      obtain rfl := List.mem_singleton.1 hi
      exact h.1.key_eq hn
  | privateTransferSettle proof pub =>
      obtain rfl := List.mem_singleton.1 hi
      obtain ⟨w, hw, rfl⟩ := hn
      obtain ⟨-, hdom, -, hver⟩ := h
      exact eq_noteKey (E.lt_of_verifyProof hver _ (by simp [TransferPub.toList])) hdom
        hw.spends.nullifier
  | mpcSettle b pks sigs proof pub =>
      obtain ⟨-, hver, -, -, -, -, hdom, -⟩ := h
      have hlt := E.lt_of_verifyProof hver
      rcases List.mem_pair.1 hi with rfl | rfl
      · obtain ⟨w, hw, rfl⟩ := hn
        exact eq_noteKey (hlt _ (by simp [MpcPub.toList])) hdom hw.spendsA.nullifier
      · obtain ⟨w, hw, rfl⟩ := hn
        exact eq_noteKey (hlt _ (by simp [MpcPub.toList])) hdom hw.spendsB.nullifier
  | mpcSettlePriced b pks sigs proof pub =>
      obtain ⟨-, hver, -, -, -, -, hdom, -, -⟩ := h
      have hlt := E.lt_of_verifyProof hver
      rcases List.mem_pair.1 hi with rfl | rfl
      · obtain ⟨w, hw, rfl⟩ := hn
        exact eq_noteKey (hlt _ (by simp [MpcPricedPub.toList])) hdom hw.spendsA.nullifier
      · obtain ⟨w, hw, rfl⟩ := hn
        exact eq_noteKey (hlt _ (by simp [MpcPricedPub.toList])) hdom hw.spendsB.nullifier
  | «open» proof pub =>
      obtain rfl := List.mem_singleton.1 hi
      obtain ⟨w, hw, rfl⟩ := hn
      obtain ⟨-, hdom, -, -, hver, -⟩ := h
      exact eq_noteKey (E.lt_of_verifyProof hver _ (by simp [StreamOpenPub.toList])) hdom
        hw.spends.nullifier
  | _ => simp [Call.inputs] at hi

/-- With sound verifiers every input of a successful call opens some note. -/
theorem Call.Checks.opens {x : Address} {call : Call} (h : call.Checks E x s)
    (hs : SoundAt E A s) {i : Input} (hi : i ∈ call.inputs E) : ∃ n, i.opens n := by
  cases call with
  | withdraw a proof pub =>
      obtain rfl := List.mem_singleton.1 hi
      obtain ⟨w, hw, -⟩ := hs.withdraw (E.groth16_of_verifyProof h.1.verified)
      exact ⟨_, w, hw, rfl⟩
  | rfqSettle a q i f pk sig proof pub =>
      obtain rfl := List.mem_singleton.1 hi
      obtain ⟨w, hw, -⟩ := hs.withdraw (E.groth16_of_verifyProof h.1.verified)
      exact ⟨_, w, hw, rfl⟩
  | withdrawCctp a r fee fin proof pub =>
      obtain rfl := List.mem_singleton.1 hi
      obtain ⟨w, hw, -⟩ := hs.withdraw (E.groth16_of_verifyProof h.1.verified)
      exact ⟨_, w, hw, rfl⟩
  | privateTransferSettle proof pub =>
      obtain rfl := List.mem_singleton.1 hi
      obtain ⟨w, hw, -⟩ := hs.transfer (E.groth16_of_verifyProof h.2.2.2)
      exact ⟨_, w, hw, rfl⟩
  | mpcSettle b pks sigs proof pub =>
      obtain ⟨w, hw, -⟩ := hs.mpc (E.groth16_of_verifyProof h.2.1)
      rcases List.mem_pair.1 hi with rfl | rfl
      · exact ⟨_, w, hw, rfl⟩
      · exact ⟨_, w, hw, rfl⟩
  | mpcSettlePriced b pks sigs proof pub =>
      obtain ⟨w, hw, -⟩ := hs.mpcPriced (E.groth16_of_verifyProof h.2.1)
      rcases List.mem_pair.1 hi with rfl | rfl
      · exact ⟨_, w, hw, rfl⟩
      · exact ⟨_, w, hw, rfl⟩
  | «open» proof pub =>
      obtain rfl := List.mem_singleton.1 hi
      obtain ⟨w, hw, -⟩ := hs.streamOpen (E.groth16_of_verifyProof h.2.2.2.2.1)
      exact ⟨_, w, hw, rfl⟩
  | _ => simp [Call.inputs] at hi

end

end ShadePay.Evm
