import ShadePay.Stellar.Effects
import ShadePay.Circuit.Templates

/-!
# Verifiers and circuits

`Circuit.Holds` says that a list of scalars is the public part of a satisfying assignment of a
circuit. A deployment is `Sound` when its verifiers accept nothing else and `Exact` when each such
list also has a proof they accept; `exact_idealVerifier` is a verifier that is exact for any
Poseidon. `Env.holds_of_verify` reads an accepted signal string as a record of words.
-/

namespace ShadePay.Stellar

/-- The public scalars `l` extend to a satisfying assignment of the circuit. -/
def Circuit.Holds (P : List Bls12381 → Bls12381) : Circuit → List Bls12381 → Prop
  | .withdraw, l => ∃ x w, l = WithdrawPub.toList x ∧ Withdraw P 12 2 x w
  | .transfer, l => ∃ x w, l = TransferPub.toList x ∧ PrivateTransfer P 12 2 x w
  | .deposit, l => ∃ x w, l = DepositPub.toList x ∧ DepositNoteMint P x w
  | .mpc, l => ∃ x w, l = MpcPub.toList x ∧ MpcSettlement P 12 2 x w
  | .mpcPriced, l => ∃ x w, l = MpcPricedPub.toList x ∧ MpcPricedSettlement P 12 2 x w

/-- The verifiers accept only signals with a satisfying assignment. -/
def Env.Sound (E : Env) : Prop :=
  ∀ c v proof l, E.groth16 c v proof l = true → c.Holds E.poseidon l

/-- The verifiers accept exactly the signals with a satisfying assignment, each with some proof. -/
structure Env.Exact (E : Env) : Prop where
  sound : E.Sound
  complete : ∀ c v l, c.Holds E.poseidon l → ∃ proof, proof ≠ [] ∧ E.groth16 c v proof l = true

/-- The same deployment with other verifiers. -/
def Env.withVerifier (E : Env) (g : Circuit → Address → List UInt8 → List Bls12381 → Bool) : Env :=
  { E with groth16 := g }

/-- Accept a list of scalars, with any proof, when it has a satisfying assignment. -/
noncomputable def idealVerifier (P : List Bls12381 → Bls12381) (c : Circuit) (_ : Address)
    (_ : List UInt8) (l : List Bls12381) : Bool :=
  open Classical in decide (c.Holds P l)

theorem exact_idealVerifier (E : Env) : (E.withVerifier (idealVerifier E.poseidon)).Exact where
  sound := by
    intro c v proof l h
    simpa [Env.withVerifier, idealVerifier] using h
  complete := by
    intro c v l h
    exact ⟨[0], by simp, by simpa [Env.withVerifier, idealVerifier] using h⟩

section
variable {E : Env} {v : Address} {proof pub : List UInt8} {signals : List Bytes32}

/-- What an accepted signal string says, for a sound verifier. -/
theorem Env.holds_of_verify (hE : E.Sound) {c : Circuit} (h : E.verify c v proof pub = .ok true)
    (hp : parsePublicSignals pub = .ok signals) :
    c.Holds E.poseidon (signals.map frFromBytes) :=
  hE c v proof _ (E.groth16_of_verify h hp)

/-- A signal string that parses and a proof that is accepted on it. -/
theorem Env.verify_of_groth16 {c : Circuit} (hproof : proof ≠ []) (hpub : pub ≠ [])
    (hp : parsePublicSignals pub = .ok signals)
    (h : E.groth16 c v proof (signals.map frFromBytes) = true) :
    E.verify c v proof pub = .ok true := by
  simp [Env.verify, hproof, hpub, publicFromBytes, hp, h]

/-- The words of an accepted withdraw string. -/
theorem Circuit.Holds.withdraw {P : List Bls12381 → Bls12381}
    (h : Circuit.Holds P .withdraw (signals.map frFromBytes)) :
    ∃ (x : WithdrawPub Bytes32) (w : _), signals = x.toList ∧
      Withdraw P 12 2 (x.map frFromBytes) w := by
  obtain ⟨y, w, hl, hw⟩ := h
  obtain ⟨x, rfl⟩ := WithdrawPub.exists_toList (by simpa using congrArg List.length hl)
  rw [← WithdrawPub.toList_map] at hl
  cases WithdrawPub.toList_injective hl
  exact ⟨x, w, rfl, hw⟩

/-- The words of an accepted transfer string. -/
theorem Circuit.Holds.transfer {P : List Bls12381 → Bls12381}
    (h : Circuit.Holds P .transfer (signals.map frFromBytes)) :
    ∃ (x : TransferPub Bytes32) (w : _), signals = x.toList ∧
      PrivateTransfer P 12 2 (x.map frFromBytes) w := by
  obtain ⟨y, w, hl, hw⟩ := h
  obtain ⟨x, rfl⟩ := TransferPub.exists_toList (by simpa using congrArg List.length hl)
  rw [← TransferPub.toList_map] at hl
  cases TransferPub.toList_injective hl
  exact ⟨x, w, rfl, hw⟩

/-- The words of an accepted deposit string. -/
theorem Circuit.Holds.deposit {P : List Bls12381 → Bls12381}
    (h : Circuit.Holds P .deposit (signals.map frFromBytes)) :
    ∃ (x : DepositPub Bytes32) (w : _), signals = x.toList ∧
      DepositNoteMint P (x.map frFromBytes) w := by
  obtain ⟨y, w, hl, hw⟩ := h
  obtain ⟨x, rfl⟩ := DepositPub.exists_toList (by simpa using congrArg List.length hl)
  rw [← DepositPub.toList_map] at hl
  cases DepositPub.toList_injective hl
  exact ⟨x, w, rfl, hw⟩

/-- The words of an accepted settlement string. -/
theorem Circuit.Holds.mpc {P : List Bls12381 → Bls12381}
    (h : Circuit.Holds P .mpc (signals.map frFromBytes)) :
    ∃ (x : MpcPub Bytes32) (w : _), signals = x.toList ∧
      MpcSettlement P 12 2 (x.map frFromBytes) w := by
  obtain ⟨y, w, hl, hw⟩ := h
  obtain ⟨x, rfl⟩ := MpcPub.exists_toList (by simpa using congrArg List.length hl)
  rw [← MpcPub.toList_map] at hl
  cases MpcPub.toList_injective hl
  exact ⟨x, w, rfl, hw⟩

/-- The words of an accepted priced settlement string. -/
theorem Circuit.Holds.mpcPriced {P : List Bls12381 → Bls12381}
    (h : Circuit.Holds P .mpcPriced (signals.map frFromBytes)) :
    ∃ (x : MpcPricedPub Bytes32) (w : _), signals = x.toList ∧
      MpcPricedSettlement P 12 2 (x.map frFromBytes) w := by
  obtain ⟨y, w, hl, hw⟩ := h
  obtain ⟨x, rfl⟩ := MpcPricedPub.exists_toList (by simpa using congrArg List.length hl)
  rw [← MpcPricedPub.toList_map] at hl
  cases MpcPricedPub.toList_injective hl
  exact ⟨x, w, rfl, hw⟩

end

end ShadePay.Stellar
