import ShadePay.Lib.Quorum
import ShadePay.Evm.State
import ShadePay.Stellar.Effects

/-!
# The committee threshold of both ports

`CommitteeLib.verifyThreshold` and `verify_committee_threshold` are two loops over the signers with
the same checks. Each accepts exactly the two-thirds quorums of the registered keys, so with one
signature predicate they accept the same lists, and any two accepted lists overlap
(`committee_threshold`).
-/

namespace ShadePay

open Guard

/-! ## The Arc loop -/

namespace Evm

variable {verify : ℕ → List UInt8 → List UInt8 → Bool} {committee : List ℕ}

theorem verifySigners_eq_ok {msg : List UInt8} {pks : List ℕ} {sigs : List (List UInt8)}
    {seen : List ℕ} {n : ℕ} : verifySigners verify committee msg pks sigs seen = .ok n ↔
      n = pks.length ∧ pks.Nodup ∧ (∀ pk ∈ pks, pk ∉ seen) ∧ (∀ pk ∈ pks, pk ∈ committee) ∧
        Signed (fun pk sig => verify pk msg sig = true) pks sigs := by
  induction pks generalizing sigs seen n with
  | nil => simp [verifySigners, Signed, @eq_comm _ n]
  | cons pk pks ih =>
      cases sigs with
      | nil => simp [verifySigners, Signed]
      | cons sig sigs =>
          simp only [verifySigners, bind_eq_ok, exists_unit, require_eq_ok, pure_eq_ok, ih]
          simp only [Signed, List.headD_cons, List.tail_cons, List.nodup_cons,
            List.forall_mem_cons, List.mem_append, List.mem_singleton, List.length_cons]
          constructor
          · rintro ⟨hmem, hseen, -, hsig, m, ⟨rfl, hnodup, hnew, hall, hsigned⟩, rfl⟩
            exact ⟨rfl, ⟨fun h => hnew pk h (.inr rfl), hnodup⟩,
              ⟨hseen, fun k hk h => hnew k hk (.inl h)⟩, ⟨hmem, hall⟩, hsig, hsigned⟩
          · rintro ⟨rfl, ⟨hpk, hnodup⟩, ⟨hseen, hnew⟩, ⟨hmem, hall⟩, hsig, hsigned⟩
            refine ⟨hmem, hseen, by simp, hsig, _, ⟨rfl, hnodup, fun k hk h => ?_, hall, hsigned⟩, rfl⟩
            rcases h with h | rfl
            · exact hnew k hk h
            · exact hpk hk

/-- The Arc check accepts the quorums of the committee. -/
theorem verifyThreshold_eq_ok {batchHash : ℕ} {signers : List ℕ} {signatures : List (List UInt8)} :
    verifyThreshold verify committee batchHash signers signatures = .ok () ↔
      Quorum (fun pk sig => verify pk (Bytes.ofNat 32 batchHash) sig = true) committee signers
        signatures := by
  rw [quorum_iff]
  simp only [verifyThreshold, bind_eq_ok, exists_unit, require_eq_ok, verifySigners_eq_ok]
  constructor
  · rintro ⟨hne, hle, n, ⟨rfl, hnodup, -, hmem, hsigned⟩, -⟩
    exact ⟨hne, hle, hnodup, hmem, hsigned⟩
  · rintro ⟨hne, hle, hnodup, hmem, hsigned⟩
    exact ⟨hne, hle, _, ⟨rfl, hnodup, by simp, hmem, hsigned⟩, hle.1⟩

end Evm

/-! ## The Soroban loop -/

namespace Stellar

variable {E : Env}

theorem State.verifySigners_eq_ok {committee : List Bytes32} {msg : List UInt8} {pks : List Bytes32}
    {sigs : List (BytesN 64)} {seen : List Bytes32} {n : ℕ} :
    State.verifySigners E committee msg pks sigs seen = .ok n ↔
      n = pks.length ∧ pks.Nodup ∧ (∀ pk ∈ pks, pk ∉ seen) ∧ (∀ pk ∈ pks, pk ∈ committee) ∧
        Signed (fun pk sig => E.ed25519 pk msg sig = true) pks sigs := by
  induction pks generalizing sigs seen n with
  | nil => simp [State.verifySigners, Signed, @eq_comm _ n]
  | cons pk pks ih =>
      cases sigs with
      | nil => simp [State.verifySigners, Signed]
      | cons sig sigs =>
          simp only [State.verifySigners, bind_eq_ok, exists_unit, require_eq_ok, pure_eq_ok,
            State.unwrap_eq_ok, ih, Signed, List.head?_cons, Option.some.injEq, List.tail_cons,
            List.nodup_cons, List.forall_mem_cons, List.mem_append, List.mem_singleton,
            List.length_cons]
          constructor
          · rintro ⟨hmem, hseen, _, rfl, hsig, m, ⟨rfl, hnodup, hnew, hall, hsigned⟩, rfl⟩
            exact ⟨rfl, ⟨fun h => hnew pk h (.inr rfl), hnodup⟩,
              ⟨hseen, fun k hk h => hnew k hk (.inl h)⟩, ⟨hmem, hall⟩, hsig, hsigned⟩
          · rintro ⟨rfl, ⟨hpk, hnodup⟩, ⟨hseen, hnew⟩, ⟨hmem, hall⟩, hsig, hsigned⟩
            refine ⟨hmem, hseen, _, rfl, hsig, _, ⟨rfl, hnodup, fun k hk h => ?_, hall, hsigned⟩,
              rfl⟩
            rcases h with h | rfl
            · exact hnew k hk h
            · exact hpk hk

/-- The Soroban check accepts the quorums of the committee; an unset committee has none. -/
theorem State.verifyCommitteeThreshold_eq_ok {s : State} {batchHash : Bytes32}
    {signers : List Bytes32} {signatures : List (BytesN 64)} :
    s.verifyCommitteeThreshold E batchHash signers signatures = .ok () ↔
      Quorum (fun pk sig => E.ed25519 pk batchHash.bytes sig = true) (s.committee.getD []) signers
        signatures := by
  rw [quorum_iff]
  simp only [State.verifyCommitteeThreshold, bind_eq_ok, exists_unit, require_eq_ok,
    State.unwrap_eq_ok, State.verifySigners_eq_ok]
  constructor
  · rintro ⟨c, hc, hne, hle, n, ⟨rfl, hnodup, -, hmem, hsigned⟩, -⟩
    rw [hc]
    exact ⟨hne, hle, hnodup, hmem, hsigned⟩
  · rintro ⟨hne, hle, hnodup, hmem, hsigned⟩
    cases hc : s.committee with
    | none => simp [hc] at hne
    | some c =>
        rw [hc] at hne hle hmem
        exact ⟨c, rfl, hne, hle, _, ⟨rfl, hnodup, by simp, hmem, hsigned⟩, hle.1⟩

end Stellar

/-! ## Agreement -/

/-- **The committee threshold, both ports.** With one ed25519 predicate `ed`, the Arc check on any
lists and the Soroban check in any state accept exactly the quorums of their committee; on the same
keys, hash and signatures they agree; and two accepted signer lists for any two hashes share at least
`2 * ⌈2n/3⌉ - n` members, a third of the committee. -/
theorem committee_threshold (ed : ℕ → List UInt8 → List UInt8 → Bool) (E : Stellar.Env)
    (hE : ∀ pk msg sig, E.ed25519 pk msg sig = ed pk.toNat msg sig.bytes) :
    (∀ committee batchHash signers signatures,
      Evm.verifyThreshold ed committee batchHash signers signatures = .ok () ↔
        Quorum (fun pk sig => ed pk (Bytes.ofNat 32 batchHash) sig = true) committee signers
          signatures) ∧
    (∀ (s : Stellar.State) batchHash signers signatures,
      s.verifyCommitteeThreshold E batchHash signers signatures = .ok () ↔
        Quorum (fun pk sig => E.ed25519 pk batchHash.bytes sig = true) (s.committee.getD []) signers
          signatures) ∧
    (∀ (s : Stellar.State) batchHash signers signatures,
      Evm.verifyThreshold ed ((s.committee.getD []).map (·.toNat)) batchHash.toNat
          (signers.map (·.toNat)) (signatures.map (·.bytes)) = .ok () ↔
        s.verifyCommitteeThreshold E batchHash signers signatures = .ok ()) ∧
    (∀ committee batchHash batchHash' signers signers' signatures signatures',
      Evm.verifyThreshold ed committee batchHash signers signatures = .ok () →
      Evm.verifyThreshold ed committee batchHash' signers' signatures' = .ok () →
      2 * ((2 * committee.length) ⌈/⌉ 3) - committee.length ≤
          (signers.toFinset ∩ signers'.toFinset).card ∧
        committee.length ≤ 3 * (2 * ((2 * committee.length) ⌈/⌉ 3) - committee.length)) ∧
    ∀ (s : Stellar.State) batchHash batchHash' signers signers' signatures signatures',
      s.verifyCommitteeThreshold E batchHash signers signatures = .ok () →
      s.verifyCommitteeThreshold E batchHash' signers' signatures' = .ok () →
      2 * ((2 * (s.committee.getD []).length) ⌈/⌉ 3) - (s.committee.getD []).length ≤
          (signers.toFinset ∩ signers'.toFinset).card ∧
        (s.committee.getD []).length ≤
          3 * (2 * ((2 * (s.committee.getD []).length) ⌈/⌉ 3) - (s.committee.getD []).length) := by
  refine ⟨fun _ _ _ _ => Evm.verifyThreshold_eq_ok,
    fun _ _ _ _ => Stellar.State.verifyCommitteeThreshold_eq_ok, fun s b signers sigs => ?_,
    fun _ _ _ _ _ _ _ h h' => ?_, fun _ _ _ _ _ _ _ h h' => ?_⟩
  · have hmsg : Bytes.ofNat 32 b.toNat = b.bytes :=
      congrArg Stellar.BytesN.bytes (Stellar.BytesN.ofNat_toNat b)
    rw [Evm.verifyThreshold_eq_ok, Stellar.State.verifyCommitteeThreshold_eq_ok]
    refine Quorum.map_iff Stellar.BytesN.toNat_injective fun pk sig => ?_
    rw [hE, hmsg]
  · exact (Evm.verifyThreshold_eq_ok.1 h).inter (Evm.verifyThreshold_eq_ok.1 h')
  · exact (Stellar.State.verifyCommitteeThreshold_eq_ok.1 h).inter
      (Stellar.State.verifyCommitteeThreshold_eq_ok.1 h')

/-- A host whose signatures are all valid, and a pool with a committee of three. -/
def permissiveEnv : Stellar.Env :=
  ⟨fun _ => 0, fun _ => .ofNat 32 0, fun _ _ _ => true, fun _ _ _ _ => true, .ofNat 56 0⟩

theorem committee_threshold_two_of_three :
    Evm.verifyThreshold (fun _ _ _ => true) [1, 2, 3] 9 [3, 1] [[], []] = .ok () ∧
      Evm.verifyThreshold (fun _ _ _ => true) [1, 2, 3] 8 [1, 2] [[], []] = .ok () ∧
      1 ≤ (([3, 1] : List ℕ).toFinset ∩ ([1, 2] : List ℕ).toFinset).card := by
  have h : Evm.verifyThreshold (fun _ _ _ => true) [1, 2, 3] 9 [3, 1] [[], []] = .ok () := by
    decide
  have h' : Evm.verifyThreshold (fun _ _ _ => true) [1, 2, 3] 8 [1, 2] [[], []] = .ok () := by
    decide
  obtain ⟨-, -, -, hmeet, -⟩ := committee_threshold (fun _ _ _ => true) permissiveEnv
    fun _ _ _ => rfl
  exact ⟨h, h', (hmeet _ _ _ _ _ _ _ h h').1⟩

end ShadePay
