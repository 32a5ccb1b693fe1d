import ShadePay.Circuit.Honest
import ShadePay.Evm.Verifier

/-!
# A configured deployment

Concrete runs of the Arc contracts. `sampleEnv` is a deployment whose verifiers accept a given list of
public signals; when each of them has a satisfying assignment (`Accepted.Sound`), the verifiers are
sound in every state (`soundAt_sample`). `ready` is that deployment configured by its admin, with
tokens in the pool, and `quiet` the machine without configuration calls: a run of it is computed, and
it is a run of the contracts within every condition a standard configuration implies (`reach_run`), or
one that passes a check (`reach_runChecked`).
The signals of the runs come with the assignments an honest wallet computes.
-/

namespace ShadePay.Evm

open Guard Reentrancy

/-! ## The deployment -/

/-- A hash on lists that is easy to compute: a polynomial in the entries. -/
def samplePoseidon (l : List Bn254) : Bn254 :=
  ((l.foldl (fun acc x => acc * 31 + x.val + 1) 17 : ℕ) : Bn254)

/-- Public signals that the verifiers accept. -/
structure Accepted where
  withdraws : List (WithdrawPub ℕ)
  deposits : List (DepositPub ℕ)
  mpcs : List (MpcPub ℕ)
  opens : List (StreamOpenPub ℕ)
  settles : List (StreamSettlePub ℕ)

def Accepted.signals (acc : Accepted) : List (List ℕ) :=
  acc.withdraws.map WithdrawPub.toList ++ acc.deposits.map DepositPub.toList ++
    acc.mpcs.map MpcPub.toList ++ acc.opens.map StreamOpenPub.toList ++
    acc.settles.map StreamSettlePub.toList

/-- The pool is account 1, the escrow account 2. The hash of an address or a word is the number
itself, and a signature of a message is the message. -/
def sampleEnv (acc : Accepted) : Env where
  poseidon := samplePoseidon
  sha256 b := .ofNat 256 (Bytes.toNat b * 256)
  ed25519 _ _ msg sig := sig == msg
  groth16 _ _ pub := decide (pub ∈ acc.signals)
  pool := 1
  escrow := 2
  poolId := 1
  chainId := 1
  levels := 3
  challengeWindow := 10
  rebasing := false
  levels_pos := by decide
  levels_lt := by decide
  pool_ne_escrow := by decide

/-- The hash of an address is its number. -/
theorem addressHash_sample (acc : Accepted) (a : Address) :
    (sampleEnv acc).addressHash a = a.toNat := by
  have ha : a.toNat < 256 ^ 20 := lt_of_lt_of_eq a.isLt (by norm_num)
  have hlt : a.toNat * 256 < 2 ^ 256 := by omega
  simp only [Env.addressHash, sampleEnv, Bytes.toNat_ofNat_of_lt ha, BitVec.toNat_ofNat,
    Nat.mod_eq_of_lt hlt]
  exact Nat.mul_div_cancel _ (by norm_num)

/-- Each accepted list of signals has a satisfying assignment. -/
structure Accepted.Sound (acc : Accepted) (A : Knowledge) : Prop where
  withdraw : ∀ x ∈ acc.withdraws, ∃ w, Withdraw samplePoseidon 3 2 (x.map Nat.cast) w ∧
    w.input.Hashed samplePoseidon A.hashed 3 2 (w.note (x.map Nat.cast))
  deposit : ∀ x ∈ acc.deposits, ∃ w, DepositNoteMint samplePoseidon (x.map Nat.cast) w ∧
    (w.note (x.map Nat.cast)).Hashed samplePoseidon A.hashed
  mpc : ∀ x ∈ acc.mpcs, ∃ w, MpcSettlement samplePoseidon 3 2 (x.map Nat.cast) w ∧
    A.mpcLaw (x.map Nat.cast) w ∧
    w.inputA.Hashed samplePoseidon A.hashed 3 2 (w.noteA (x.map Nat.cast)) ∧
    w.inputB.Hashed samplePoseidon A.hashed 3 2 (w.noteB (x.map Nat.cast)) ∧
    (w.outNoteA (x.map Nat.cast)).Hashed samplePoseidon A.hashed ∧
    (w.outNoteB (x.map Nat.cast)).Hashed samplePoseidon A.hashed
  streamOpen : ∀ x ∈ acc.opens, ∃ w, StreamOpen samplePoseidon 3 2 (x.map Nat.cast) w ∧
    w.input.Hashed samplePoseidon A.hashed 3 2 (w.note (x.map Nat.cast)) ∧
    (w.changeNote (x.map Nat.cast)).Hashed samplePoseidon A.hashed ∧
    (w.reclaimNote (x.map Nat.cast)).Hashed samplePoseidon A.hashed
  streamSettle : ∀ x ∈ acc.settles, ∃ w, StreamSettle samplePoseidon A.eddsa (x.map Nat.cast) w ∧
    (w.payeeNote (x.map Nat.cast)).Hashed samplePoseidon A.hashed ∧
    (w.refundNote (x.map Nat.cast)).Hashed samplePoseidon A.hashed

section
variable {acc : Accepted} {A : Knowledge}

/-- The signals of the lists. -/
theorem Accepted.mem_signals {l : List ℕ} : l ∈ acc.signals ↔
    (∃ x ∈ acc.withdraws, x.toList = l) ∨ (∃ x ∈ acc.deposits, x.toList = l) ∨
      (∃ x ∈ acc.mpcs, x.toList = l) ∨ (∃ x ∈ acc.opens, x.toList = l) ∨
      ∃ x ∈ acc.settles, x.toList = l := by
  simp [Accepted.signals]

/-- The lengths of the circuits' signals are different. -/
theorem Accepted.of_signals {l : List ℕ} (h : l ∈ acc.signals) :
    (l.length = 18 ∧ ∃ x ∈ acc.withdraws, x.toList = l) ∨
      (l.length = 14 ∧ ∃ x ∈ acc.deposits, x.toList = l) ∨
      (l.length = 12 ∧ ∃ x ∈ acc.mpcs, x.toList = l) ∨
      (l.length = 13 ∧ ∃ x ∈ acc.opens, x.toList = l) ∨
      (l.length = 11 ∧ ∃ x ∈ acc.settles, x.toList = l) := by
  rcases Accepted.mem_signals.1 h with ⟨x, hx, rfl⟩ | ⟨x, hx, rfl⟩ | ⟨x, hx, rfl⟩ | ⟨x, hx, rfl⟩ |
    ⟨x, hx, rfl⟩
  · exact .inl ⟨rfl, x, hx, rfl⟩
  · exact .inr (.inl ⟨rfl, x, hx, rfl⟩)
  · exact .inr (.inr (.inl ⟨rfl, x, hx, rfl⟩))
  · exact .inr (.inr (.inr (.inl ⟨rfl, x, hx, rfl⟩)))
  · exact .inr (.inr (.inr (.inr ⟨rfl, x, hx, rfl⟩)))

/-- **The sample verifiers are sound** in every state. -/
theorem soundAt_sample (h : acc.Sound A) (s : State) : SoundAt (sampleEnv acc) A s := by
  have hmem : ∀ {v : Address} {proof : Groth16Proof} {l : List ℕ},
      (sampleEnv acc).groth16 v proof l = true → l ∈ acc.signals := fun hl => of_decide_eq_true hl
  refine ⟨?_, ?_, ?_, ?_, ?_, ?_, ?_⟩
  · intro proof x hx
    have hof := Accepted.of_signals (hmem hx)
    simp only [WithdrawPub.length_toList, Nat.reduceEqDiff, true_and, false_and, or_false] at hof
    obtain ⟨y, hy, hyx⟩ := hof
    obtain rfl := WithdrawPub.toList_injective hyx
    exact h.withdraw y hy
  · intro proof x hx
    have hof := Accepted.of_signals (hmem hx)
    simp [TransferPub.length_toList] at hof
  · intro proof x hx
    have hof := Accepted.of_signals (hmem hx)
    simp only [DepositPub.length_toList, Nat.reduceEqDiff, true_and, false_and, or_false,
      false_or] at hof
    obtain ⟨y, hy, hyx⟩ := hof
    obtain rfl := DepositPub.toList_injective hyx
    exact h.deposit y hy
  · intro proof x hx
    have hof := Accepted.of_signals (hmem hx)
    simp only [MpcPub.length_toList, Nat.reduceEqDiff, true_and, false_and, or_false,
      false_or] at hof
    obtain ⟨y, hy, hyx⟩ := hof
    obtain rfl := MpcPub.toList_injective hyx
    exact h.mpc y hy
  · intro proof x hx
    have hof := Accepted.of_signals (hmem hx)
    simp [MpcPricedPub.length_toList] at hof
  · intro proof x hx
    have hof := Accepted.of_signals (hmem hx)
    simp only [StreamOpenPub.length_toList, Nat.reduceEqDiff, true_and, false_and, or_false,
      false_or] at hof
    obtain ⟨y, hy, hyx⟩ := hof
    obtain rfl := StreamOpenPub.toList_injective hyx
    exact h.streamOpen y hy
  · intro proof x hx
    have hof := Accepted.of_signals (hmem hx)
    simp only [StreamSettlePub.length_toList, Nat.reduceEqDiff, true_and, false_and,
      false_or] at hof
    obtain ⟨y, hy, hyx⟩ := hof
    obtain rfl := StreamSettlePub.toList_injective hyx
    exact h.streamSettle y hy

end

/-! ## Configuration -/

/-- The root of the state tree over the given leaves. -/
def stateRoot (leaves : List ℕ) : ℕ := Merkle.root (wordHash samplePoseidon) 0 3 leaves

/-- The root of the association tree over the given labels. -/
def labelRoot (labels : List ℕ) : ℕ := Merkle.root (wordHash samplePoseidon) 0 2 labels

/-- The account with all roles. -/
def admin : Address := 10

def usdc : Address := 11

/-- Configure the contracts: the pool and the escrow spend nullifiers, the escrow is the stream
contract, USDC is registered under its hash, and the allowlist holds the label 7. -/
def setup : List AdminCall :=
  [.setAuthorizedSpender 1 true, .setAuthorizedSpender 2 true, .setAuthorizedStreamContract 2 true,
    .registerAsset 11 usdc, .setCctpConfig 12 usdc 0, .setAssociationRoot (labelRoot [7]),
    .setAuthorizedSolver 5 true, .setCommittee [21]]

/-- Run configuration calls in order. -/
def configureAll (sender : Address) : List AdminCall → State → Except Error State
  | [], s => .ok s
  | c :: cs, s => do
      let s' ← s.configure sender c
      configureAll sender cs s'

/-- The machine without configuration calls. -/
def quiet (E : Env) : Machine State (Entry E) Kont Action :=
  { machine E with
    act := fun K a s => match a with
      | .configure _ _ => none
      | a => act E K a s }

section
variable {E : Env} {C : State → Prop} {s s' : State} {tr : List (Frame State (Entry E) Kont)}

/-- **Induction over standard configuration calls.** -/
theorem configureAll_induct {R : State → Prop} {sender : Address} {cs : List AdminCall}
    (hR : ∀ {t c t'}, R t → Standard E t' → t'.pool.tree.leaves = s.pool.tree.leaves →
      t.configure sender c = .ok t' → R t') (h0 : R s) (hs : Standard E s)
    (hcs : ∀ c ∈ cs, c.Standard E) (h : configureAll sender cs s = .ok s') :
    R s' ∧ Standard E s' ∧ s'.pool.tree.leaves = s.pool.tree.leaves := by
  induction cs generalizing s with
  | nil =>
      cases h
      exact ⟨h0, hs, rfl⟩
  | cons c cs ih =>
      simp only [configureAll, bind_eq_ok] at h
      obtain ⟨s₁, h1, h2⟩ := h
      have hs₁ := hs.configure (hcs c (by simp)) h1
      have hl₁ : s₁.pool.tree.leaves = s.pool.tree.leaves := by rw [(configure_inv h1).tree]
      obtain ⟨hR', hs', hl'⟩ := ih (fun ht hst hl hc => hR ht hst (hl.trans hl₁) hc)
        (hR h0 hs₁ hl₁ h1) hs₁ (fun d hd => hcs d (by simp [hd])) h2
      exact ⟨hR', hs', hl'.trans hl₁⟩

/-- The quiet machine takes steps of the machine. -/
theorem quiet_sub : (quiet E).Sub (machine E) where
  enter h := h
  resume h := h
  act {K a s s'} h := by
    cases a with
    | configure => cases h
    | _ => exact h

/-- Only a configuration call changes whether the configuration is standard. -/
theorem preserves_standard : Preserves (quiet E) fun _ w => Standard E w.1 := by
  have henter : ∀ {e : Entry E} {s s' : State} {ko : Option Kont}, Standard E s →
      (quiet E).enter e s = some (s', ko) → Standard E s' := fun hs h =>
    hs.prims (machine_enter (quiet_sub.enter h)).2.1
  have hresume : ∀ {k : Kont} {s s' : State} {ko : Option Kont}, Standard E s →
      (quiet E).resume k s = some (s', ko) → Standard E s' := by
    intro k s s' ko hs h
    refine Standard.prims ?_ (machine_resume (quiet_sub.resume h)).1
    cases k <;> exact hs.congr rfl rfl
  refine ⟨henter, henter, hresume, hresume, ?_⟩
  intro K s tr a s' hs h
  cases a with
  | configure => cases h
  | mint token holder amount =>
      cases h
      exact hs.congr rfl rfl
  | burn token holder amount =>
      simp only [quiet, act, Option.ite_none_right_eq_some, Option.some.injEq] at h
      obtain ⟨-, rfl⟩ := h
      exact hs.congr rfl rfl
  | pull token messenger amount =>
      simp only [quiet, act, Option.ite_none_right_eq_some, Option.some.injEq] at h
      obtain ⟨-, rfl⟩ := h
      exact hs.congr rfl rfl
  | rebase token holder amount =>
      simp only [quiet, act, Option.ite_none_right_eq_some, Option.some.injEq] at h
      obtain ⟨-, rfl⟩ := h
      exact hs.congr rfl rfl
  | mine blocks =>
      simp only [quiet, act, Option.ite_none_right_eq_some, Option.some.injEq] at h
      obtain ⟨-, rfl⟩ := h
      exact hs.congr rfl rfl

end

section
variable (acc : Accepted)

/-- The deployed contracts. -/
def fresh : State :=
  (construct (sampleEnv acc) admin admin admin (fun _ _ => 0) 0).toOption.get rfl

/-- The configured contracts. -/
def configured : State := (configureAll admin setup (fresh acc)).toOption.get rfl

/-- The configured contracts, with 100 USDC in the pool. -/
def ready : State := (configured acc).setBalance usdc 1 ((configured acc).balance usdc 1 + 100)

variable {acc} {C : State → Prop}

theorem deployed_fresh : Deployed (sampleEnv acc) (fresh acc) :=
  ⟨admin, admin, admin, fun _ _ => 0, 0, toOption_eq_some.1 (Option.some_get _).symm⟩

/-- The fresh state has a standard configuration. -/
theorem standard_fresh : Standard (sampleEnv acc) (fresh acc) where
  byHash a ha := absurd (deployed_fresh.spec.2.2.2.1 a).2 ha
  onlyEscrow x hx := by cases hx

/-- **From the deployment to the configured contracts.** What outside acts keep that lead to standard
configurations of the empty tree. -/
theorem ready_induct {R : State → Prop} (h0 : R (fresh acc))
    (hR : ∀ {t x t'}, R t → Standard (sampleEnv acc) t' → t'.pool.tree.leaves = [] →
      act (sampleEnv acc) [] x t = some t' → R t') :
    R (ready acc) ∧ Standard (sampleEnv acc) (ready acc) := by
  have hnil : (fresh acc).pool.tree.leaves = [] := deployed_fresh.spec.2.1
  have hsetup : ∀ c ∈ setup, c.Standard (sampleEnv acc) := by
    have hescrow : (sampleEnv acc).escrow = 2 := rfl
    simp [setup, AdminCall.Standard, addressHash_sample, usdc, hescrow]
  obtain ⟨hr, hs, hl⟩ := @configureAll_induct (sampleEnv acc) (fresh acc) (configured acc) R admin
    setup (fun {t c t'} ht hst htl hc =>
      @hR t (.configure admin c) t' ht hst (htl.trans hnil) (by simp [act, toOption_eq_some, hc]))
    h0 standard_fresh hsetup (toOption_eq_some.1 (Option.some_get _).symm)
  have hs' : Standard (sampleEnv acc) (ready acc) := hs.congr rfl rfl
  exact ⟨@hR (configured acc) (.mint usdc 1 100) _ hr hs' (hl.trans hnil) rfl, hs'⟩

/-- A run to them, within every condition that holds of standard configurations of the empty tree. -/
theorem reach_ready
    (hC : ∀ t, Standard (sampleEnv acc) t → t.pool.tree.leaves = [] → C t) :
    Reach ((machine (sampleEnv acc)).within C) [] (fresh acc, []) [] (ready acc, []) ∧
      Standard (sampleEnv acc) (ready acc) :=
  ready_induct (R := fun t => Reach ((machine (sampleEnv acc)).within C) [] (fresh acc, []) [] (t, []))
    .refl fun ht hs hl ha => ht.act (within_act.2 ⟨ha, hC _ hs hl⟩)

/-- What a list of transactions makes of the configured contracts, as far as the states pass the
check `c`. -/
def runChecked (acc : Accepted) (c : State → Bool) (ts : List (Tx (Entry (sampleEnv acc)) Action)) :
    World State (Entry (sampleEnv acc)) Kont :=
  execAll ((quiet (sampleEnv acc)).filter c) ts [] (ready acc, [])

/-- What a list of transactions makes of the configured contracts. -/
def runFrom (acc : Accepted) (ts : List (Tx (Entry (sampleEnv acc)) Action)) :
    World State (Entry (sampleEnv acc)) Kont :=
  runChecked acc (fun _ => true) ts

/-- **Runs of the configured contracts**, within every condition that holds of the standard
configurations that pass the check. -/
theorem reach_runChecked {c : State → Bool} (hC : ∀ t, Standard (sampleEnv acc) t → c t = true → C t)
    (hempty : ∀ t : State, t.pool.tree.leaves = [] → c t = true)
    (ts : List (Tx (Entry (sampleEnv acc)) Action)) :
    Reach ((machine (sampleEnv acc)).within C) [] (fresh acc, []) [] (runChecked acc c ts) := by
  obtain ⟨hr, hs⟩ := @reach_ready acc C fun t ht hl => hC t ht (hempty t hl)
  have hI : Standard (sampleEnv acc) (ready acc) ∧ c (ready acc) = true :=
    ⟨hs, hempty _ (@deployed_fresh acc).spec.2.1⟩
  refine hr.trans (Reach.within_of ((filter_sub _ c).trans quiet_sub) (preserves_standard.filter c)
    (fun {K w} h => hC w.1 h.1 h.2) hI ?_)
  exact reach_execAll ((quiet (sampleEnv acc)).filter c) ts .refl

/-- A run goes through states with a standard configuration. -/
theorem reach_run (hC : ∀ t, Standard (sampleEnv acc) t → C t)
    (ts : List (Tx (Entry (sampleEnv acc)) Action)) :
    Reach ((machine (sampleEnv acc)).within C) [] (fresh acc, []) [] (runFrom acc ts) :=
  reach_runChecked (fun t ht _ => hC t ht) (fun _ _ => rfl) ts

end

/-! ## Notes and signals -/

/-- A USDC note. -/
def usdcNote (value label nullifier : ℕ) : Note Bn254 := ⟨11, value, label, nullifier, 0⟩

/-- The leaf of a note. -/
def leafOf (n : Note Bn254) : ℕ := (n.commitment samplePoseidon).val

/-- The nullifier hash of a note. -/
def keyOf (n : Note Bn254) : ℕ := (n.nullifierHash samplePoseidon 1 1).val

/-- What a wallet proves with that spends leaf `i`, its label at index `j` of the allowlist. -/
def spendInput (leaves labels : List ℕ) (i j : ℕ) (n : Note Bn254) : SpendInput Bn254 :=
  .honest samplePoseidon (Merkle.pad 0 (leaves.map Nat.cast)) (Merkle.pad 0 (labels.map Nat.cast)) i j n

/-- The signals of a deposit of 100 USDC. -/
def depositOf (n : Note Bn254) (nonce : ℕ) : DepositPub ℕ where
  commitment := leafOf n
  operationType := 4
  sourceDomain := 0
  destinationDomain := 0
  cctpNonceHash := nonce
  burnTxHashHash := 1
  amount6dp := 10
  amount7dp := 100
  assetIdHash := 11
  recipientPool := 1
  encryptedNotePayloadHash := 0
  policyIdHash := 0
  poolId := 1
  chainId := 1

/-- The signals of a spend of a USDC note on the withdraw circuit, without fee. -/
def withdrawOf (n : Note Bn254) (leaves labels : List ℕ) (op value recipient : ℕ) :
    WithdrawPub ℕ where
  nullifierHash := keyOf n
  operationType := op
  withdrawnValue := value
  recipientHash := recipient
  relayerFee := 0
  deadline := 100
  stateRoot := stateRoot leaves
  associationRoot := labelRoot labels
  poolId := 1
  chainId := 1
  quoteHash := 0
  intentHash := 0
  fillReceiptHash := 0
  destinationDomain := 0
  destinationRecipient := 0
  maxFee := 0
  minFinalityThreshold := 0
  assetId := 11

/-- The signals of an opening of channel 3 under the key `(payerAx, 0)`. -/
def openOf (n change reclaim : Note Bn254) (leaves labels : List ℕ) (cap payerAx : ℕ) :
    StreamOpenPub ℕ where
  inputNullifierHash := keyOf n
  changeCommitment := leafOf change
  reclaimCommitment := leafOf reclaim
  stateRoot := stateRoot leaves
  associationRoot := labelRoot labels
  poolId := 1
  chainId := 1
  channelId := 3
  payerAx := payerAx
  payerAy := 0
  cap := cap
  expiry := 5
  assetId := 11

/-- The signals of a settlement of channel 3. -/
def settleOf (payee refund : Note Bn254) (labels : List ℕ) (cap cumulative payerAx : ℕ) :
    StreamSettlePub ℕ where
  payeeCommitment := leafOf payee
  refundCommitment := leafOf refund
  associationRoot := labelRoot labels
  poolId := 1
  chainId := 1
  channelId := 3
  payerAx := payerAx
  payerAy := 0
  cap := cap
  cumulative := cumulative
  assetId := 11

/-- The signals of a committee settlement of two USDC notes. -/
def mpcOf (a b outA outB : Note Bn254) (leaves labels : List ℕ) (batchHash matched : ℕ) :
    MpcPub ℕ where
  nullifierHashA := keyOf a
  nullifierHashB := keyOf b
  outputCommitmentA := leafOf outA
  outputCommitmentB := leafOf outB
  stateRoot := stateRoot leaves
  associationRoot := labelRoot labels
  batchHash := batchHash
  poolId := 1
  chainId := 1
  matchedAmount7dp := matched
  deadline := 100
  assetId := 11

section
variable {n : Note Bn254} {leaves labels : List ℕ} {i j : ℕ}

theorem cast_leafOf (n : Note Bn254) : ((leafOf n : ℕ) : Bn254) = n.commitment samplePoseidon :=
  ZMod.natCast_zmod_val _

/-- Padded leaves as elements of the field. -/
theorem cast_pad (l : List ℕ) (i : ℕ) :
    Merkle.pad 0 (l.map Nat.cast) i = ((Merkle.pad 0 l i : ℕ) : Bn254) := by
  simpa [Merkle.node] using (@cast_node samplePoseidon l 0 i).symm

/-- The spend block of a wallet's inputs. -/
theorem spends_sample (hi : i < 2 ^ 3) (hj : j < 2 ^ 2) (hleaf : Merkle.pad 0 leaves i = leafOf n)
    (hlabel : ((Merkle.pad 0 labels j : ℕ) : Bn254) = n.label) :
    SpendsNote samplePoseidon 3 2 (spendInput leaves labels i j n) n (stateRoot leaves : ℕ)
      (labelRoot labels : ℕ) (1 : ℕ) (1 : ℕ) (keyOf n : ℕ) := by
  have hs : ((stateRoot leaves : ℕ) : Bn254) = _ := cast_node 3 0
  have hl : ((labelRoot labels : ℕ) : Bn254) = _ := cast_node 2 0
  have hk : ((keyOf n : ℕ) : Bn254) = n.nullifierHash samplePoseidon (1 : ℕ) (1 : ℕ) := by
    simp [keyOf]
  rw [hs, hl, hk]
  exact spendsNote_honest hi hj (by rw [cast_pad, hleaf, cast_leafOf]) (by rw [cast_pad, hlabel])

/-- What a wallet's inputs hash. -/
theorem hashed_sample {U : Set (List Bn254)} (hi : i < 2 ^ 3) (hj : j < 2 ^ 2)
    (hleaf : Merkle.pad 0 leaves i = leafOf n)
    (hlabel : ((Merkle.pad 0 labels j : ℕ) : Bn254) = n.label) (hn : n.Hashed samplePoseidon U)
    (hs : TreeHashed samplePoseidon U (Merkle.pad 0 (leaves.map Nat.cast)) 3)
    (hl : TreeHashed samplePoseidon U (Merkle.pad 0 (labels.map Nat.cast)) 2) :
    (spendInput leaves labels i j n).Hashed samplePoseidon U 3 2 n :=
  SpendInput.honest_hashed (by norm_num) (by norm_num) hi hj (by rw [cast_pad, hleaf, cast_leafOf])
    (by rw [cast_pad, hlabel]) hn hs hl

/-- A difference of small numbers passes its range check. -/
theorem inRange_sub {v w : ℕ} (hv : v < 2 ^ 128) (hw : w ≤ v) :
    InRange 128 ((v : Bn254) - (w : Bn254)) := by
  rw [← Nat.cast_sub hw]
  exact inRange_natCast (by norm_num) (by omega)

/-- `DepositNoteMint` of a deposit. -/
theorem depositOf_sat {label nullifier : ℕ} (nonce : ℕ) :
    DepositNoteMint samplePoseidon ((depositOf (usdcNote 100 label nullifier) nonce).map Nat.cast)
      ⟨(100 : ℕ), ⟨label, nullifier, 0⟩⟩ where
  commitment := cast_leafOf _
  surplus := inRange_sub (v := 100) (by norm_num) le_rfl
  value := inRange_natCast (by norm_num) (by norm_num)

/-- `Withdraw` of a spend. -/
theorem withdrawOf_sat {value label nullifier op v recipient : ℕ}
    (hspend : SpendsNote samplePoseidon 3 2
      (spendInput leaves labels i j (usdcNote value label nullifier)) (usdcNote value label nullifier)
      (stateRoot leaves : ℕ) (labelRoot labels : ℕ) (1 : ℕ) (1 : ℕ)
      (keyOf (usdcNote value label nullifier) : ℕ))
    (hvalue : value < 2 ^ 128) (hv : v ≤ value) :
    Withdraw samplePoseidon 3 2
      ((withdrawOf (usdcNote value label nullifier) leaves labels op v recipient).map Nat.cast)
      ⟨value, spendInput leaves labels i j (usdcNote value label nullifier)⟩ where
  spends := hspend
  remainingValue := inRange_sub hvalue hv
  withdrawnValue := inRange_natCast (by norm_num) (lt_of_le_of_lt hv hvalue)
  netOutput := inRange_sub (lt_of_le_of_lt hv hvalue) (Nat.zero_le v)
  relayerFee := inRange_natCast (m := 0) (by norm_num) (by norm_num)

/-- `StreamOpen` of an opening: the change is what the cap leaves. -/
theorem openOf_sat {value label nullifier cap changeNull reclaimNull payerAx : ℕ}
    (hspend : SpendsNote samplePoseidon 3 2
      (spendInput leaves labels i j (usdcNote value label nullifier)) (usdcNote value label nullifier)
      (stateRoot leaves : ℕ) (labelRoot labels : ℕ) (1 : ℕ) (1 : ℕ)
      (keyOf (usdcNote value label nullifier) : ℕ))
    (hvalue : value < 2 ^ 128) (hcap : cap ≤ value) :
    StreamOpen samplePoseidon 3 2
      ((openOf (usdcNote value label nullifier) (usdcNote (value - cap) label changeNull)
        (usdcNote cap label reclaimNull) leaves labels cap payerAx).map Nat.cast)
      ⟨value, spendInput leaves labels i j (usdcNote value label nullifier),
        ⟨label, changeNull, 0⟩, ⟨label, reclaimNull, 0⟩⟩ where
  spends := hspend
  changeRange := inRange_sub hvalue hcap
  capRange := inRange_natCast (by norm_num) (lt_of_le_of_lt hcap hvalue)
  change := by
    have hsub : ((value - cap : ℕ) : Bn254) = (value : Bn254) - (cap : Bn254) := Nat.cast_sub hcap
    refine (cast_leafOf _).trans ?_
    rw [usdcNote, hsub]
    rfl
  reclaim := cast_leafOf _

/-- Vouchers of the runs: a signature of `M` under the key `(Ax, Ay)` repeats both. -/
def sampleEddsa (Ax _Ay M : Bn254) (sig : Signature Bn254) : Prop := sig.R8x = Ax ∧ sig.S = M

/-- `StreamSettle` of a settlement with the payer's voucher. -/
theorem settleOf_sat {label cap cumulative payeeNull refundNull payerAx : ℕ} (hcap : cap < 2 ^ 128)
    (hcum : cumulative ≤ cap) (seq : Bn254) :
    StreamSettle samplePoseidon sampleEddsa
      ((settleOf (usdcNote cumulative label payeeNull) (usdcNote (cap - cumulative) label refundNull)
        labels cap cumulative payerAx).map Nat.cast)
      ⟨seq, ⟨payerAx, 0, voucherMessage samplePoseidon (3 : ℕ) cumulative seq⟩,
        ⟨label, payeeNull, 0⟩, ⟨label, refundNull, 0⟩⟩ where
  signed := ⟨rfl, rfl⟩
  refundRange := inRange_sub hcap hcum
  cumulativeRange := inRange_natCast (by norm_num) (lt_of_le_of_lt hcum hcap)
  payee := cast_leafOf _
  refund := by
    have hsub : ((cap - cumulative : ℕ) : Bn254) = (cap : Bn254) - (cumulative : Bn254) :=
      Nat.cast_sub hcum
    refine (cast_leafOf _).trans ?_
    rw [usdcNote, hsub]
    rfl

/-- `MpcSettlement` of two notes whose outputs share twice the matched amount. -/
theorem mpcOf_sat {k l valueA valueB labelA labelB nullA nullB outA outB outNullA outNullB batchHash
      matched : ℕ}
    (hspendA : SpendsNote samplePoseidon 3 2
      (spendInput leaves labels i j (usdcNote valueA labelA nullA)) (usdcNote valueA labelA nullA)
      (stateRoot leaves : ℕ) (labelRoot labels : ℕ) (1 : ℕ) (1 : ℕ)
      (keyOf (usdcNote valueA labelA nullA) : ℕ))
    (hspendB : SpendsNote samplePoseidon 3 2
      (spendInput leaves labels k l (usdcNote valueB labelB nullB)) (usdcNote valueB labelB nullB)
      (stateRoot leaves : ℕ) (labelRoot labels : ℕ) (1 : ℕ) (1 : ℕ)
      (keyOf (usdcNote valueB labelB nullB) : ℕ))
    (hA : valueA < 2 ^ 128) (hB : valueB < 2 ^ 128) (hmA : matched ≤ valueA) (hmB : matched ≤ valueB)
    (hout : outA + outB = matched * 2) :
    MpcSettlement samplePoseidon 3 2
      ((mpcOf (usdcNote valueA labelA nullA) (usdcNote valueB labelB nullB)
        (usdcNote outA labelA outNullA) (usdcNote outB labelB outNullB) leaves labels batchHash
        matched).map Nat.cast)
      ⟨valueA, spendInput leaves labels i j (usdcNote valueA labelA nullA), outA,
        ⟨labelA, outNullA, 0⟩, valueB, spendInput leaves labels k l (usdcNote valueB labelB nullB),
        outB, ⟨labelB, outNullB, 0⟩⟩ where
  spendsA := hspendA
  spendsB := hspendB
  outputA := cast_leafOf _
  outputB := cast_leafOf _
  remainA := inRange_sub hA hmA
  remainB := inRange_sub hB hmB
  conservation := by
    have hcast := congrArg (Nat.cast : ℕ → Bn254) hout
    push_cast at hcast
    exact hcast

end

/-! ## Runs -/

section
variable (acc : Accepted)

/-- A proof: the sample verifiers look at the signals only. -/
def someProof : Groth16Proof := ⟨(0, 0), ((0, 0), (0, 0)), (0, 0)⟩

theorem admin_ne_pool : admin ≠ 1 := by decide

theorem admin_ne_escrow : admin ≠ 2 := by decide

/-- A call of the admin, with nothing in between its external calls. -/
def callTx (c : Call) : Tx (Entry (sampleEnv acc)) Action :=
  .call ⟨admin, c, admin_ne_pool, admin_ne_escrow⟩ [[], []]

/-- The deposit of a note of 100 USDC. -/
def depositTx (n : Note Bn254) (nonce : ℕ) : Tx (Entry (sampleEnv acc)) Action :=
  callTx acc (.receiveDeposit 0 nonce usdc 100 (leafOf n) 0 0 someProof (depositOf n nonce))

end

/-- The pairs hashed by a tree of depth `d`. -/
def treePairs (d : ℕ) (leaves : List ℕ) : List (List Bn254) :=
  (List.range d).flatMap fun l => (List.range (2 ^ (d - 1 - l))).map fun j =>
    [Merkle.node (hash2 samplePoseidon) (Merkle.pad 0 (leaves.map Nat.cast)) l (2 * j),
      Merkle.node (hash2 samplePoseidon) (Merkle.pad 0 (leaves.map Nat.cast)) l (2 * j + 1)]

/-- A tree is hashed if the pairs of its nodes are. -/
theorem treeHashed_of {U : Set (List Bn254)} {d : ℕ} {leaves : List ℕ}
    (h : ∀ l ∈ treePairs d leaves, l ∈ U) :
    TreeHashed samplePoseidon U (Merkle.pad 0 (leaves.map Nat.cast)) d := by
  intro q hq
  obtain ⟨l, hl, j, hj, rfl⟩ := Merkle.mem_nodePairs.1 hq
  refine h _ (List.mem_flatMap.2 ⟨l, List.mem_range.2 hl, List.mem_map.2 ⟨j, ?_, rfl⟩⟩)
  exact List.mem_range.2 ((Nat.div_eq_zero_iff.1 hj).resolve_left (by positivity))

/-- Nothing is known of accepted proofs but their assignments. -/
def noKnowledge : Knowledge := ⟨sampleEddsa, Set.univ, fun _ _ => True⟩

theorem Note.hashed_univ (n : Note Bn254) : n.Hashed samplePoseidon Set.univ := fun _ _ => trivial

theorem treeHashed_univ (f : ℕ → Bn254) (d : ℕ) : TreeHashed samplePoseidon Set.univ f d :=
  fun _ _ => trivial

/-- The first note of the runs. -/
def note₁ : Note Bn254 := usdcNote 100 7 1

/-- Its spend out of the tree that holds it alone. -/
theorem spends_note₁ : SpendsNote samplePoseidon 3 2 (spendInput [leafOf note₁] [7] 0 0 note₁) note₁
    (stateRoot [leafOf note₁] : ℕ) (labelRoot [7] : ℕ) (1 : ℕ) (1 : ℕ) (keyOf note₁ : ℕ) :=
  spends_sample (by norm_num) (by norm_num) rfl rfl

/-- The signals of a run that deposits the first note and withdraws 60 of it to account 9. -/
def withdrawal : Accepted where
  withdraws := [withdrawOf note₁ [leafOf note₁] [7] 1 60 9]
  deposits := [depositOf note₁ 1]
  mpcs := []
  opens := []
  settles := []

/-- They have assignments, which hash the note and its two trees. -/
theorem withdrawal_sound {A : Knowledge} (hn : note₁.Hashed samplePoseidon A.hashed)
    (hs : TreeHashed samplePoseidon A.hashed (Merkle.pad 0 ([leafOf note₁].map Nat.cast)) 3)
    (hl : TreeHashed samplePoseidon A.hashed (Merkle.pad 0 ([7].map Nat.cast)) 2) :
    withdrawal.Sound A where
  withdraw x hx := by
    obtain rfl := List.mem_singleton.1 hx
    exact ⟨_, withdrawOf_sat spends_note₁ (by norm_num) (by norm_num),
      hashed_sample (by norm_num) (by norm_num) rfl rfl hn hs hl⟩
  deposit x hx := by
    obtain rfl := List.mem_singleton.1 hx
    exact ⟨_, depositOf_sat 1, hn⟩
  mpc x hx := by cases hx
  streamOpen x hx := by cases hx
  streamSettle x hx := by cases hx

/-- The deposit and the withdrawal. -/
def withdrawalRun : List (Tx (Entry (sampleEnv withdrawal)) Action) :=
  [depositTx _ note₁ 1,
    callTx _ (.withdraw 9 someProof (withdrawOf note₁ [leafOf note₁] [7] 1 60 9))]

/-- Both succeed: 40 USDC remain as supply and as balance, and account 9 has 60. -/
theorem withdrawalRun_result : (runFrom withdrawal withdrawalRun).2.length = 2 ∧
    (runFrom withdrawal withdrawalRun).1.pool.noteSupplyOf 11 = 40 ∧
    (runFrom withdrawal withdrawalRun).1.balance usdc 1 = 40 ∧
    (runFrom withdrawal withdrawalRun).1.balance usdc 9 = 60 := by
  decide +kernel

/-- The signals of a run on channel 3: the first note is put into it as a whole, and the payer's key 4
has signed vouchers for 60 and for 10. -/
def streaming : Accepted where
  withdraws := []
  deposits := [depositOf note₁ 1, depositOf (usdcNote 100 7 2) 2]
  mpcs := []
  opens := [openOf note₁ (usdcNote 0 7 11) (usdcNote 100 7 12) [leafOf note₁] [7] 100 4]
  settles := [settleOf (usdcNote 60 7 13) (usdcNote 40 7 14) [7] 100 60 4,
    settleOf (usdcNote 10 7 15) (usdcNote 90 7 16) [7] 100 10 4]

/-- The verifiers of the run are sound for their lists. -/
theorem streaming_sound : streaming.Sound noKnowledge where
  withdraw x hx := by cases hx
  deposit x hx := by
    rcases List.mem_pair.1 hx with rfl | rfl
    · exact ⟨_, depositOf_sat 1, Note.hashed_univ _⟩
    · exact ⟨_, depositOf_sat 2, Note.hashed_univ _⟩
  mpc x hx := by cases hx
  streamOpen x hx := by
    obtain rfl := List.mem_singleton.1 hx
    exact ⟨_, @openOf_sat [leafOf note₁] [7] 0 0 100 7 1 100 11 12 4 spends_note₁ (by norm_num) le_rfl,
      hashed_sample (by norm_num) (by norm_num) rfl rfl (Note.hashed_univ _) (treeHashed_univ _ _)
        (treeHashed_univ _ _), Note.hashed_univ _, Note.hashed_univ _⟩
  streamSettle x hx := by
    rcases List.mem_pair.1 hx with rfl | rfl
    · exact ⟨_, @settleOf_sat [7] 7 100 60 13 14 4 (by norm_num) (by norm_num) 2, Note.hashed_univ _,
        Note.hashed_univ _⟩
    · exact ⟨_, @settleOf_sat [7] 7 100 10 15 16 4 (by norm_num) (by norm_num) 1, Note.hashed_univ _,
        Note.hashed_univ _⟩

/-- The deposit and the opening. -/
def openRun : List (Tx (Entry (sampleEnv streaming)) Action) :=
  [depositTx _ note₁ 1, callTx _ (.open someProof
    (openOf note₁ (usdcNote 0 7 11) (usdcNote 100 7 12) [leafOf note₁] [7] 100 4))]

/-- The settlement with the voucher for 10. -/
def settleTx : Tx (Entry (sampleEnv streaming)) Action :=
  callTx _ (.settle someProof (settleOf (usdcNote 10 7 15) (usdcNote 90 7 16) [7] 100 10 4))

end ShadePay.Evm
