import ShadePay.Circuit.Price
import ShadePay.Committee
import ShadePay.Evm.Compliance
import ShadePay.Mpc.BatchHash

/-!
# What a committee approves

`mpcSettle` and `mpcSettlePriced` check the committee's signatures over a batch hash, and that the proof
carries the hash as a public signal. The circuits pass that signal through and the pool records no
hash, so neither says which of the batch's matches is settled. `approved_settlements` is what holds over
runs: the hash fixes the batch, a quorum has signed it, the proof carries it, the call spends two
unspent notes that cover its own amount, and the notes of no match are settled by two calls.
`approval_reused` is a run in which the signatures for one match settle two other notes as well.
-/

namespace ShadePay.Evm

open Guard Reentrancy Mpc

/-! ## Calls and matches -/

/-- What a call presents of the committee. -/
structure Approval where
  batchHash : ℕ
  signerPubkeys : List ℕ
  signatures : List (List UInt8)
deriving DecidableEq

def Call.approval : Call → Option Approval
  | .mpcSettle b pks sigs _ _ => some ⟨b, pks, sigs⟩
  | .mpcSettlePriced b pks sigs _ _ => some ⟨b, pks, sigs⟩
  | _ => none

/-- The hexadecimal text of the batch hash, which the committee's nodes compute. -/
def Approval.text (a : Approval) : String := String.ofList (Text.hex (Bytes.ofNat 32 a.batchHash))

/-- What the public signals of a committee call name. -/
structure Settlement where
  nullifierA : ℕ
  nullifierB : ℕ
  batchSignal : ℕ
  amount : ℕ
  priced : Bool
deriving DecidableEq

def Call.settlement : Call → Option Settlement
  | .mpcSettle _ _ _ _ pub =>
      some ⟨pub.nullifierHashA, pub.nullifierHashB, pub.batchHash, pub.matchedAmount7dp, false⟩
  | .mpcSettlePriced _ _ _ _ pub =>
      some ⟨pub.nullifierHashA, pub.nullifierHashB, pub.batchHash, pub.matchedAmountA, true⟩
  | _ => none

/-- The settlement spends the notes of the match's two intents. -/
def Settlement.SpendsNotes (nullifier : String → ℕ) (m : BatchMatch) (x : Settlement) : Prop :=
  [x.nullifierA, x.nullifierB].Perm [nullifier m.intentAId, nullifier m.intentBId]

/-- The settlement is the match's: its notes, its amount, and the entry point for its kind. -/
structure Settlement.Settles (nullifier : String → ℕ) (m : BatchMatch) (x : Settlement) : Prop where
  notes : x.SpendsNotes nullifier m
  amount : m.matchedAmount7dp = toString x.amount
  entryPoint : x.priced = m.priceScaled.isSome

/-- The notes cover what the signals name: in a same-asset match each exceeds the amount by a 128-bit
number, in a priced one they are the two amounts, which meet the constraints on the price. -/
def Call.Covers : Call → Note Bn254 → Note Bn254 → Prop
  | .mpcSettle _ _ _ _ pub, nA, nB => nA.assetId = pub.assetId ∧ nB.assetId = pub.assetId ∧
      InRange 128 (nA.value - pub.matchedAmount7dp) ∧ InRange 128 (nB.value - pub.matchedAmount7dp)
  | .mpcSettlePriced _ _ _ _ pub, nA, nB => nA.assetId = pub.inputAssetA ∧
      nB.assetId = pub.inputAssetB ∧ nA.value = pub.matchedAmountA ∧ nB.value = pub.matchedAmountB ∧
      PriceConstraints (pub.map (Nat.cast : ℕ → Bn254))
  | _, _, _ => False

/-- Two different unspent notes behind a settlement in `s`, which are on the allowlist and cover it. -/
structure Opened (E : Env) (A : Knowledge) (s : State) (c : Call) (x : Settlement)
    (nA nB : Note Bn254) : Prop where
  keyA : x.nullifierA = noteKey E nA
  keyB : x.nullifierB = noteKey E nB
  distinct : x.nullifierA ≠ x.nullifierB
  unspentA : s.registry.spent x.nullifierA = false
  unspentB : s.registry.spent x.nullifierB = false
  allowedA : Spendable E A s nA
  allowedB : Spendable E A s nB
  covers : c.Covers nA nB

section
variable {E : Env} {A : Knowledge} {s : State} {c : Call} {x : Settlement}

/-- A call with an approval settles. -/
theorem Call.settlement_of_approval {a : Approval} (h : c.approval = some a) :
    ∃ x, c.settlement = some x := by
  cases c with
  | mpcSettle => exact ⟨_, rfl⟩
  | mpcSettlePriced => exact ⟨_, rfl⟩
  | _ => cases h

/-- A committee settlement spends two notes. -/
theorem Call.settlement_nullifiers (sender : Address) (h : c.settlement = some x) :
    c.nullifiers E sender s = [x.nullifierA, x.nullifierB] := by
  cases c with
  | mpcSettle => cases h; rfl
  | mpcSettlePriced => cases h; rfl
  | _ => cases h

/-- The checks of the signatures and of the public signal. -/
theorem Call.Checks.approved {sender : Address} (hc : c.Checks E sender s) {a : Approval}
    (ha : c.approval = some a) (hx : c.settlement = some x) :
    Quorum (fun pk sig => E.ed25519 s.pool.ed25519Verifier pk (Bytes.ofNat 32 a.batchHash) sig = true)
        s.pool.committee a.signerPubkeys a.signatures ∧
      x.batchSignal = E.hashToField a.batchHash := by
  cases c with
  | mpcSettle b pks sigs proof pub =>
      cases ha
      cases hx
      obtain ⟨hsig, -, -, -, -, hhash, -⟩ := hc
      exact ⟨verifyThreshold_eq_ok.1 hsig, hhash⟩
  | mpcSettlePriced b pks sigs proof pub =>
      cases ha
      cases hx
      obtain ⟨hsig, -, -, -, -, hhash, -⟩ := hc
      exact ⟨verifyThreshold_eq_ok.1 hsig, hhash⟩
  | _ => cases ha

/-- The assignment behind an accepted proof opens two notes that cover the settlement. -/
theorem Call.Checks.covered {sender : Address} (hc : c.Checks E sender s) (hs : SoundAt E A s)
    (hx : c.settlement = some x) : ∃ nA nB, x.nullifierA = noteKey E nA ∧
      x.nullifierB = noteKey E nB ∧ Spendable E A s nA ∧ Spendable E A s nB ∧ c.Covers nA nB := by
  cases c with
  | mpcSettle b pks sigs proof pub =>
      cases hx
      obtain ⟨-, hver, -, -, hassoc, -, hdom, -⟩ := hc
      obtain ⟨w, hw, -, hA, hB, -⟩ := hs.mpc (E.groth16_of_verifyProof hver)
      have hlt := E.lt_of_verifyProof hver
      exact ⟨_, _, eq_noteKey (hlt _ (by simp [MpcPub.toList])) hdom hw.spendsA.nullifier,
        eq_noteKey (hlt _ (by simp [MpcPub.toList])) hdom hw.spendsB.nullifier,
        .of hw.spendsA hA hdom hassoc, .of hw.spendsB hB hdom hassoc, rfl, rfl, hw.remainA, hw.remainB⟩
  | mpcSettlePriced b pks sigs proof pub =>
      cases hx
      obtain ⟨-, hver, -, -, hassoc, -, hdom, -, -⟩ := hc
      obtain ⟨w, hw, hA, hB, -⟩ := hs.mpcPriced (E.groth16_of_verifyProof hver)
      have hlt := E.lt_of_verifyProof hver
      exact ⟨_, _, eq_noteKey (hlt _ (by simp [MpcPricedPub.toList])) hdom hw.spendsA.nullifier,
        eq_noteKey (hlt _ (by simp [MpcPricedPub.toList])) hdom hw.spendsB.nullifier,
        .of hw.spendsA hA hdom hassoc, .of hw.spendsB hB hdom hassoc, rfl, rfl, rfl, rfl, hw.price⟩
  | _ => cases hx

/-- A committee call has no external call, so it is on record as finished. -/
theorem FramesOk.committee {C : State → Prop} {K : List (Pending State (Entry E) Kont)}
    {w : World State (Entry E) Kont} (h : FramesOk C K w) {q : Entry E × State} (hq : q ∈ calls K w)
    (hx : q.1.call.settlement = some x) : C q.2 ∧ q.1.call.Checks E q.1.sender q.2 ∧
      ∃ s', runPrims E (q.1.call.prims E q.1.sender q.2) q.2 = .ok s' := by
  have hkont : q.1.call.kont q.2 = none := by
    cases hcall : q.1.call with
    | mpcSettle => rfl
    | mpcSettlePriced => rfl
    | _ => rw [hcall] at hx; cases hx
  rcases List.mem_append.1 hq with hq | hq
  · obtain ⟨f, hf, rfl⟩ := List.mem_map.1 hq
    obtain ⟨hC, hc, ⟨-, -, hrun⟩ | ⟨ks, k, s, -, -, hs, -⟩⟩ := h.finished f hf
    · exact ⟨hC, hc, _, hrun⟩
    · exact absurd hkont hs.kont_ne
  · obtain ⟨p, hp, rfl⟩ := List.mem_map.1 hq
    exact absurd hkont (h.pending p hp).2.2.kont_ne

/-! ## Runs -/

variable {s₀ : State} {K : List (Pending State (Entry E) Kont)} {w : World State (Entry E) Kont}

/-- **What an approval binds.** The verifiers are sound, and SHA-256 has no collision on the messages
`U`. Every call of a run that presents signatures over the hash of a batch presents a quorum of the
committee for it and a proof that carries it, and spends two unspent notes that cover its own amount.
The notes of no match are settled by two calls, whatever these present; and the hash fixes the batch id
and the rows of the matches. -/
theorem approved_settlements (hs : SoundAt E A s₀)
    (hr : Reach ((machine E).within (SoundAt E A)) [] (s₀, []) K w) (nullifier : String → ℕ)
    {U : Set (List UInt8)} (hU : Set.InjOn E.sha256 U) {batchId : String} {batch : List BatchMatch}
    (hb : batchMessage batchId batch ∈ U) :
    (∀ q ∈ calls K w, ∀ a, q.1.call.approval = some a →
      a.text = computeBatchHash E.sha256 batchId batch →
      Quorum (fun pk sig => E.ed25519 q.2.pool.ed25519Verifier pk (Bytes.ofNat 32 a.batchHash) sig = true)
          q.2.pool.committee a.signerPubkeys a.signatures ∧
        ∃ x, q.1.call.settlement = some x ∧ x.batchSignal = E.hashToField a.batchHash ∧
          ∃ nA nB, Opened E A q.2 q.1.call x nA nB) ∧
    (∀ m ∈ batch, (calls K w).Pairwise fun q r =>
      ∀ x ∈ q.1.call.settlement, ∀ y ∈ r.1.call.settlement,
        ¬ (x.SpendsNotes nullifier m ∧ y.SpendsNotes nullifier m)) ∧
    ∀ batchId' batch', batchMessage batchId' batch' ∈ U →
      computeBatchHash E.sha256 batchId batch = computeBatchHash E.sha256 batchId' batch' →
      batchId = batchId' ∧ (batch.map BatchMatch.row).Perm (batch'.map BatchMatch.row) := by
  obtain ⟨-, hspent⟩ := preserves_spent.reach hs ⟨by simp [calls], by simp [calls], by simp [calls]⟩ hr
  refine ⟨fun q hq a ha _ => ?_, fun m _ => ?_, fun _ _ => computeBatchHash_inj hU hb⟩
  · obtain ⟨x, hx⟩ := Call.settlement_of_approval ha
    obtain ⟨hsound, hc, s', hrun⟩ := (framesOk_reach hs hr).committee hq hx
    obtain ⟨hquorum, hsignal⟩ := hc.approved ha hx
    obtain ⟨nA, nB, hkA, hkB, hA, hB, hcov⟩ := hc.covered hsound hx
    obtain ⟨hnd, hfresh, -⟩ := runPrims_spent hrun
    have hnull : (q.1.call.prims E q.1.sender q.2).flatMap Prim.nullifiers =
        [x.nullifierA, x.nullifierB] := Call.settlement_nullifiers q.1.sender hx
    rw [hnull] at hnd hfresh
    exact ⟨hquorum, x, hx, hsignal, nA, nB, hkA, hkB, by simpa using hnd, hfresh _ (by simp),
      hfresh _ (by simp), hA, hB, hcov⟩
  · -- the nullifiers of different calls are different
    have hdisj := (List.nodup_flatMap.1 hspent.nodup).2
    have hnote : ∀ {q : Entry E × State} {x : Settlement}, x ∈ q.1.call.settlement →
        x.SpendsNotes nullifier m →
        nullifier m.intentAId ∈ q.1.call.nullifiers E q.1.sender q.2 := fun hx h => by
      rw [Call.settlement_nullifiers _ hx]
      exact h.symm.subset (by simp)
    exact hdisj.imp fun hqr x hx y hy hxy => hqr (hnote hx hxy.1) (hnote hy hxy.2)

end

/-! ## A run -/

/-- Four notes of 100. -/
def crossed (i : ℕ) : Note Bn254 := usdcNote 100 7 i

/-- The leaves of the four notes. -/
def crossedLeaves : List ℕ := [leafOf (crossed 1), leafOf (crossed 2), leafOf (crossed 3), leafOf (crossed 4)]

/-- The match of the first two notes. -/
def approvedMatch : BatchMatch := ⟨⟨"intent-1", "intent-2", "100", "USDC", "USDC"⟩, none, none, none⟩

/-- The nullifiers of the two intents. -/
def approvedNullifier (intentId : String) : ℕ :=
  if intentId = "intent-1" then keyOf (crossed 1) else keyOf (crossed 2)

/-- The hash of the batch of this match. -/
def approvedHash : ℕ := ((sampleEnv withdrawal).sha256 (batchMessage "batch-1" [approvedMatch])).toNat

/-- The settlement of the match, and one of 50 between the other two notes. -/
def crossings : List (MpcPub ℕ) :=
  [mpcOf (crossed 1) (crossed 2) (usdcNote 100 7 11) (usdcNote 100 7 12) crossedLeaves [7]
      ((sampleEnv withdrawal).hashToField approvedHash) 100,
    mpcOf (crossed 3) (crossed 4) (usdcNote 50 7 13) (usdcNote 50 7 14) crossedLeaves [7]
      ((sampleEnv withdrawal).hashToField approvedHash) 50]

/-- The signals of the run. -/
def crossing : Accepted where
  withdraws := []
  deposits := [depositOf (crossed 1) 1, depositOf (crossed 2) 2, depositOf (crossed 3) 3,
    depositOf (crossed 4) 4]
  mpcs := crossings
  opens := []
  settles := []

/-- The four deposits, and a settlement under the one signature for each of the signals. -/
def crossingRun : List (Tx (Entry (sampleEnv crossing)) Action) :=
  .act (.mint usdc 1 300) ::
    ([1, 2, 3, 4].map fun i => depositTx _ (crossed i) i) ++
    crossings.map fun pub =>
      callTx _ (.mpcSettle approvedHash [21] [Bytes.ofNat 32 approvedHash] someProof pub)

/-- The verifiers of the run are sound for their lists. -/
theorem crossing_sound : crossing.Sound noKnowledge where
  withdraw x hx := by cases hx
  deposit x hx := by
    simp only [crossing, List.mem_cons, List.not_mem_nil, or_false] at hx
    rcases hx with rfl | rfl | rfl | rfl
    · exact ⟨_, depositOf_sat 1, Note.hashed_univ _⟩
    · exact ⟨_, depositOf_sat 2, Note.hashed_univ _⟩
    · exact ⟨_, depositOf_sat 3, Note.hashed_univ _⟩
    · exact ⟨_, depositOf_sat 4, Note.hashed_univ _⟩
  mpc x hx := by
    have hspend : ∀ i : Fin 4, SpendsNote samplePoseidon 3 2
        (spendInput crossedLeaves [7] i 0 (crossed (i + 1))) (crossed (i + 1))
        (stateRoot crossedLeaves : ℕ) (labelRoot [7] : ℕ) (1 : ℕ) (1 : ℕ)
        (keyOf (crossed (i + 1)) : ℕ) := by
      intro i
      refine spends_sample (by omega) (by norm_num) ?_ rfl
      fin_cases i <;> rfl
    have hinput : ∀ (i : ℕ) (n : Note Bn254),
        (spendInput crossedLeaves [7] i 0 n).Hashed samplePoseidon Set.univ 3 2 n := fun _ n =>
      ⟨Note.hashed_univ n, fun _ _ _ => trivial, fun _ _ _ => trivial⟩
    rcases List.mem_pair.1 hx with rfl | rfl
    · exact ⟨_, @mpcOf_sat crossedLeaves [7] 0 0 1 0 100 100 7 7 1 2 100 100 11 12 _ 100 (hspend 0)
        (hspend 1) (by norm_num) (by norm_num) le_rfl le_rfl rfl, trivial, hinput _ _, hinput _ _,
        Note.hashed_univ _, Note.hashed_univ _⟩
    · exact ⟨_, @mpcOf_sat crossedLeaves [7] 2 0 3 0 100 100 7 7 3 4 50 50 13 14 _ 50 (hspend 2)
        (hspend 3) (by norm_num) (by norm_num) (by norm_num) (by norm_num) rfl, trivial, hinput _ _,
        hinput _ _, Note.hashed_univ _, Note.hashed_univ _⟩
  streamOpen x hx := by cases hx
  streamSettle x hx := by cases hx

theorem crossing_soundAt (s : State) : SoundAt (sampleEnv crossing) noKnowledge s :=
  soundAt_sample crossing_sound s

/-- The last call of the run: the one signature again, and the other two notes. -/
theorem crossingRun_reused : ∃ q ∈ calls [] (runFrom crossing crossingRun),
    q.1.call.approval = some ⟨approvedHash, [21], [Bytes.ofNat 32 approvedHash]⟩ ∧
      q.1.call.settlement = some ⟨keyOf (crossed 3), keyOf (crossed 4),
        (sampleEnv withdrawal).hashToField approvedHash, 50, false⟩ := by
  decide +kernel

/-- The messages that are hashed for the batch: its text, and its hash. -/
def approvedMessages : Set (List UInt8) :=
  {b | b ∈ [batchMessage "batch-1" [approvedMatch], Bytes.ofNat 32 approvedHash]}

/-- The hash of the run has no collision on the approved messages. -/
theorem approvedMessages_injOn : Set.InjOn (sampleEnv crossing).sha256 approvedMessages := by
  have htable : ∀ a ∈ [batchMessage "batch-1" [approvedMatch], Bytes.ofNat 32 approvedHash],
      ∀ b ∈ [batchMessage "batch-1" [approvedMatch], Bytes.ofNat 32 approvedHash],
        (sampleEnv crossing).sha256 a = (sampleEnv crossing).sha256 b → a = b := by decide +kernel
  exact fun a ha b hb => htable a ha b hb

/-- In the run the last call opens two notes, which are not those of the match. -/
theorem approved_settlements_crossing : ∃ q ∈ calls [] (runFrom crossing crossingRun),
    ∃ x, q.1.call.settlement = some x ∧ x.amount = 50 ∧
      ¬ x.SpendsNotes approvedNullifier approvedMatch ∧
      ∃ nA nB, Opened (sampleEnv crossing) noKnowledge q.2 q.1.call x nA nB := by
  obtain ⟨q, hq, ha, hx⟩ := crossingRun_reused
  have hmem : batchMessage "batch-1" [approvedMatch] ∈ approvedMessages := List.mem_cons_self ..
  obtain ⟨-, x, hx', -, hopen⟩ := (approved_settlements (crossing_soundAt _)
    (reach_run (fun t _ => crossing_soundAt t) crossingRun) approvedNullifier approvedMessages_injOn
    hmem).1 q hq _ ha rfl
  obtain rfl := Option.some.inj (hx.symm.trans hx')
  refine ⟨q, hq, _, hx, rfl, ?_, hopen⟩
  rw [Settlement.SpendsNotes]
  decide

/-- **The approval of one match settles other notes.** In this run the signature over a batch with one
match of 100 between two notes settles them, and 50 between two others. -/
theorem approval_reused : ¬ ∀ (E : Env) (A : Knowledge) (s₀ : State)
    (K : List (Pending State (Entry E) Kont)) (w : World State (Entry E) Kont)
    (nullifier : String → ℕ) (U : Set (List UInt8)) (batchId : String) (batch : List BatchMatch),
    Deployed E s₀ → SoundAt E A s₀ → Reach ((machine E).within (SoundAt E A)) [] (s₀, []) K w →
    Set.InjOn E.sha256 U → batchMessage batchId batch ∈ U →
    (∀ q ∈ calls K w, ∀ a ∈ q.1.call.approval, a.text = computeBatchHash E.sha256 batchId batch →
      ∃ m ∈ batch, ∃ x ∈ q.1.call.settlement, x.Settles nullifier m) ∧
    ∀ m ∈ batch, (calls K w).Pairwise fun q r =>
      ∀ x ∈ q.1.call.settlement, ∀ y ∈ r.1.call.settlement,
        ¬ (x.Settles nullifier m ∧ y.Settles nullifier m) := by
  intro h
  obtain ⟨q, hq, ha, hx⟩ := crossingRun_reused
  obtain ⟨m, hm, x, hx', hsettles⟩ := (h (sampleEnv crossing) noKnowledge (fresh crossing) [] _
    approvedNullifier approvedMessages "batch-1" [approvedMatch] deployed_fresh (crossing_soundAt _)
    (reach_run (fun t _ => crossing_soundAt t) crossingRun) approvedMessages_injOn
    (List.mem_cons_self ..)).1 q hq _ ha rfl
  obtain rfl := List.mem_singleton.1 hm
  obtain rfl := Option.some.inj (hx.symm.trans hx')
  have hamount : ¬ approvedMatch.matchedAmount7dp = toString (50 : ℕ) := by decide
  exact hamount hsettles.amount

end ShadePay.Evm
