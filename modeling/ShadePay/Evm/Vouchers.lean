import ShadePay.Evm.Channels

/-!
# Vouchers

A payer signs vouchers off chain (`packages/sdk/src/streams.ts`), and a settlement proves that one of
them verifies under the channel's recorded key. `settled_by_voucher` is what a run knows of a settled
channel: it was closed once, at the amount of some voucher for its id, by whoever came first. The
signed message names the channel id and neither the pool nor the chain, so a voucher reaches another
deployment when the same key has opened the same id there, and only then (`voucher_confined`).
-/

namespace ShadePay.Evm

open Guard Reentrancy

/-! ## Vouchers and the settlements that present them -/

/-- A voucher as `signVoucher` returns it. -/
structure Voucher where
  channelId : Bn254
  cumulative : Bn254
  seq : Bn254
  sig : Signature Bn254
  Ax : Bn254
  Ay : Bn254

/-- `voucherMessage` of a voucher. -/
def Voucher.message (P : List Bn254 → Bn254) (v : Voucher) : Bn254 :=
  voucherMessage P v.channelId v.cumulative v.seq

/-- `verifyVoucher`. -/
def Voucher.Verifies (P : List Bn254 → Bn254)
    (eddsa : Bn254 → Bn254 → Bn254 → Signature Bn254 → Prop) (v : Voucher) : Prop :=
  eddsa v.Ax v.Ay (v.message P) v.sig

/-- A voucher is for channel `ch` with id `c`: it names the id and the recorded payer key. -/
structure Voucher.For (v : Voucher) (c : ℕ) (ch : Channel) : Prop where
  channelId : v.channelId = c
  Ax : v.Ax = ch.payerAx
  Ay : v.Ay = ch.payerAy

/-- The voucher is the witness of a settlement with signals `x`: an assignment presents its signature,
under its key and over its message. -/
def Voucher.WitnessOf (P : List Bn254 → Bn254) (A : Knowledge) (v : Voucher)
    (x : StreamSettlePub ℕ) : Prop :=
  ∃ w, StreamSettle P A.eddsa (x.map Nat.cast) w ∧
    [(x.channelId : Bn254), (x.cumulative : Bn254), w.seq] ∈ A.hashed ∧ w.sig = v.sig ∧
    (x.payerAx : Bn254) = v.Ax ∧ (x.payerAy : Bn254) = v.Ay ∧
    voucherMessage P x.channelId x.cumulative w.seq = v.message P

/-- The channels a call settles. -/
def Call.settlements : Call → List (Groth16Proof × StreamSettlePub ℕ)
  | .settle proof pub => [(proof, pub)]
  | .settleBatch proofs pubs => proofs.zip pubs
  | _ => []

section
variable {E : Env} {A : Knowledge} {s s₀ : State} {K : List (Pending State (Entry E) Kont)}
  {w : World State (Entry E) Kont}

/-- Each settlement of a call passes its checks. -/
theorem Call.Checks.settlement {x : Address} {call : Call} (h : call.Checks E x s)
    {q : Groth16Proof × StreamSettlePub ℕ} (hq : q ∈ call.settlements) :
    SettleChecks E s q.1 q.2 := by
  cases call with
  | settle proof pub =>
      obtain rfl := List.mem_singleton.1 hq
      exact h
  | settleBatch proofs pubs => exact h.2 q hq
  | _ => cases hq

/-- A settled channel of a call is one of its settlements. -/
theorem Call.Checks.of_settled {x : Address} {call : Call} (h : call.Checks E x s) {c : ℕ}
    {pub : StreamSettlePub ℕ} (hop : (c, .settled pub) ∈ call.channelOps s) :
    c = pub.channelId ∧ ∃ proof, (proof, pub) ∈ call.settlements := by
  cases call with
  | settle proof pub' =>
      cases List.mem_singleton.1 hop
      exact ⟨rfl, proof, List.mem_singleton.2 rfl⟩
  | settleBatch proofs pubs =>
      obtain ⟨pub', hpub, heq⟩ := List.mem_map.1 hop
      cases heq
      have hsnd : (proofs.zip pubs).map Prod.snd = pubs := List.map_snd_zip h.1.ge
      rw [← hsnd] at hpub
      obtain ⟨q, hq, rfl⟩ := List.mem_map.1 hpub
      exact ⟨rfl, q.1, hq⟩
  | «open» proof pub' => cases List.mem_singleton.1 hop
  | reclaim k => cases List.mem_singleton.1 hop
  | _ => cases hop

/-- What was done to a channel was done by a call of the run. -/
theorem mem_opsOf {c : ℕ} {op : ChannelOp} {tr : List (Frame State (Entry E) Kont)} :
    op ∈ opsOf c tr ↔ ∃ f ∈ tr, (c, op) ∈ f.entry.call.channelOps f.pre := by
  constructor
  · intro h
    obtain ⟨f, hf, h⟩ := List.mem_flatMap.1 h
    obtain ⟨q, hq, rfl⟩ := List.mem_map.1 h
    obtain ⟨hmem, hc⟩ := List.mem_filter.1 hq
    obtain rfl := of_decide_eq_true hc
    exact ⟨f, hf, hmem⟩
  · rintro ⟨f, hf, h⟩
    refine List.mem_flatMap.2 ⟨f, hf, List.mem_map.2 ⟨(c, op), List.mem_filter.2 ⟨h, ?_⟩, rfl⟩⟩
    exact decide_eq_true rfl

/-- A channel was opened with verified signals, and its record is what they say. -/
theorem exists_opening (h : Reachable E s₀ K w) {c : ℕ} {ch : Channel}
    (hop : .opened ch ∈ opsOf c w.2) : ∃ pub : StreamOpenPub ℕ, pub.channelId = c ∧
      openedChannel pub = ch ∧ pub.poolId = E.poolId ∧ pub.chainId = E.chainId ∧
      ∀ x ∈ pub.toList, x < bn254 := by
  obtain ⟨f, hf, hfop⟩ := mem_opsOf.1 hop
  obtain ⟨-, hcf, -⟩ := (framesOk_reachable h).finished f hf
  cases hcall : f.entry.call with
  | «open» proof pub =>
      rw [hcall] at hcf hfop
      obtain ⟨-, hdomain, -, -, hverified, -⟩ := hcf
      cases List.mem_singleton.1 hfop
      exact ⟨pub, rfl, rfl, hdomain.1, hdomain.2, E.lt_of_verifyProof hverified⟩
  | settle proof pub =>
      rw [hcall] at hfop
      cases List.mem_singleton.1 hfop
  | settleBatch proofs pubs =>
      rw [hcall] at hfop
      obtain ⟨pub, -, heq⟩ := List.mem_map.1 hfop
      cases heq
  | reclaim k =>
      rw [hcall] at hfop
      cases List.mem_singleton.1 hfop
  | _ =>
      rw [hcall] at hfop
      cases hfop

/-! ## What a settled channel was closed with -/

/-- The life of a settled channel. -/
theorem Lifecycle.of_settled {ops : List ChannelOp} {ch' : Channel} {pub : StreamSettlePub ℕ}
    (h : Lifecycle E ops ch') (hop : .settled pub ∈ ops) :
    ∃ ch, ops = [.opened ch, .settled pub] ∧ pub.payerAx = ch.payerAx ∧ pub.payerAy = ch.payerAy ∧
      pub.cap = ch.cap ∧ pub.assetId = ch.assetId ∧ pub.cumulative ≤ pub.cap := by
  cases h with
  | unopened => cases hop
  | opened => cases List.mem_singleton.1 hop
  | reclaimed =>
      rcases List.mem_pair.1 hop with h | h
      · cases h
      · cases h
  | settled h1 h2 hax hay hcap hasset hle =>
      rename_i ch pub'
      rcases List.mem_pair.1 hop with h | h
      · cases h
      · cases h
        exact ⟨ch, rfl, hax, hay, hcap, hasset, hle⟩

/-- A channel that is open was opened. -/
theorem Lifecycle.exists_opened {ops : List ChannelOp} {ch : Channel} (h : Lifecycle E ops ch)
    (hop : ch.opened = true) : ∃ ch', .opened ch' ∈ ops := by
  cases h with
  | unopened => cases hop
  | opened => exact ⟨_, List.mem_cons_self⟩
  | settled => exact ⟨_, List.mem_cons_self⟩
  | reclaimed => exact ⟨_, List.mem_cons_self⟩

/-- **Settled by a voucher.** In every run with a sound settle verifier, a settled channel was opened
once and settled once; some voucher for its id verifies under its recorded payer key, and the settled
amount is that voucher's, at most the cap. The two inserted leaves are notes of the channel's asset
worth that amount and the rest of the cap. Nothing relates the voucher to any other one, or the notes
to a payee: the channel has none on record. -/
theorem settled_by_voucher (hd : Deployed E s₀) (hs : SoundAt E A s₀)
    (h : Reach ((machine E).within (SoundAt E A)) [] (s₀, []) K w) {c : ℕ} {pub : StreamSettlePub ℕ}
    (hop : .settled pub ∈ opsOf c w.2) :
    ∃ (ch : Channel) (v : Voucher) (payee refund : Note Bn254),
      opsOf c w.2 = [.opened ch, .settled pub] ∧ v.Verifies E.poseidon A.eddsa ∧ v.For c ch ∧
      v.cumulative.val = pub.cumulative ∧ pub.cumulative ≤ ch.cap ∧
      (payee.commitment E.poseidon).val = pub.payeeCommitment ∧ payee.assetId = ch.assetId ∧
      payee.value.val = pub.cumulative ∧
      (refund.commitment E.poseidon).val = pub.refundCommitment ∧ refund.assetId = ch.assetId ∧
      refund.value.val = ch.cap - pub.cumulative := by
  obtain ⟨f, hf, hfop⟩ := mem_opsOf.1 hop
  obtain ⟨hsf, hcf, -⟩ := (framesOk_reach hs h).finished f hf
  obtain ⟨rfl, proof, hq⟩ := hcf.of_settled hfop
  have hchk := hcf.settlement hq
  have hlt := E.lt_of_verifyProof hchk.verified
  obtain ⟨u, hu, -, -⟩ := hsf.streamSettle (E.groth16_of_verifyProof hchk.verified)
  obtain ⟨ch, hops, hax, hay, hcap, hasset, hle⟩ :=
    (lifecycle_reach hd h.of_within pub.channelId).of_settled hop
  have hval : ∀ {x : ℕ}, x ∈ pub.toList → ((x : ℕ) : Bn254).val = x := fun hx =>
    ZMod.val_cast_of_lt (hlt _ hx)
  have hcum := @hval pub.cumulative (by simp [StreamSettlePub.toList])
  have hsum := hu.values.1
  simp only [StreamSettlePub.map, hcum, @hval pub.cap (by simp [StreamSettlePub.toList])] at hsum
  have hrefund : (u.refundNote (pub.map Nat.cast)).value.val = pub.cap - pub.cumulative :=
    Nat.eq_sub_of_add_eq' hsum.symm
  refine ⟨ch, ⟨pub.channelId, pub.cumulative, u.seq, u.sig, pub.payerAx, pub.payerAy⟩,
    u.payeeNote (pub.map Nat.cast), u.refundNote (pub.map Nat.cast), hops, hu.signed,
    ⟨rfl, by rw [hax], by rw [hay]⟩, hcum, hcap ▸ hle, ?_, ?_, hcum, ?_, ?_, hcap ▸ hrefund⟩
  · rw [← hu.payee]
    exact hval (by simp [StreamSettlePub.toList])
  · rw [← hasset]
    rfl
  · rw [← hu.refund]
    exact hval (by simp [StreamSettlePub.toList])
  · rw [← hasset]
    rfl

/-- In a run that settles channel 3 at 10 the theorem finds a voucher for 10. -/
theorem settled_by_voucher_low : ∃ v : Voucher, v.cumulative.val = 10 ∧
    v.Verifies (sampleEnv streaming).poseidon noKnowledge.eddsa ∧ v.channelId = (3 : ℕ) := by
  have hsound := @soundAt_sample streaming noKnowledge streaming_sound
  have hop : ChannelOp.settled (settleOf (usdcNote 10 7 15) (usdcNote 90 7 16) [7] 100 10 4) ∈
      opsOf 3 (runFrom streaming (openRun ++ [settleTx])).2 := by
    decide +kernel
  obtain ⟨ch, v, payee, refund, -, hv, hfor, hcum, -⟩ := @settled_by_voucher (sampleEnv streaming)
    noKnowledge (fresh streaming) [] _ deployed_fresh (hsound _)
    (reach_run (fun t _ => hsound t) (openRun ++ [settleTx])) 3 _ hop
  exact ⟨v, hcum, hv, hfor.channelId⟩

end

/-! ## Crossing deployments -/

section
variable {E₁ E₂ : Env} {A : Knowledge} {s₁ s₂ : State}
  {K₁ : List (Pending State (Entry E₁) Kont)} {K₂ : List (Pending State (Entry E₂) Kont)}
  {w₁ : World State (Entry E₁) Kont} {w₂ : World State (Entry E₂) Kont}

/-- The id of an opened channel is canonical: it was a public signal of its opening. -/
theorem channelId_lt (hd : Deployed E₁ s₁) (h : Reachable E₁ s₁ K₁ w₁) {c : ℕ}
    (hop : (w₁.1.escrow.channels c).opened = true) : c < bn254 := by
  obtain ⟨ch, hch⟩ := (lifecycle_reach hd h c).exists_opened hop
  obtain ⟨pub, rfl, -, -, -, hlt⟩ := exists_opening h hch
  exact hlt _ (by simp [StreamOpenPub.toList])

/-- **Confinement of vouchers.** Two deployments with one Poseidon, and a run of each. A voucher for a
channel of the first is the witness of a successful settlement on the second only if the second has a
channel of the same id that is open under the same payer key, and then it settles the voucher's amount
within that channel's cap. -/
theorem voucher_confined (hP : E₂.poseidon = E₁.poseidon) (hinj : Set.InjOn E₁.poseidon A.hashed)
    (hd₁ : Deployed E₁ s₁) (h₁ : Reachable E₁ s₁ K₁ w₁) (h₂ : Reachable E₂ s₂ K₂ w₂) {v : Voucher}
    {c : ℕ} (hv : [v.channelId, v.cumulative, v.seq] ∈ A.hashed)
    (hop : (w₁.1.escrow.channels c).opened = true) (hfor : v.For c (w₁.1.escrow.channels c))
    {q : Entry E₂ × State} (hq : q ∈ calls K₂ w₂) {m : Groth16Proof × StreamSettlePub ℕ}
    (hm : m ∈ q.1.call.settlements) (hw : v.WitnessOf E₂.poseidon A m.2) :
    m.2.channelId = c ∧ (q.2.escrow.channels c).opened = true ∧
      (q.2.escrow.channels c).consumed = false ∧ v.For c (q.2.escrow.channels c) ∧
      v.cumulative.val = m.2.cumulative ∧ m.2.cumulative ≤ (q.2.escrow.channels c).cap := by
  obtain ⟨u, -, hu, -, hax, hay, hmsg⟩ := hw
  have hfr := framesOk_reachable h₂
  have hchk : SettleChecks E₂ q.2 m.1 m.2 := by
    rcases List.mem_append.1 hq with hq | hq
    · obtain ⟨f, hf, rfl⟩ := List.mem_map.1 hq
      exact (hfr.finished f hf).2.1.settlement hm
    · obtain ⟨p, hp, rfl⟩ := List.mem_map.1 hq
      exact (hfr.pending p hp).2.1.settlement hm
  have hlt := E₂.lt_of_verifyProof hchk.verified
  rw [hP] at hmsg
  have heq := hinj hu hv hmsg
  simp only [List.cons.injEq, and_true] at heq
  have hc : m.2.channelId = c := by
    have hcast : ((m.2.channelId : ℕ) : Bn254) = (c : ℕ) := heq.1.trans hfor.channelId
    have hval := congrArg ZMod.val hcast
    rwa [ZMod.val_cast_of_lt (hlt _ (by simp [StreamSettlePub.toList])),
      ZMod.val_cast_of_lt (channelId_lt hd₁ h₁ hop)] at hval
  subst hc
  refine ⟨rfl, hchk.opened, hchk.consumed, ⟨hfor.channelId, ?_, ?_⟩, ?_, hchk.cap ▸ hchk.cumulative⟩
  · rw [← hax, hchk.payerAx]
  · rw [← hay, hchk.payerAy]
  · rw [← heq.2.1]
    exact ZMod.val_cast_of_lt (hlt _ (by simp [StreamSettlePub.toList]))

end

/-! ## A payer on two deployments

`deployment p` is the sample deployment with pool id `p` and a settle verifier that is exact: with
`samplePoseidon` every leaf opens and every message is that of some sequence number, so an assignment
exists when the amounts are in range and the key is the one key that signs. Channel 3 is opened under
that key, with a cap of 100.
-/

/-- The settle verifier accepts exactly the signals that have an assignment. -/
def SettleExact (E : Env) (A : Knowledge) (s : State) : Prop :=
  ∀ x : StreamSettlePub ℕ, (∃ proof, E.groth16 s.escrow.settleVerifier proof x.toList = true) ↔
    ∃ w, StreamSettle E.poseidon A.eddsa (x.map Nat.cast) w

/-- The key (4, 0) signs the given messages and nothing else. -/
def payerSigns (ms : List Bn254) : Knowledge where
  eddsa Ax Ay M sig := Ax = (4 : ℕ) ∧ Ay = (0 : ℕ) ∧ M ∈ ms ∧ sig.S = M
  hashed := Set.univ
  mpcLaw _ _ := True

/-- Signals of a settlement that have an assignment. -/
def settleAccepts : List ℕ → Bool
  | [_, _, _, _, _, _, ax, ay, cap, cumulative, _] =>
      decide ((ax : Bn254) = (4 : ℕ) ∧ (ay : Bn254) = (0 : ℕ) ∧ (cumulative : Bn254).val < 2 ^ 128 ∧
        ((cap : Bn254) - (cumulative : Bn254)).val < 2 ^ 128)
  | _ => false

/-- The deposit of the first note into pool `p`. -/
def depositAt (p : ℕ) : DepositPub ℕ := { depositOf note₁ 1 with poolId := p }

/-- The opening of channel 3 on pool `p`. -/
def openAt (p : ℕ) : StreamOpenPub ℕ :=
  { openOf note₁ (usdcNote 0 7 11) (usdcNote 100 7 12) [leafOf note₁] [7] 100 4 with
    inputNullifierHash := (note₁.nullifierHash samplePoseidon (p : ℕ) (1 : ℕ)).val
    poolId := p }

/-- The settlement of channel 3 on pool `p` with the voucher for 10. -/
def settleAt (p : ℕ) : StreamSettlePub ℕ :=
  { settleOf (usdcNote 10 7 15) (usdcNote 90 7 16) [7] 100 10 4 with poolId := p }

def onPool (p : ℕ) : Accepted := ⟨[], [depositAt p], [], [openAt p], []⟩

def deployment (p : ℕ) : Env :=
  { sampleEnv (onPool p) with
    poolId := p
    groth16 := fun v proof pub => (sampleEnv (onPool p)).groth16 v proof pub || settleAccepts pub }

/-- The last input of the sample hash is free. -/
theorem samplePoseidon_surj (l : List Bn254) (y : Bn254) : ∃ x, samplePoseidon (l ++ [x]) = y := by
  refine ⟨y - ((l.foldl (fun acc x => acc * 31 + x.val + 1) 17 * 31 + 1 : ℕ) : Bn254), ?_⟩
  rw [samplePoseidon, List.foldl_append, List.foldl_cons, List.foldl_nil, Nat.cast_add, Nat.cast_add,
    ZMod.natCast_zmod_val]
  push_cast
  ring

/-- Every leaf opens to a note of any asset and value. -/
theorem commitment_surj (assetId value c : Bn254) :
    ∃ o : OutputOpening Bn254, c = (o.note assetId value).commitment samplePoseidon := by
  obtain ⟨y, hy⟩ := samplePoseidon_surj [samplePoseidon [assetId, value, 0]] c
  obtain ⟨x, hx⟩ := samplePoseidon_surj [0] y
  refine ⟨⟨0, 0, x⟩, ?_⟩
  rw [← hy, ← hx]
  rfl

/-- The verifier of settlements accepts exactly the satisfiable signals. -/
theorem settleAccepts_iff {m : Bn254} {ms : List Bn254} {x : StreamSettlePub ℕ} :
    settleAccepts x.toList = true ↔
      ∃ w, StreamSettle samplePoseidon (payerSigns (m :: ms)).eddsa (x.map Nat.cast) w := by
  constructor
  · intro h
    obtain ⟨hax, hay, hcum, hrest⟩ := of_decide_eq_true h
    obtain ⟨seq, hseq⟩ := samplePoseidon_surj [(x.channelId : Bn254), (x.cumulative : Bn254)] m
    obtain ⟨payee, hpayee⟩ := commitment_surj x.assetId x.cumulative x.payeeCommitment
    obtain ⟨refund, hrefund⟩ := commitment_surj x.assetId ((x.cap : Bn254) - x.cumulative)
      x.refundCommitment
    refine ⟨⟨seq, ⟨0, 0, m⟩, payee, refund⟩, ⟨hax, hay, ?_, hseq.symm⟩, ?_, ?_, hpayee, hrefund⟩
    · exact List.mem_cons.2 (.inl hseq)
    · exact (inRange_iff (by norm_num) _).2 hrest
    · exact (inRange_iff (by norm_num) _).2 hcum
  · rintro ⟨w, hw⟩
    exact decide_eq_true ⟨hw.signed.1, hw.signed.2.1, (inRange_iff (by norm_num) _).1 hw.cumulativeRange,
      (inRange_iff (by norm_num) _).1 hw.refundRange⟩

/-- The spend of the first note under pool id `p`. -/
theorem spends_note₁_at (p : ℕ) : SpendsNote samplePoseidon 3 2
    (spendInput [leafOf note₁] [7] 0 0 note₁) note₁ (stateRoot [leafOf note₁] : ℕ)
    (labelRoot [7] : ℕ) (p : ℕ) (1 : ℕ)
    ((note₁.nullifierHash samplePoseidon (p : ℕ) (1 : ℕ)).val : ℕ) :=
  ⟨spends_note₁.state, spends_note₁.association, ZMod.natCast_zmod_val _⟩

/-- The deposit of the run satisfies its circuit. -/
theorem depositAt_sat (p : ℕ) : DepositNoteMint samplePoseidon ((depositAt p).map Nat.cast)
    ⟨(100 : ℕ), ⟨(7 : ℕ), (1 : ℕ), 0⟩⟩ where
  commitment := (@depositOf_sat 7 1 1).commitment
  surplus := (@depositOf_sat 7 1 1).surplus
  value := (@depositOf_sat 7 1 1).value

/-- Only the spend block of an opening reads the nullifier hash and the pool id. -/
theorem streamOpen_onPool {x : StreamOpenPub Bn254} {w : StreamOpenWit Bn254} {n p : Bn254}
    (h : StreamOpen samplePoseidon 3 2 x w)
    (hs : SpendsNote samplePoseidon 3 2 w.input (w.note x) x.stateRoot x.associationRoot p x.chainId n) :
    StreamOpen samplePoseidon 3 2 { x with inputNullifierHash := n, poolId := p } w :=
  ⟨hs, h.changeRange, h.capRange, h.change, h.reclaim⟩

/-- The opening of the run satisfies its circuit. -/
theorem openAt_sat (p : ℕ) : StreamOpen samplePoseidon 3 2 ((openAt p).map Nat.cast)
    ⟨(100 : ℕ), spendInput [leafOf note₁] [7] 0 0 note₁, ⟨(7 : ℕ), (11 : ℕ), 0⟩,
      ⟨(7 : ℕ), (12 : ℕ), 0⟩⟩ :=
  streamOpen_onPool (@openOf_sat [leafOf note₁] [7] 0 0 100 7 1 100 11 12 4 spends_note₁ (by norm_num)
    le_rfl) (spends_note₁_at p)

/-- The verifiers of the run are sound for their lists. -/
theorem onPool_sound (p : ℕ) (ms : List Bn254) : (onPool p).Sound (payerSigns ms) where
  withdraw x hx := by cases hx
  deposit x hx := by
    obtain rfl := List.mem_singleton.1 hx
    exact ⟨_, depositAt_sat p, Note.hashed_univ _⟩
  mpc x hx := by cases hx
  streamOpen x hx := by
    obtain rfl := List.mem_singleton.1 hx
    exact ⟨_, openAt_sat p,
      hashed_sample (by norm_num) (by norm_num) rfl rfl (Note.hashed_univ _) (treeHashed_univ _ _)
        (treeHashed_univ _ _), Note.hashed_univ _, Note.hashed_univ _⟩
  streamSettle x hx := by cases hx

section
variable {p : ℕ} {m : Bn254} {ms : List Bn254}

/-- The verifiers of the deployment are sound in every state. -/
theorem soundAt_deployment (s : State) : SoundAt (deployment p) (payerSigns (m :: ms)) s := by
  have h := soundAt_sample (onPool_sound p (m :: ms)) s
  have hor : ∀ {v : Address} {proof : Groth16Proof} {l : List ℕ}, settleAccepts l = false →
      (deployment p).groth16 v proof l = true → (sampleEnv (onPool p)).groth16 v proof l = true := by
    intro v proof l hl hg
    simpa [deployment, hl] using hg
  refine ⟨fun hx => h.withdraw (hor rfl hx), fun hx => h.transfer (hor rfl hx),
    fun hx => h.deposit (hor rfl hx), fun hx => h.mpc (hor rfl hx), fun hx => h.mpcPriced (hor rfl hx),
    fun hx => h.streamOpen (hor rfl hx), fun {proof x} hx => ?_⟩
  cases hacc : settleAccepts x.toList with
  | false => exact h.streamSettle (hor hacc hx)
  | true =>
      obtain ⟨w, hw⟩ := (@settleAccepts_iff m ms x).1 hacc
      exact ⟨w, hw, Note.hashed_univ _, Note.hashed_univ _⟩

/-- The verifier of settlements is exact in every state. -/
theorem settleExact_deployment (s : State) : SettleExact (deployment p) (payerSigns (m :: ms)) s := by
  intro x
  constructor
  · rintro ⟨proof, h⟩
    obtain ⟨w, hw, -⟩ := (@soundAt_deployment p m ms s).streamSettle h
    exact ⟨w, hw⟩
  · intro hw
    refine ⟨someProof, ?_⟩
    simp only [deployment, settleAccepts_iff.2 hw, Bool.or_true]

/-- The deployed contracts. -/
def freshAt (p : ℕ) : State :=
  (construct (deployment p) admin admin admin (fun _ _ => 0) 0).toOption.get rfl

theorem deployed_freshAt : Deployed (deployment p) (freshAt p) :=
  ⟨admin, admin, admin, fun _ _ => 0, 0, toOption_eq_some.1 (Option.some_get _).symm⟩

/-- A call of the admin. -/
def callAt (p : ℕ) (c : Call) : Tx (Entry (deployment p)) Action :=
  .call ⟨admin, c, admin_ne_pool, admin_ne_escrow⟩ [[], []]

/-- Configure the contracts, deposit the first note and put it into channel 3. -/
def openingAt (p : ℕ) : List (Tx (Entry (deployment p)) Action) :=
  setup.map (fun c => .act (.configure admin c)) ++ [.act (.mint usdc 1 100),
    callAt p (.receiveDeposit 0 1 usdc 100 (leafOf note₁) 0 0 someProof (depositAt p)),
    callAt p (.open someProof (openAt p))]

/-- What a list of transactions makes of the deployed contracts. -/
def runAt (p : ℕ) (ts : List (Tx (Entry (deployment p)) Action)) :
    World State (Entry (deployment p)) Kont :=
  execAll (machine (deployment p)) ts [] (freshAt p, [])

/-- A run is reachable. -/
theorem reachable_runAt (ts : List (Tx (Entry (deployment p)) Action)) :
    Reachable (deployment p) (freshAt p) [] (runAt p ts) :=
  reach_execAll _ ts .refl

/-- A run goes through states with sound verifiers. -/
theorem sound_runAt (ts : List (Tx (Entry (deployment p)) Action)) :
    Reach ((machine (deployment p)).within (SoundAt (deployment p) (payerSigns (m :: ms)))) []
      (freshAt p, []) [] (runAt p ts) :=
  Reach.within_of (I := fun _ _ => True) ⟨fun h => h, fun h => h, fun h => h⟩
    ⟨fun _ _ => trivial, fun _ _ => trivial, fun _ _ => trivial, fun _ _ => trivial,
      fun _ _ => trivial⟩ (fun _ => soundAt_deployment _) trivial (reachable_runAt ts)

end

/-- The voucher for `cumulative` on channel 3. -/
def voucherFor (cumulative seq : ℕ) : Voucher where
  channelId := (3 : ℕ)
  cumulative := cumulative
  seq := seq
  sig := ⟨(4 : ℕ), 0, voucherMessage samplePoseidon (3 : ℕ) (cumulative : ℕ) (seq : ℕ)⟩
  Ax := (4 : ℕ)
  Ay := (0 : ℕ)

/-- Channel 3 opened and settled at 10. -/
def settledAt (p : ℕ) : World State (Entry (deployment p)) Kont :=
  runAt p (openingAt p ++ [callAt p (.settle someProof (settleAt p))])

theorem settledAt_one : ChannelOp.settled (settleAt 1) ∈ opsOf 3 (settledAt 1).2 := by
  decide

theorem settledAt_two : ChannelOp.settled (settleAt 2) ∈ opsOf 3 (settledAt 2).2 := by
  decide

/-- The payer has signed these vouchers and nothing else. -/
def signedVouchers (vs : List Voucher) : Knowledge := payerSigns (vs.map (Voucher.message samplePoseidon))

/-- A signed voucher verifies. -/
theorem voucherFor_verifies {vs : List Voucher} {cumulative seq : ℕ}
    (h : voucherFor cumulative seq ∈ vs) :
    (voucherFor cumulative seq).Verifies samplePoseidon (signedVouchers vs).eddsa :=
  ⟨rfl, rfl, List.mem_map_of_mem h, rfl⟩

/-- No constraint of a settlement reads the pool id. -/
theorem streamSettle_onPool {eddsa eddsa' : Bn254 → Bn254 → Bn254 → Signature Bn254 → Prop}
    {x : StreamSettlePub Bn254} {w : StreamSettleWit Bn254} {p : Bn254}
    (h : StreamSettle samplePoseidon eddsa x w)
    (hs : eddsa' x.payerAx x.payerAy (voucherMessage samplePoseidon x.channelId x.cumulative w.seq)
      w.sig) : StreamSettle samplePoseidon eddsa' { x with poolId := p } w :=
  ⟨hs, h.refundRange, h.cumulativeRange, h.payee, h.refund⟩

/-- The voucher for 10 is the witness of the settlement at 10, on every pool. -/
theorem voucherFor_witnessOf (p : ℕ) {A : Knowledge} (hA : (voucherFor 10 1).Verifies samplePoseidon
      A.eddsa) (hmem : [((3 : ℕ) : Bn254), ((10 : ℕ) : Bn254), ((1 : ℕ) : Bn254)] ∈ A.hashed) :
    (voucherFor 10 1).WitnessOf samplePoseidon A (settleAt p) :=
  ⟨_, streamSettle_onPool (@settleOf_sat [7] 7 100 10 15 16 4 (by norm_num) (by norm_num) (1 : ℕ)) hA,
    hmem, rfl, rfl, rfl, rfl⟩

/-- The voucher is one for channel 3 of this payer. -/
theorem voucherFor_for {ch : Channel} (cumulative seq : ℕ) (hax : ch.payerAx = 4)
    (hay : ch.payerAy = 0) : (voucherFor cumulative seq).For 3 ch :=
  ⟨rfl, by rw [hax]; rfl, by rw [hay]; rfl⟩

/-- A payee holds a voucher for 60, the channel is settled at 10 with another voucher of the payer. -/
theorem lower_voucher_settles : ¬ ∀ (E : Env) (A : Knowledge) (s₀ : State)
    (K : List (Pending State (Entry E) Kont)) (w : World State (Entry E) Kont) (c : ℕ) (v : Voucher)
    (pub : StreamSettlePub ℕ), Deployed E s₀ → (∀ s, SettleExact E A s) →
    Reach ((machine E).within (SoundAt E A)) [] (s₀, []) K w →
    v.Verifies E.poseidon A.eddsa → v.For c (w.1.escrow.channels c) →
    .settled pub ∈ opsOf c w.2 → v.cumulative.val ≤ pub.cumulative := by
  intro h
  have hax : ((settledAt 1).1.escrow.channels 3).payerAx = 4 := by decide
  have hay : ((settledAt 1).1.escrow.channels 3).payerAy = 0 := by decide
  have hle := h (deployment 1) (signedVouchers [voucherFor 10 1, voucherFor 60 2]) (freshAt 1) []
    (settledAt 1) 3 (voucherFor 60 2) (settleAt 1) deployed_freshAt settleExact_deployment
    (sound_runAt _) (voucherFor_verifies (by simp)) (voucherFor_for 60 2 hax hay) settledAt_one
  have h60 : (voucherFor 60 2).cumulative.val = 60 := ZMod.val_cast_of_lt (by norm_num [bn254])
  rw [h60] at hle
  exact absurd hle (by decide)

/-- The payer has opened channel 3 on two pools and signed one voucher, for the channel of the first:
the channel of the second is settled with it. -/
theorem voucher_replayed : ¬ ∀ (E₁ E₂ : Env) (A : Knowledge) (s₁ s₂ : State)
    (K₁ : List (Pending State (Entry E₁) Kont)) (K₂ : List (Pending State (Entry E₂) Kont))
    (w₁ : World State (Entry E₁) Kont) (w₂ : World State (Entry E₂) Kont) (c : ℕ) (v : Voucher)
    (q : Entry E₂ × State) (m : Groth16Proof × StreamSettlePub ℕ),
    (E₁.poolId, E₁.chainId) ≠ (E₂.poolId, E₂.chainId) → E₂.poseidon = E₁.poseidon →
    Deployed E₁ s₁ → Deployed E₂ s₂ → (∀ s, SettleExact E₁ A s) → (∀ s, SettleExact E₂ A s) →
    (∀ M sig, A.eddsa v.Ax v.Ay M sig → M = v.message E₁.poseidon) →
    Reachable E₁ s₁ K₁ w₁ → Reachable E₂ s₂ K₂ w₂ → v.Verifies E₁.poseidon A.eddsa →
    (w₁.1.escrow.channels c).opened = true → v.For c (w₁.1.escrow.channels c) →
    q ∈ calls K₂ w₂ → m ∈ q.1.call.settlements → ¬ v.WitnessOf E₂.poseidon A m.2 := by
  intro h
  have hop : ((settledAt 1).1.escrow.channels 3).opened = true := by decide
  have hax : ((settledAt 1).1.escrow.channels 3).payerAx = 4 := by decide
  have hay : ((settledAt 1).1.escrow.channels 3).payerAy = 0 := by decide +kernel
  obtain ⟨f, hf, hfop⟩ := mem_opsOf.1 settledAt_two
  obtain ⟨-, hcf, -⟩ := (framesOk_reachable (reachable_runAt _)).finished f hf
  obtain ⟨-, proof, hm⟩ := hcf.of_settled hfop
  have hver := @voucherFor_verifies [voucherFor 10 1] 10 1 (by simp)
  refine h (deployment 1) (deployment 2) (signedVouchers [voucherFor 10 1]) (freshAt 1) (freshAt 2) []
    [] (settledAt 1) (settledAt 2) 3 (voucherFor 10 1) (f.entry, f.pre) (proof, settleAt 2)
    (by decide) rfl deployed_freshAt deployed_freshAt settleExact_deployment settleExact_deployment
    (fun M sig hM => List.mem_singleton.1 hM.2.2.1) (reachable_runAt _) (reachable_runAt _) hver hop
    (voucherFor_for 10 1 hax hay) ?_ hm (voucherFor_witnessOf 2 hver trivial)
  exact List.mem_append_left _ (List.mem_map.2 ⟨f, hf, rfl⟩)

/-- With that voucher the theorem finds channel 3 of the second pool open under the payer's key, just
before it is settled. -/
theorem voucher_confined_replayed : ∃ q ∈ calls [] (settledAt 2),
    (q.2.escrow.channels 3).opened = true ∧ (q.2.escrow.channels 3).consumed = false ∧
      (voucherFor 10 1).For 3 (q.2.escrow.channels 3) := by
  have hop : ((settledAt 1).1.escrow.channels 3).opened = true := by decide
  have hax : ((settledAt 1).1.escrow.channels 3).payerAx = 4 := by decide
  have hay : ((settledAt 1).1.escrow.channels 3).payerAy = 0 := by decide
  obtain ⟨f, hf, hfop⟩ := mem_opsOf.1 settledAt_two
  obtain ⟨-, hcf, -⟩ := (framesOk_reachable (reachable_runAt _)).finished f hf
  obtain ⟨-, proof, hm⟩ := hcf.of_settled hfop
  have hq : (f.entry, f.pre) ∈ calls [] (settledAt 2) :=
    List.mem_append_left _ (List.mem_map.2 ⟨f, hf, rfl⟩)
  have hconf := @voucher_confined (deployment 1) (deployment 2)
    { signedVouchers [voucherFor 10 1] with hashed := {[3, 10, 1].map Nat.cast} }
    (freshAt 1) (freshAt 2) [] [] (settledAt 1) (settledAt 2) rfl (Set.injOn_singleton _ _)
    deployed_freshAt (reachable_runAt _) (reachable_runAt _) (voucherFor 10 1) 3
    (Set.mem_singleton _) hop (voucherFor_for 10 1 hax hay) (f.entry, f.pre) hq (proof, settleAt 2) hm
    (voucherFor_witnessOf 2 (@voucherFor_verifies [voucherFor 10 1] 10 1 (by simp))
      (Set.mem_singleton _))
  exact ⟨_, hq, hconf.2.1, hconf.2.2.1, hconf.2.2.2.1⟩

end ShadePay.Evm
