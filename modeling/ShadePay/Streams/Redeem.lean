import ShadePay.Evm.Batches
import ShadePay.Evm.Vouchers
import ShadePay.Streams.X402

/-!
# Redeeming a voucher

A voucher is accepted off chain, by `PayeeAgent.receive` or by `checkX402`, and redeemed on chain,
with a proof that `buildStreamSettleProofBn254` of `packages/proving/src/bn254/stream.ts` makes for
`StreamSettle`. Off chain a voucher holds unbounded integers and the signature check reduces them to
the field; the circuit checks ranges and `_settle` compares words. `accepted_redeemable` closes the
gap: the acceptance checks pin every integer that is compared, by the record of the channel, whose
words were public signals of its opening and so are canonical.
-/

namespace ShadePay.Streams

open Guard Reentrancy Evm

/-! ## Acceptance -/

/-- The record of a channel, as `lookupChannel` returns it. -/
def channelInfo (ch : Channel) : ChannelInfo :=
  ⟨ch.cap, ch.payerAx, ch.payerAy, ch.consumed, ch.expiry⟩

/-- The configuration of a payee for channel `c`. -/
def payeeConfig (c : ℕ) (ch : Channel) (ratePerUnit : ℤ) : PayeeAgentConfig :=
  ⟨ch.payerAx, ch.payerAy, c, ch.cap, ratePerUnit⟩

/-- A voucher is accepted for channel `c` with record `ch`. -/
inductive AcceptedFor (C : Circomlib) (c : ℕ) (ch : Channel) (v : Voucher) : Prop
  /-- By `receive`, which finds the agent as `p` and, after its `await`, as `p'`. -/
  | received {p p' : PayeeAgent} {rate total : ℤ} {reason : Option String} :
      p.cfg = payeeConfig c ch rate → p'.cfg = p.cfg → 0 ≤ rate → 0 ≤ total →
      (p.receive v total).2 = none → (p'.received C v total).2 = .ok ⟨true, reason⟩ →
      AcceptedFor C c ch v
  /-- By `checkX402`, whose `lookupChannel` has found the channel under the id of the voucher. -/
  | admitted {α : Type} {config : X402Config α} :
      v.channelId = c → config.lookupChannel v.channelId = some (channelInfo ch) →
      0 ≤ config.requiredCumulative → checkX402 C (some v) config = .ok (.ok v) →
      AcceptedFor C c ch v

/-- What either way of acceptance has checked. -/
structure Payable (C : Circomlib) (c : ℕ) (ch : Channel) (v : Voucher) : Prop where
  channelId : v.channelId = c
  Ax : v.Ax = ch.payerAx
  Ay : v.Ay = ch.payerAy
  valid : verifyVoucher C v = .ok true
  nonneg : 0 ≤ v.cumulative
  le_cap : v.cumulative ≤ ch.cap

section
variable {C : Circomlib} {c : ℕ} {ch : Channel} {v : Voucher}

/-- An accepted voucher can be paid out. -/
theorem AcceptedFor.payable (h : AcceptedFor C c ch v) : Payable C c ch v := by
  cases h with
  | received hcfg hcfg' hrate htotal hwaits haccepts =>
      obtain ⟨hc, hAx, hAy⟩ := PayeeAgent.receive_waits hwaits
      obtain ⟨hvalid, hcap, howed, -⟩ := PayeeAgent.received_accepts haccepts
      rw [hcfg'] at hcap howed
      rw [hcfg] at hc hAx hAy hcap howed
      exact ⟨hc, hAx, hAy, hvalid, le_trans (mul_nonneg hrate htotal) howed, hcap⟩
  | admitted hc hlook hreq haccepts =>
      obtain ⟨-, info, hserves, hvalid, hAx, hAy, hle, hcap⟩ := checkX402_admits haccepts
      obtain rfl : channelInfo ch = info := Option.some.inj (hlook.symm.trans hserves.1)
      exact ⟨hc, hAx, hAy, hvalid, le_trans hreq hle, hcap⟩

/-- A valid voucher has a whole number, and its signature is one of the message with it. -/
theorem verifyVoucher_eq_true (h : verifyVoucher C v = .ok true) : ∃ seq, bigInt v.seq = .ok seq ∧
    C.verifyPoseidon (C.poseidon [(v.channelId : Bn254), (v.cumulative : Bn254), (seq : Bn254)])
      ((v.R8x, v.R8y), v.S) (v.Ax, v.Ay) = true := by
  simp only [verifyVoucher, voucherMessage, messageFields, bind_eq_ok, map_eq_ok, pure_eq_ok] at h
  obtain ⟨_, ⟨_, ⟨seq, hseq, rfl⟩, rfl⟩, hvalid⟩ := h
  exact ⟨seq, hseq, hvalid⟩

end

/-! ## The proof of a settlement -/

/-- `StreamSettleInputBn254`. -/
structure StreamSettleInput where
  voucher : Voucher
  cap : ℤ
  assetId : ℤ
  associationRoot : ℤ
  poolId : ℤ
  chainId : ℤ

/-- The public signals of the assignment that `buildStreamSettleProofBn254` has proved, for coins
with openings `payee` and `refund`: the inputs reduced to the field, and the circuit's outputs. -/
def StreamSettleInput.publicSignals (P : List Bn254 → Bn254) (p : StreamSettleInput)
    (payee refund : OutputOpening Bn254) : StreamSettlePub Bn254 where
  payeeCommitment := (payee.note (p.assetId : Bn254) (p.voucher.cumulative : Bn254)).commitment P
  refundCommitment :=
    (refund.note (p.assetId : Bn254) ((p.cap - p.voucher.cumulative : ℤ) : Bn254)).commitment P
  associationRoot := p.associationRoot
  poolId := p.poolId
  chainId := p.chainId
  channelId := p.voucher.channelId
  payerAx := p.voucher.Ax
  payerAy := p.voucher.Ay
  cap := p.cap
  cumulative := p.voucher.cumulative
  assetId := p.assetId

/-- Its private signals, where `seq` is the number of the voucher. -/
def StreamSettleInput.privateSignals (p : StreamSettleInput) (seq : ℤ)
    (payee refund : OutputOpening Bn254) : StreamSettleWit Bn254 :=
  ⟨seq, ⟨p.voucher.R8x, p.voucher.R8y, p.voucher.S⟩, payee, refund⟩

/-- The input for a voucher on a channel with record `ch`, under an association root. -/
def settleInput (E : Env) (ch : Channel) (v : Voucher) (root : Bn254) : StreamSettleInput :=
  ⟨v, ch.cap, ch.assetId, root.val, E.poolId, E.chainId⟩

/-- The words that `settle` is called with: the public signals as the prover returns them. -/
def settleWords (E : Env) (ch : Channel) (v : Voucher) (root : Bn254)
    (payee refund : OutputOpening Bn254) : StreamSettlePub ℕ :=
  ((settleInput E ch v root).publicSignals E.poseidon payee refund).map ZMod.val

/-- What the hash and the signatures of the agents and of the circuit have in common. -/
structure Circomlib.Agrees (C : Circomlib) (P : List Bn254 → Bn254)
    (eddsa : Bn254 → Bn254 → Bn254 → Signature Bn254 → Prop) : Prop where
  poseidon : C.poseidon = P
  /-- What `verifyPoseidon` accepts, `EdDSAPoseidonVerifier` accepts as field elements. -/
  eddsa : ∀ {M R8x R8y Ax Ay : Bn254} {S : ℤ},
    C.verifyPoseidon M ((R8x, R8y), S) (Ax, Ay) = true → eddsa Ax Ay M ⟨R8x, R8y, S⟩

section
variable {E : Env} {C : Circomlib} {c : ℕ} {ch : Channel} {v : Voucher} {root : Bn254}
  {eddsa : Bn254 → Bn254 → Bn254 → Signature Bn254 → Prop}

/-- **The circuit takes a payable voucher**, over a cap within its ranges. -/
theorem Payable.satisfies (h : Payable C c ch v) (hC : C.Agrees E.poseidon eddsa)
    (hcap : ch.cap < 2 ^ 128) (payee refund : OutputOpening Bn254) : ∃ seq, bigInt v.seq = .ok seq ∧
      StreamSettle E.poseidon eddsa
        ((settleInput E ch v root).publicSignals E.poseidon payee refund)
        ((settleInput E ch v root).privateSignals seq payee refund) := by
  obtain ⟨seq, hseq, hvalid⟩ := verifyVoucher_eq_true h.valid
  rw [hC.poseidon] at hvalid
  -- the amount is a natural number within the cap, so that neither range check wraps
  obtain ⟨n, hn⟩ := Int.eq_ofNat_of_zero_le h.nonneg
  have hle : n ≤ ch.cap := by
    have := h.le_cap
    omega
  have hcum : (v.cumulative : Bn254) = (n : Bn254) := by rw [hn, Int.cast_natCast]
  have hcapcast : ((ch.cap : ℤ) : Bn254) = (ch.cap : Bn254) := Int.cast_natCast _
  refine ⟨seq, hseq, ⟨hC.eddsa hvalid, ?_, ?_, rfl, ?_⟩⟩
  · change InRange 128 (((ch.cap : ℤ) : Bn254) - (v.cumulative : Bn254))
    rw [hcum, hcapcast]
    exact inRange_sub hcap hle
  · change InRange 128 (v.cumulative : Bn254)
    rw [hcum]
    exact inRange_natCast (by norm_num) (lt_of_le_of_lt hle hcap)
  · change (refund.note ((ch.assetId : ℤ) : Bn254)
      (((ch.cap : ℤ) - v.cumulative : ℤ) : Bn254)).commitment E.poseidon = _
    rw [Int.cast_sub]
    rfl

end

/-! ## Redemption -/

/-- The escrow runs with the channel as it is on record, under an association root. -/
structure Expects (s : State) (c : ℕ) (ch : Channel) (root : Bn254) : Prop where
  running : s.escrow.access.paused = false
  channel : s.escrow.channels c = ch
  association : s.pool.associationRoot = root.val

/-- The pool runs, and takes the two notes of a settlement from the escrow. -/
structure HasRoom (E : Env) (s : State) (x : StreamSettlePub ℕ) : Prop where
  running : s.pool.access.paused = false
  stream : s.pool.authorizedStreamContract E.escrow = true
  payment : x.cumulative ≠ 0 → Adjustable E s x.assetId x.cumulative
  reserve : x.cap ≠ 0 → Adjustable E s x.assetId x.cap
  leaves : s.pool.tree.nextLeafIndex + 2 ≤ 2 ^ E.levels

/-- The words `x` redeem a voucher on channel `c` with record `ch`. -/
structure Redeems (E : Env) (eddsa : Bn254 → Bn254 → Bn254 → Signature Bn254 → Prop) (c : ℕ)
    (ch : Channel) (v : Voucher) (root : Bn254) (x : StreamSettlePub ℕ) : Prop where
  /-- An assignment with the number and the signature of the voucher. -/
  satisfied : ∃ seq w, bigInt v.seq = .ok seq ∧ w.seq = (seq : Bn254) ∧
    w.sig = ⟨v.R8x, v.R8y, v.S⟩ ∧ StreamSettle E.poseidon eddsa (x.map Nat.cast) w
  channelId : x.channelId = c ∧ (x.channelId : ℤ) = v.channelId
  cumulative : (x.cumulative : ℤ) = v.cumulative
  payer : x.payerAx = ch.payerAx ∧ x.payerAy = ch.payerAy
  cap : x.cap = ch.cap
  assetId : x.assetId = ch.assetId
  /-- `_settle` stops at nothing but the proof. -/
  checks : ∀ s proof, Expects s c ch root →
    E.groth16 s.escrow.settleVerifier proof x.toList = false →
    s.settle E proof x = .error .proofInvalid
  /-- With a proof, and room in the pool, it goes through. -/
  settles : ∀ s proof, Expects s c ch root → HasRoom E s x →
    E.groth16 s.escrow.settleVerifier proof x.toList = true → ∃ s', s.settle E proof x = .ok s'

section
variable {E : Env} {eddsa : Bn254 → Bn254 → Bn254 → Signature Bn254 → Prop} {C : Circomlib}
  {s s₀ : State} {K : List (Reentrancy.Pending State (Entry E) Kont)}
  {w : World State (Entry E) Kont} {c : ℕ} {ch : Channel} {v : Voucher} {root : Bn254} {x : StreamSettlePub ℕ} {proof : Groth16Proof}

/-- Field elements are words that the verifier takes. -/
theorem map_val_lt (x : StreamSettlePub Bn254) : ∀ y ∈ (x.map ZMod.val).toList, y < bn254 := by
  rw [StreamSettlePub.toList_map]
  intro y hy
  obtain ⟨z, -, rfl⟩ := List.mem_map.1 hy
  exact ZMod.val_lt z

theorem map_val_cast (x : StreamSettlePub Bn254) : (x.map ZMod.val).map Nat.cast = x := by
  simp [StreamSettlePub.map]

/-- The checks of `_settle` ahead of the proof. -/
structure Matches (E : Env) (c : ℕ) (ch : Channel) (root : Bn254) (x : StreamSettlePub ℕ) :
    Prop where
  channelId : x.channelId = c
  payerAx : x.payerAx = ch.payerAx
  payerAy : x.payerAy = ch.payerAy
  cap : x.cap = ch.cap
  assetId : x.assetId = ch.assetId
  domain : x.poolId = E.poolId ∧ x.chainId = E.chainId
  association : x.associationRoot = root.val

/-- A settlement whose proof is refused fails for that reason. -/
theorem Matches.rejected (h : Matches E c ch root x) (hop : ch.opened = true)
    (hcon : ch.consumed = false) (hs : Expects s c ch root)
    (hproof : E.groth16 s.escrow.settleVerifier proof x.toList = false) :
    s.settle E proof x = .error .proofInvalid := by
  have hverify : E.verifyProof s.escrow.settleVerifier proof x.toList = false := by
    rw [Env.verifyProof, hproof, Bool.and_false]
  have hch : s.escrow.channels x.channelId = ch := by rw [h.channelId, hs.channel]
  have hparams : x.payerAx = ch.payerAx ∧ x.payerAy = ch.payerAy ∧ x.cap = ch.cap ∧
      x.assetId = ch.assetId := ⟨h.payerAx, h.payerAy, h.cap, h.assetId⟩
  have hassoc : x.associationRoot = s.pool.associationRoot :=
    h.association.trans hs.association.symm
  simp only [State.settle, State.settleOne, Access.whenNotPaused, hch, hs.running, hop, hcon,
    hparams, h.domain, hassoc, hverify]
  rfl

/-- A settlement whose proof is accepted goes through while there is room. -/
theorem Matches.accepted (h : Matches E c ch root x) (hop : ch.opened = true)
    (hcon : ch.consumed = false) (hlt : ∀ y ∈ x.toList, y < bn254) (hle : x.cumulative ≤ x.cap)
    (hs : Expects s c ch root) (hroom : HasRoom E s x)
    (hproof : E.groth16 s.escrow.settleVerifier proof x.toList = true) :
    ∃ s', s.settle E proof x = .ok s' := by
  have hverify : E.verifyProof s.escrow.settleVerifier proof x.toList = true := by
    rw [Env.verifyProof, hproof, Bool.and_true, List.all_eq_true]
    exact fun y hy => decide_eq_true (hlt y hy)
  have hch : s.escrow.channels x.channelId = ch := by rw [h.channelId, hs.channel]
  have hchecks : SettleChecks E s proof x :=
    { opened := hch.symm ▸ hop
      consumed := hch.symm ▸ hcon
      payerAx := hch.symm ▸ h.payerAx
      payerAy := hch.symm ▸ h.payerAy
      cap := hch.symm ▸ h.cap
      assetId := hch.symm ▸ h.assetId
      domain := h.domain
      association := h.association.trans hs.association.symm
      verified := hverify
      cumulative := hle
      stream := hroom.stream }
  have hfree := hroom.leaves
  obtain ⟨s', hs'⟩ := State.settleOne_ok_iff.2
    ⟨hchecks, hroom.running, hroom.payment, hroom.reserve, by omega, by omega⟩
  refine ⟨s', ?_⟩
  simp only [State.settle, Access.whenNotPaused, hs.running]
  exact hs'

/-- The words made from a payable voucher are those on record. -/
theorem Payable.words (h : Payable C c ch v) {pub : StreamOpenPub ℕ} (hc : pub.channelId = c)
    (hch : openedChannel pub = ch) (hdomain : pub.poolId = E.poolId ∧ pub.chainId = E.chainId)
    (hlt : ∀ y ∈ pub.toList, y < bn254) (payee refund : OutputOpening Bn254) :
    Matches E c ch root (settleWords E ch v root payee refund) ∧
      ((settleWords E ch v root payee refund).cumulative : ℤ) = v.cumulative := by
  -- an integer that is a word of the opening is that word again after its reduction
  have hword : ∀ {y : ℕ} {z : ℤ}, y ∈ pub.toList → z = y → ((z : ℤ) : Bn254).val = y := by
    rintro y z hy rfl
    rw [Int.cast_natCast]
    exact ZMod.val_cast_of_lt (hlt y hy)
  subst hch
  have hcap : pub.cap < bn254 := hlt _ (by simp [StreamOpenPub.toList])
  constructor
  · exact {
      channelId := by
        have hid : v.channelId = pub.channelId := by rw [h.channelId, hc]
        exact (hword (by simp [StreamOpenPub.toList]) hid).trans hc
      payerAx := hword (by simp [StreamOpenPub.toList, openedChannel]) h.Ax
      payerAy := hword (by simp [StreamOpenPub.toList, openedChannel]) h.Ay
      cap := hword (by simp [StreamOpenPub.toList, openedChannel]) rfl
      assetId := hword (by simp [StreamOpenPub.toList, openedChannel]) rfl
      domain := ⟨hword (by simp [StreamOpenPub.toList, hdomain.1]) rfl,
        hword (by simp [StreamOpenPub.toList, hdomain.2]) rfl⟩
      association := by
        change (((root.val : ℕ) : ℤ) : Bn254).val = root.val
        rw [Int.cast_natCast, ZMod.natCast_zmod_val] }
  · obtain ⟨n, hn⟩ := Int.eq_ofNat_of_zero_le h.nonneg
    have hle : n ≤ pub.cap := by
      have := h.le_cap
      simp only [openedChannel] at this
      omega
    change (((v.cumulative : Bn254).val : ℕ) : ℤ) = v.cumulative
    rw [hn, Int.cast_natCast, ZMod.val_cast_of_lt (by omega)]

/-- In a run there is room when the reserve bears the cap: no supply is negative. -/
theorem HasRoom.of_affords (hd : Deployed E s₀) (h : Reachable E s₀ K w)
    (hle : x.cumulative ≤ x.cap) (hrunning : w.1.pool.access.paused = false)
    (hstream : w.1.pool.authorizedStreamContract E.escrow = true)
    (hreserve : Affords E w.1 x.assetId x.cap)
    (hleaves : w.1.pool.tree.nextLeafIndex + 2 ≤ 2 ^ E.levels) : HasRoom E w.1 x := by
  have hnn := supplies_nonneg hd h x.assetId
  exact {
    running := hrunning
    stream := hstream
    payment := fun _ => hreserve.adjustable (by exact_mod_cast hle) (by omega)
    reserve := fun _ => hreserve.adjustable le_rfl (by omega)
    leaves := hleaves }

/-- **What is accepted can be redeemed.** In every run, a voucher that has been accepted for a
channel that is open and not consumed, with a cap of 128 bits, satisfies the circuit together with
the record of the channel, and the words of that assignment pass `_settle` in every state that still
has the record, at any association root and for any two coins. -/
theorem accepted_redeemable (hd : Deployed E s₀) (h : Reachable E s₀ K w)
    (hC : C.Agrees E.poseidon eddsa) (hop : (w.1.escrow.channels c).opened = true)
    (hcon : (w.1.escrow.channels c).consumed = false) (hcap : (w.1.escrow.channels c).cap < 2 ^ 128)
    (hacc : AcceptedFor C c (w.1.escrow.channels c) v) (root : Bn254)
    (payee refund : OutputOpening Bn254) :
    Redeems E eddsa c (w.1.escrow.channels c) v root
      (settleWords E (w.1.escrow.channels c) v root payee refund) := by
  have hpay := hacc.payable
  have hopened : opsOf c w.2 = [.opened (w.1.escrow.channels c)] :=
    (lifecycle_reach hd h c).eq_opened hop hcon
  obtain ⟨pub, hc, hch, hpool, hchain, hlt⟩ := @exists_opening E s₀ K w h c (w.1.escrow.channels c)
    (by rw [hopened]; exact List.mem_singleton.2 rfl)
  obtain ⟨hmatch, hcum⟩ := @Payable.words E C c _ v root hpay pub hc hch ⟨hpool, hchain⟩ hlt payee
    refund
  obtain ⟨seq, hseq, hsat⟩ := @Payable.satisfies E C c _ v root eddsa hpay hC hcap payee refund
  have hle : (settleWords E (w.1.escrow.channels c) v root payee refund).cumulative ≤
      (settleWords E (w.1.escrow.channels c) v root payee refund).cap := by
    have := hpay.le_cap
    rw [hmatch.cap]
    omega
  exact {
    satisfied := by
      refine ⟨seq, (settleInput E (w.1.escrow.channels c) v root).privateSignals seq payee refund,
        hseq, rfl, rfl, ?_⟩
      rw [settleWords, map_val_cast]
      exact hsat
    channelId := ⟨hmatch.channelId, by rw [hmatch.channelId, hpay.channelId]⟩
    cumulative := hcum
    payer := ⟨hmatch.payerAx, hmatch.payerAy⟩
    cap := hmatch.cap
    assetId := hmatch.assetId
    checks := fun _ _ hs => hmatch.rejected hop hcon hs
    settles := fun _ _ hs hroom => hmatch.accepted hop hcon (map_val_lt _) hle hs hroom }

/-! ## A redeemed voucher -/

/-- The library of the runs: a signature of `M` under the key `(Ax, Ay)` repeats `Ax` and `M`. -/
def runsLib : Circomlib where
  poseidon := samplePoseidon
  signPoseidon _ msg := (4, 0, msg.val)
  verifyPoseidon msg sig key := decide (sig.1.1 = key.1 ∧ (sig.2 : Bn254) = msg)

/-- The library of the run hashes as its deployment does. -/
theorem runsLib_agrees (acc : Accepted) : runsLib.Agrees (sampleEnv acc).poseidon sampleEddsa where
  poseidon := rfl
  eddsa h := by
    simp only [runsLib, decide_eq_true_eq] at h
    exact h

/-- The voucher for 10 on channel 3. -/
def voucherTen : Voucher :=
  ⟨3, 10, (1 : ℕ), 4, 0, (samplePoseidon [(3 : Bn254), (10 : Bn254), (1 : Bn254)]).val, 4, 0⟩

/-- A payee who has served five units at two each accepts it, and `settle` takes it. -/
theorem accepted_redeemable_ten : ∃ x, Redeems (sampleEnv streaming) sampleEddsa 3
      ((runFrom streaming openRun).1.escrow.channels 3) voucherTen (labelRoot [7] : ℕ) x ∧
    x.cumulative = 10 ∧
    ∃ s', (runFrom streaming openRun).1.settle (sampleEnv streaming) someProof x = .ok s' := by
  have hrun := (@reach_run streaming (fun _ => True) (fun _ _ => trivial) openRun).of_within
  have hrecord : (runFrom streaming openRun).1.escrow.channels 3 = openedChannel
      (openOf note₁ (usdcNote 0 7 11) (usdcNote 100 7 12) [leafOf note₁] [7] 100 4) := by
    decide
  have hvalid : verifyVoucher runsLib voucherTen = .ok true := by
    decide +kernel
  have hacc : AcceptedFor runsLib 3 ((runFrom streaming openRun).1.escrow.channels 3)
      voucherTen := by
    rw [hrecord]
    refine @AcceptedFor.received _ _ _ _ (.new (payeeConfig 3 _ 2)) (.new (payeeConfig 3 _ 2)) 2 5
      none rfl rfl (by norm_num) (by norm_num) rfl ?_
    rw [PayeeAgent.received, hvalid]
    rfl
  have hredeems := accepted_redeemable deployed_fresh hrun (runsLib_agrees streaming)
    (by rw [hrecord]; rfl) (by rw [hrecord]; rfl) (by rw [hrecord]; decide) hacc (labelRoot [7] : ℕ)
    ⟨(7 : ℕ), (15 : ℕ), 0⟩ ⟨(7 : ℕ), (16 : ℕ), 0⟩
  have hwords : settleWords (sampleEnv streaming) ((runFrom streaming openRun).1.escrow.channels 3)
      voucherTen (labelRoot [7] : ℕ) ⟨(7 : ℕ), (15 : ℕ), 0⟩ ⟨(7 : ℕ), (16 : ℕ), 0⟩ =
        settleOf (usdcNote 10 7 15) (usdcNote 90 7 16) [7] 100 10 4 := by
    rw [hrecord]
    decide
  rw [hwords] at hredeems
  refine ⟨_, hredeems, rfl, hredeems.settles _ _ ⟨by decide, rfl, by decide⟩ ?_
    (by decide +kernel)⟩
  have hreserve : Affords (sampleEnv streaming) (runFrom streaming openRun).1 11 100 :=
    ⟨by decide, by decide, by decide⟩
  exact .of_affords deployed_fresh hrun (by decide) (by decide +kernel) (by decide +kernel) hreserve
    (by decide +kernel)

end

end ShadePay.Streams
