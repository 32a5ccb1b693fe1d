import ShadePay.Streams.Agents

/-!
# Safety of the exchange

What the vouchers of an exchange are worth: the payer signs growing amounts within its budget, and the
payee keeps the highest of those that it accepted, which the payer signed. Nothing is assumed of the
network except that it forges no signature (`Fair`). The sequence numbers are JavaScript numbers, and
grow only up to `2 ^ 53` (`Counts`).
-/

namespace ShadePay.Streams

open Guard Interleave

/-! ## One step -/

/-- What a step of a call does. -/
inductive Effect (C : Circomlib) (d : Exchange) :
    Option Waiting → Act → Exchange → Option Waiting → Prop where
  /-- A payer that is paused or resumed, or refuses to pay. -/
  | idles {a : Act} {payer : PayerAgent} (cfg : payer.cfg = d.payer.cfg)
      (cumulative : payer.cumulative = d.payer.cumulative) (seq : payer.seq = d.payer.seq) :
      Effect C d none a { d with payer := payer } none
  /-- A payment, with its voucher when signing it succeeds. -/
  | pays {units next : ℤ} {vs : List Voucher} (authorized : d.payer.authorize units = .ok next)
      (signs : ∀ v ∈ vs, (d.payer.pay C units).1 = .ok v ∧
        signVoucher C d.payer.cfg.key d.payer.cfg.channelId next (d.payer.seq.add (1 : ℕ)) = .ok v)
      (once : vs.length ≤ 1) :
      Effect C d none (.pay units) { d with
        payer := { d.payer with cumulative := next, seq := d.payer.seq.add (1 : ℕ) }
        signed := d.signed ++ vs } none
  /-- The first half of a `receive`. -/
  | receives {v : Voucher} {total : ℤ} {l' : Option Waiting}
      (waits : ∀ w, l' = some w → w = (v, total) ∧ v.channelId = d.payee.cfg.channelId ∧
        v.Ax = d.payee.cfg.payerAx ∧ v.Ay = d.payee.cfg.payerAy) :
      Effect C d none (.receive v total) { d with
        payee := { d.payee with unitsServed := total }
        reported := d.reported ++ [total] } l'
  /-- The second half of one that accepts. -/
  | accepts {v : Voucher} {total : ℤ} (verified : verifyVoucher C v = .ok true)
      (cap : v.cumulative ≤ d.payee.cfg.cap)
      (owed : d.payee.cfg.ratePerUnit * total ≤ v.cumulative) :
      Effect C d (some (v, total)) .verified { d with
        payee := { d.payee with best := keepHigher d.payee.best v }
        accepted := d.accepted ++ [v] } none
  /-- The second half of one that does not. -/
  | rejects {w : Waiting} : Effect C d (some w) .verified d none

/-- A call of `pay` sends one voucher, or none. -/
theorem Exchange.pay_effect {C : Circomlib} {d d' : Exchange} {l' : Option Waiting} {units : ℤ}
    (h : Exchange.act C none d (.pay units) = some (d', l')) : Effect C d none (.pay units) d' l' := by
  cases hauth : d.payer.authorize units with
  | error e =>
      simp only [Exchange.act, PayerAgent.pay, hauth] at h
      cases h
      exact .idles rfl rfl rfl
  | ok next =>
      simp only [Exchange.act, PayerAgent.pay, hauth] at h
      cases hsign : signVoucher C d.payer.cfg.key d.payer.cfg.channelId next
          (d.payer.seq.add (1 : ℕ)) with
      | error e =>
          rw [hsign] at h
          cases h
          have := @Effect.pays C d units next [] hauth (by simp) (by simp)
          simpa using this
      | ok v =>
          rw [hsign] at h
          cases h
          refine .pays hauth (fun u hu => ?_) le_rfl
          rw [List.mem_singleton.1 hu, PayerAgent.pay, hauth]
          exact ⟨hsign, hsign⟩

/-- A call of `receive` notes the total, and may go on to verify the voucher. -/
theorem Exchange.receive_effect {C : Circomlib} {d d' : Exchange} {l' : Option Waiting} {v : Voucher}
    {total : ℤ} (h : Exchange.act C none d (.receive v total) = some (d', l')) :
    Effect C d none (.receive v total) d' l' := by
  have hfst : (d.payee.receive v total).1 = { d.payee with unitsServed := total } :=
    PayeeAgent.receive_fst
  have hwaits := @PayeeAgent.receive_waits d.payee v total
  rcases hcall : d.payee.receive v total with ⟨payee, r⟩
  rw [hcall] at hfst hwaits
  simp only at hfst
  simp only [Exchange.act, hcall, hfst] at h
  cases r with
  | some r =>
      cases h
      exact .receives (fun w hw => by cases hw)
  | none =>
      cases h
      refine .receives (fun w hw => ?_)
      cases hw
      exact ⟨rfl, hwaits rfl⟩

/-- The rest of `receive` takes the voucher for the best one, or leaves all as it is. -/
theorem Exchange.verified_effect {C : Circomlib} {d d' : Exchange} {w : Waiting} {l' : Option Waiting}
    (h : Exchange.act C (some w) d .verified = some (d', l')) :
    Effect C d (some w) .verified d' l' := by
  obtain ⟨v, total⟩ := w
  have haccepts := @PayeeAgent.received_accepts C d.payee v total
  have hrejects := @PayeeAgent.received_rejects C d.payee v total
  rcases hcall : d.payee.received C v total with ⟨payee, r⟩
  rw [hcall] at haccepts hrejects
  simp only [Exchange.act, hcall] at h
  rcases r with e | ⟨accepted, reason⟩
  · obtain rfl := hrejects fun reason hr => by cases hr
    cases h
    exact .rejects
  · cases accepted with
    | true =>
        obtain ⟨hverify, hcap, howed, rfl⟩ := haccepts rfl
        cases h
        exact .accepts hverify hcap howed
    | false =>
        obtain rfl := hrejects fun reason hr => by cases hr
        cases h
        exact .rejects

/-- A step of the exchange does one of the things an effect lists. -/
theorem Exchange.act_effect {C : Circomlib} {d d' : Exchange} {l l' : Option Waiting} {a : Act}
    (h : Exchange.act C l d a = some (d', l')) : Effect C d l a d' l' := by
  cases l with
  | none =>
      cases a with
      | pay units => exact Exchange.pay_effect h
      | pause | resume =>
          cases h
          exact .idles rfl rfl rfl
      | receive v total => exact Exchange.receive_effect h
      | verified => cases h
  | some w =>
      cases a with
      | verified => exact Exchange.verified_effect h
      | pay | pause | resume | receive => cases h

/-! ## Runs under a condition -/

open Classical in
/-- The program with only the steps that meet a condition. -/
noncomputable def Exchange.under (C : Circomlib) (ok : Exchange → Act → Prop) :
    Option Waiting → Exchange → Act → Option (Exchange × Option Waiting) :=
  restrict (Exchange.act C) fun _ d a => decide (ok d a)

/-- A step under a condition meets it, and does one of the things an effect lists. -/
theorem Exchange.under_effect {C : Circomlib} {ok : Exchange → Act → Prop} {d d' : Exchange}
    {l l' : Option Waiting} {a : Act} (h : Exchange.under C ok l d a = some (d', l')) :
    ok d a ∧ Effect C d l a d' l' := by
  obtain ⟨hok, hact⟩ := restrict_eq_some.1 h
  exact ⟨@of_decide_eq_true _ (Classical.propDecidable _) hok, Exchange.act_effect hact⟩

/-- A step that meets the condition is taken. -/
theorem Exchange.under_of {C : Circomlib} {ok : Exchange → Act → Prop} {d d' : Exchange}
    {l l' : Option Waiting} {a : Act} (hok : ok d a) (hact : Exchange.act C l d a = some (d', l')) :
    Exchange.under C ok l d a = some (d', l') :=
  restrict_eq_some.2 ⟨@decide_eq_true _ (Classical.propDecidable _) hok, hact⟩

/-- What the payer hashes to sign a voucher, and the payee to verify it, is in `U`. -/
def Voucher.Hashed (U : Set (List Bn254)) (v : Voucher) : Prop :=
  ∀ fields, messageFields v.channelId v.cumulative v.seq = .ok fields → fields ∈ U

/-- What is assumed of a step: the numbers of units are not negative, the messages are among those on
which the hash has no collisions, and a voucher off the network that verifies under the payer's key is
over a message that the payer has signed. -/
def Fair (C : Circomlib) (U : Set (List Bn254)) (d : Exchange) : Act → Prop
  | .pay units => ∀ v, (d.payer.pay C units).1 = .ok v → v.Hashed U
  | .receive v total => 0 ≤ total ∧ v.Hashed U ∧
      (v.Ax = d.payer.cfg.key.Ax → v.Ay = d.payer.cfg.key.Ay → verifyVoucher C v = .ok true →
        ∃ u ∈ d.signed, voucherMessage C u.channelId u.cumulative u.seq =
          voucherMessage C v.channelId v.cumulative v.seq)
  | _ => True

/-- A payment that the payer authorizes finds a sequence number that can still be counted up. -/
def Counts (d : Exchange) : Act → Prop
  | .pay units => ∀ next, d.payer.authorize units = .ok next →
      d.payer.seq.lt ((2 ^ 53 : ℕ) : Number) = true
  | _ => True

/-! ## The invariant -/

/-- A payer and a payee that agree on the channel. -/
structure Agreed (payer : PayerAgentConfig) (payee : PayeeAgentConfig) : Prop where
  channelId : payee.channelId = payer.channelId
  payerAx : payee.payerAx = payer.key.Ax
  payerAy : payee.payerAy = payer.key.Ay
  cap : payee.cap = payer.cap
  capLt : payer.cap < 2 ^ 128
  ratePayer : 0 ≤ payer.ratePerUnit
  ratePayee : 0 ≤ payee.ratePerUnit

/-- An accepted voucher: it verifies under the payer's key, for the channel and within the cap, and the
payer has signed its amount. -/
structure Genuine (C : Circomlib) (cfg : PayerAgentConfig) (signed : List Voucher) (v : Voucher) :
    Prop where
  verified : verifyVoucher C v = .ok true
  key : v.Ax = cfg.key.Ax ∧ v.Ay = cfg.key.Ay
  channelId : v.channelId = cfg.channelId
  cap : v.cumulative ≤ cfg.cap
  signed : ∃ u ∈ signed, u.channelId = cfg.channelId ∧ u.cumulative = v.cumulative

/-- The invariant of the two agents. -/
structure Sound (C : Circomlib) (U : Set (List Bn254)) (payer : PayerAgentConfig)
    (payee : PayeeAgentConfig) (d : Exchange) : Prop where
  payerCfg : d.payer.cfg = payer
  payeeCfg : d.payee.cfg = payee
  nonneg : 0 ≤ d.payer.cumulative
  counted : ∃ n : ℕ, n ≤ 2 ^ 53 ∧ d.payer.seq = n ∧
    ∀ v ∈ d.signed, ∃ k : ℕ, k ≤ n ∧ v.seq = k
  ordered : d.signed.Pairwise fun u v => u.seq.lt v.seq = true ∧ u.cumulative ≤ v.cumulative
  spent : ∀ v ∈ d.signed, 0 ≤ v.cumulative ∧ v.cumulative ≤ d.payer.cumulative
  budget : ∀ v ∈ d.signed, v.cumulative ≤ payer.budget
  channelId : ∀ v ∈ d.signed, v.channelId = payer.channelId
  hashed : ∀ v ∈ d.signed, v.Hashed U
  best : d.payee.best = highestVoucher d.accepted
  accepted : ∀ v ∈ d.accepted, Genuine C payer d.signed v

/-- What a waiting call knows of its voucher. -/
structure Pending (C : Circomlib) (U : Set (List Bn254)) (payer : PayerAgentConfig) (d : Exchange)
    (w : Waiting) : Prop where
  channelId : w.1.channelId = payer.channelId
  key : w.1.Ax = payer.key.Ax ∧ w.1.Ay = payer.key.Ay
  nonneg : 0 ≤ w.2
  hashed : w.1.Hashed U
  signed : verifyVoucher C w.1 = .ok true → ∃ u ∈ d.signed,
    voucherMessage C u.channelId u.cumulative u.seq =
      voucherMessage C w.1.channelId w.1.cumulative w.1.seq

section
variable {C : Circomlib} {U : Set (List Bn254)} {payer : PayerAgentConfig}
  {payee : PayeeAgentConfig} {d d' : Exchange} {l l' : Option Waiting} {a : Act} {v : Voucher}

/-- A genuine voucher stays genuine when more are signed. -/
theorem Genuine.mono {signed signed' : List Voucher} (h : Genuine C payer signed v)
    (hsub : ∀ u ∈ signed, u ∈ signed') : Genuine C payer signed' v := by
  obtain ⟨u, hu, hrest⟩ := h.signed
  exact ⟨h.verified, h.key, h.channelId, h.cap, u, hsub u hu, hrest⟩

/-- What is known of a waiting call stays true when more vouchers are signed. -/
theorem Pending.mono {w : Waiting} (h : Pending C U payer d w)
    (hsub : ∀ u ∈ d.signed, u ∈ d'.signed) : Pending C U payer d' w := by
  refine ⟨h.channelId, h.key, h.nonneg, h.hashed, fun hv => ?_⟩
  obtain ⟨u, hu, hmsg⟩ := h.signed hv
  exact ⟨u, hsub u hu, hmsg⟩

/-- The payer only adds to what it has signed. -/
theorem Effect.signed_subset (h : Effect C d l a d' l') : ∀ u ∈ d.signed, u ∈ d'.signed := by
  cases h with
  | pays => exact fun u hu => List.mem_append_left _ hu
  | idles => exact fun u hu => hu
  | receives => exact fun u hu => hu
  | accepts => exact fun u hu => hu
  | rejects => exact fun u hu => hu

/-- The amounts of two vouchers over one message agree: each is below the modulus. -/
theorem cumulative_eq_of_message (hU : Set.InjOn C.poseidon U) {u : Voucher} (hu : u.Hashed U)
    (hv : v.Hashed U) {msg : Bn254}
    (hmsg : voucherMessage C v.channelId v.cumulative v.seq = .ok msg)
    (heq : voucherMessage C u.channelId u.cumulative u.seq =
      voucherMessage C v.channelId v.cumulative v.seq)
    (hu₀ : 0 ≤ u.cumulative ∧ u.cumulative < 2 ^ 128)
    (hv₀ : 0 ≤ v.cumulative ∧ v.cumulative < 2 ^ 128) : u.cumulative = v.cumulative := by
  obtain ⟨fv, hfv, hpv⟩ := voucherMessage_eq_ok hmsg
  obtain ⟨fu, hfu, hpu⟩ := voucherMessage_eq_ok (heq.trans hmsg)
  have hfields : fu = fv := hU (hu fu hfu) (hv fv hfv) (hpu.trans hpv.symm)
  obtain ⟨n, rfl⟩ := messageFields_eq_ok hfu
  obtain ⟨m, hm⟩ := messageFields_eq_ok (hfields ▸ hfv)
  simp only [List.cons.injEq] at hm
  have hcast : ((u.cumulative - v.cumulative : ℤ) : Bn254) = 0 := by
    push_cast
    rw [hm.2.1, sub_self]
  -- a multiple of the modulus between two amounts is zero
  have hdvd : (bn254 : ℤ) ∣ u.cumulative - v.cumulative :=
    (ZMod.intCast_zmod_eq_zero_iff_dvd _ _).1 hcast
  have hlt : |u.cumulative - v.cumulative| < (bn254 : ℤ) := by
    have hwide : (2 : ℤ) ^ 128 < bn254 := by decide
    rw [abs_lt]
    constructor <;> omega
  have := Int.eq_zero_of_abs_lt_dvd hdvd hlt
  omega

/-- **An accepted voucher is genuine.** -/
theorem Pending.genuine (hcfg : Agreed payer payee) (hbudget : payer.budget ≤ payer.cap) (hU : Set.InjOn C.poseidon U)
    (hd : Sound C U payer payee d) {total : ℤ} (h : Pending C U payer d (v, total))
    (hverified : verifyVoucher C v = .ok true) (hcap : v.cumulative ≤ d.payee.cfg.cap)
    (howed : d.payee.cfg.ratePerUnit * total ≤ v.cumulative) :
    Genuine C payer d.signed v := by
  obtain ⟨u, hu, heq⟩ := h.signed hverified
  obtain ⟨msg, hmsg⟩ := verifyVoucher_eq_ok hverified
  rw [hd.payeeCfg] at hcap howed
  have hcapLt := hcfg.capLt
  have hv₀ : 0 ≤ v.cumulative := (mul_nonneg hcfg.ratePayee h.nonneg).trans howed
  have hv₁ : v.cumulative < 2 ^ 128 := by
    rw [hcfg.cap] at hcap
    omega
  have hu₁ : u.cumulative < 2 ^ 128 := by
    have := hd.budget u hu
    omega
  refine ⟨hverified, h.key, h.channelId, hcfg.cap ▸ hcap, u, hu, hd.channelId u hu, ?_⟩
  exact cumulative_eq_of_message hU (hd.hashed u hu) h.hashed hmsg heq
    ⟨(hd.spent u hu).1, hu₁⟩ ⟨hv₀, hv₁⟩

/-- A list of one voucher at most is ordered in any sense. -/
theorem pairwise_of_length_le_one {R : Voucher → Voucher → Prop} {l : List Voucher}
    (h : l.length ≤ 1) : l.Pairwise R := by
  cases l with
  | nil => exact .nil
  | cons v l =>
      cases l with
      | nil => exact List.pairwise_singleton ..
      | cons w l => simp at h

/-- A payment keeps the invariant: its voucher is the next in the order. -/
theorem Sound.pays (hcfg : Agreed payer payee) (hd : Sound C U payer payee d) {units next : ℤ}
    {vs : List Voucher} (hok : Fair C U d (.pay units) ∧ Counts d (.pay units))
    (hauth : d.payer.authorize units = .ok next)
    (hsigns : ∀ v ∈ vs, (d.payer.pay C units).1 = .ok v ∧
      signVoucher C d.payer.cfg.key d.payer.cfg.channelId next (d.payer.seq.add (1 : ℕ)) = .ok v)
    (honce : vs.length ≤ 1) : Sound C U payer payee { d with
      payer := { d.payer with cumulative := next, seq := d.payer.seq.add (1 : ℕ) }
      signed := d.signed ++ vs } := by
  obtain ⟨hfair, hcount⟩ := hok
  obtain ⟨hunits, hnext, hbudget⟩ := PayerAgent.authorize_eq_ok hauth
  rw [hd.payerCfg] at hnext hbudget
  obtain ⟨n, hn, hseq, hks⟩ := hd.counted
  have hgrow : d.payer.cumulative ≤ next := by
    have := mul_nonneg hcfg.ratePayer hunits.le
    omega
  have hlt : n < 2 ^ 53 := by
    have hseqLt := hcount next hauth
    rw [hseq] at hseqLt
    exact (Number.lt_natCast hn le_rfl).1 hseqLt
  have hseq' : d.payer.seq.add (1 : ℕ) = ((n + 1 : ℕ) : Number) := by
    rw [hseq]
    exact Number.add_natCast hlt
  have hnew : ∀ v ∈ vs, v.channelId = payer.channelId ∧ v.cumulative = next ∧
      v.seq = ((n + 1 : ℕ) : Number) ∧ v.Hashed U := by
    intro v hv
    obtain ⟨hpay, hsign⟩ := hsigns v hv
    obtain ⟨h1, h2, h3, -⟩ := signVoucher_eq_ok hsign
    exact ⟨by rw [h1, hd.payerCfg], h2, by rw [h3, hseq'], hfair v hpay⟩
  have hcounted : ∀ v ∈ d.signed ++ vs, ∃ k : ℕ, k ≤ n + 1 ∧ v.seq = k := by
    refine List.forall_mem_append.2 ⟨fun v hv => ?_, fun v hv => ?_⟩
    · obtain ⟨k, hk, hvk⟩ := hks v hv
      exact ⟨k, by omega, hvk⟩
    · exact ⟨n + 1, le_rfl, (hnew v hv).2.2.1⟩
  refine ⟨hd.payerCfg, hd.payeeCfg, hd.nonneg.trans hgrow, ⟨n + 1, hlt, hseq', hcounted⟩, ?_, ?_, ?_,
    ?_, ?_, hd.best, ?_⟩
  · refine List.pairwise_append.2 ⟨hd.ordered, ?_, fun u hu v hv => ?_⟩
    · exact pairwise_of_length_le_one honce
    · obtain ⟨k, hk, huk⟩ := hks u hu
      obtain ⟨-, hv₁, hv₂, -⟩ := hnew v hv
      refine ⟨?_, by rw [hv₁]; exact (hd.spent u hu).2.trans hgrow⟩
      rw [huk, hv₂]
      exact (Number.lt_natCast (by omega) (by omega)).2 (by omega)
  · refine List.forall_mem_append.2 ⟨fun v hv => ?_, fun v hv => ?_⟩
    · exact ⟨(hd.spent v hv).1, (hd.spent v hv).2.trans hgrow⟩
    · rw [(hnew v hv).2.1]
      exact ⟨hd.nonneg.trans hgrow, le_rfl⟩
  · refine List.forall_mem_append.2 ⟨hd.budget, fun v hv => ?_⟩
    rw [(hnew v hv).2.1]
    exact hbudget
  · exact List.forall_mem_append.2 ⟨hd.channelId, fun v hv => (hnew v hv).1⟩
  · exact List.forall_mem_append.2 ⟨hd.hashed, fun v hv => (hnew v hv).2.2.2⟩
  · exact fun v hv => (hd.accepted v hv).mono fun u hu => List.mem_append_left _ hu

/-- The outline of the exchange. -/
theorem exchange_outline (hcfg : Agreed payer payee) (hbudget : payer.budget ≤ payer.cap)
    (hU : Set.InjOn C.poseidon U) :
    Outline (Exchange.under C fun d a => Fair C U d a ∧ Counts d a) (Sound C U payer payee)
      (fun d l => ∀ w, l = some w → Pending C U payer d w) (fun _ _ => True) where
  symm _ := trivial
  own := by
    intro l d a d' l' hd hl h
    obtain ⟨hok, heff⟩ := Exchange.under_effect h
    cases heff with
    | idles cfg cumulative seq =>
        refine ⟨⟨cfg.trans hd.payerCfg, hd.payeeCfg, by rw [cumulative]; exact hd.nonneg, ?_,
          hd.ordered, ?_, hd.budget, hd.channelId, hd.hashed, hd.best, hd.accepted⟩, by simp⟩
        · rw [seq]
          exact hd.counted
        · rw [cumulative]
          exact hd.spent
    | pays hauth hsigns honce => exact ⟨hd.pays hcfg hok hauth hsigns honce, by simp⟩
    | receives hwaits =>
        refine ⟨⟨hd.payerCfg, hd.payeeCfg, hd.nonneg, hd.counted, hd.ordered, hd.spent, hd.budget,
          hd.channelId, hd.hashed, hd.best, hd.accepted⟩, fun w hw => ?_⟩
        obtain ⟨rfl, hchannel, hAx, hAy⟩ := hwaits w hw
        rw [hd.payeeCfg] at hchannel hAx hAy
        obtain ⟨⟨htotal, hhashed, hforged⟩, -⟩ := hok
        rw [hd.payerCfg] at hforged
        rw [hcfg.payerAx] at hAx
        rw [hcfg.payerAy] at hAy
        exact ⟨hchannel.trans hcfg.channelId, ⟨hAx, hAy⟩, htotal, hhashed, hforged hAx hAy⟩
    | accepts hverified hcap howed =>
        have hgen := (hl _ rfl).genuine hcfg hbudget hU hd hverified hcap howed
        refine ⟨⟨hd.payerCfg, hd.payeeCfg, hd.nonneg, hd.counted, hd.ordered, hd.spent, hd.budget,
          hd.channelId, hd.hashed, ?_, fun v hv => ?_⟩, by simp⟩
        · rw [highestVoucher_append, ← hd.best]
        · rcases List.mem_append.1 hv with hv | hv
          · exact hd.accepted v hv
          · rw [List.mem_singleton.1 hv]
            exact hgen
    | rejects => exact ⟨hd, by simp⟩
  other := by
    intro l m d a d' l' _ _ hm _ h
    obtain ⟨-, heff⟩ := Exchange.under_effect h
    exact ⟨fun w hw => (hm w hw).mono heff.signed_subset, trivial⟩

/-- The best voucher is only replaced by a higher one. -/
theorem Effect.best_le (h : Effect C d l a d' l') {b : Voucher} (hb : d.payee.best = some b) :
    ∃ b', d'.payee.best = some b' ∧ b.cumulative ≤ b'.cumulative := by
  cases h with
  | accepts =>
      simp only [hb, keepHigher]
      split
      · next hlt => exact ⟨_, rfl, hlt.le⟩
      · exact ⟨b, rfl, le_rfl⟩
  | idles => exact ⟨b, hb, le_rfl⟩
  | pays => exact ⟨b, hb, le_rfl⟩
  | receives => exact ⟨b, hb, le_rfl⟩
  | rejects => exact ⟨b, hb, le_rfl⟩

end

/-! ## Safety -/

/-- What the two agents hold in their hands. -/
structure Safe (C : Circomlib) (d : Exchange) : Prop where
  /-- Sequence numbers grow strictly and amounts do not shrink, in the order of signing. -/
  ordered : d.signed.Pairwise fun u v => u.seq.lt v.seq = true ∧ u.cumulative ≤ v.cumulative
  budget : ∀ v ∈ d.signed, v.cumulative ≤ d.payer.cfg.budget ∧ d.payer.cfg.budget ≤ d.payer.cfg.cap
  genuine : ∀ b, d.payee.best = some b → Genuine C d.payer.cfg d.signed b
  /-- The best voucher is the highest of the accepted ones. -/
  greatest : ∀ b, d.payee.best = some b →
    b ∈ d.accepted ∧ ∀ v ∈ d.accepted, v.cumulative ≤ b.cumulative
  missing : d.payee.best = none → d.accepted = []
  spent : ∀ b, d.payee.best = some b → b.cumulative ≤ d.payer.spent

section
variable {ι : Type} [DecidableEq ι] {C : Circomlib} {U : Set (List Bn254)}
  {payer : PayerAgentConfig} {payee : PayeeAgentConfig} {p : PayerAgent}
  {ok : Exchange → Act → Prop}

/-- The invariant gives what the two agents rely on. -/
theorem Sound.safe {d : Exchange} (hd : Sound C U payer payee d)
    (hbudget : payer.budget ≤ payer.cap) : Safe C d := by
  obtain ⟨hnone, hsome⟩ := highestVoucher_spec d.accepted
  have hgenuine : ∀ b, d.payee.best = some b → Genuine C payer d.signed b := fun b hb =>
    hd.accepted b (hsome b (hd.best ▸ hb)).1
  refine ⟨hd.ordered, fun v hv => ?_, fun b hb => ?_, fun b hb => hsome b (hd.best ▸ hb),
    fun hb => hnone (hd.best ▸ hb), fun b hb => ?_⟩
  · rw [hd.payerCfg]
    exact ⟨hd.budget v hv, hbudget⟩
  · rw [hd.payerCfg]
    exact hgenuine b hb
  · obtain ⟨u, hu, -, hcum⟩ := (hgenuine b hb).signed
    exact hcum ▸ (hd.spent u hu).2

/-- The invariant holds before the first payment. -/
theorem Sound.start (hp : PayerAgent.new payer = .ok p) :
    Sound C U payer payee (.start p payee) := by
  obtain ⟨-, rfl⟩ := PayerAgent.new_eq_ok hp
  refine ⟨rfl, rfl, le_rfl, ⟨0, by norm_num, rfl, ?_⟩, .nil, ?_, ?_, ?_, ?_, rfl, ?_⟩
  all_goals
    intro v hv
    cases hv

/-- Over a run the best voucher only grows. -/
theorem best_le_of_run {s s' : State ι Exchange (Option Waiting)} {es : List (ι × Act)}
    (h : run (Exchange.under C ok) s es = some s') {b : Voucher}
    (hb : s.shared.payee.best = some b) :
    ∃ b', s'.shared.payee.best = some b' ∧ b.cumulative ≤ b'.cumulative := by
  refine run_induction (motive := fun _ s' => ∃ b', s'.shared.payee.best = some b' ∧
    b.cumulative ≤ b'.cumulative) ⟨b, hb, le_rfl⟩ ?_ h
  intro es t e t' _ ih hstep
  obtain ⟨c, hc, hle⟩ := ih
  obtain ⟨d, l, hprog, rfl⟩ := step_eq_some hstep
  obtain ⟨c', hc', hle'⟩ := (Exchange.under_effect hprog).2.best_le hc
  exact ⟨c', hc', hle.trans hle'⟩

/-- **Safety of the exchange.** Calls of the two agents interleave in any order, over a network that
forges no signature. In every state of a run whose authorized payments find a sequence number below
`2 ^ 53`, the signed vouchers are in order and within the budget, the best voucher is a genuine one, the
highest of those accepted and not above what the payer has spent; and it never shrinks. -/
theorem exchange_safe (hcfg : Agreed payer payee) (hU : Set.InjOn C.poseidon U)
    (hp : PayerAgent.new payer = .ok p) {es : List (ι × Act)}
    {s : State ι Exchange (Option Waiting)}
    (hrun : run (Exchange.under C fun d a => Fair C U d a ∧ Counts d a)
      ⟨.start p payee, fun _ => none⟩ es = some s) :
    Safe C s.shared ∧ ∀ (fs : List (ι × Act)) (s' : State ι Exchange (Option Waiting)),
      run (Exchange.under C fun d a => Fair C U d a ∧ Counts d a) s fs = some s' →
        ∀ b, s.shared.payee.best = some b →
          ∃ b', s'.shared.payee.best = some b' ∧ b.cumulative ≤ b'.cumulative := by
  have hbudget := (PayerAgent.new_eq_ok hp).1
  have hstart : Holds (Sound C U payer payee) (fun d l => ∀ w, l = some w → Pending C U payer d w)
      (fun _ _ => True) (⟨.start p payee, fun _ => none⟩ : State ι Exchange (Option Waiting)) :=
    ⟨.start hp, fun i w hw => (by cases hw), fun _ _ _ => trivial⟩
  have hend := (exchange_outline hcfg hbudget hU).run hstart hrun
  exact ⟨hend.shared.safe hbudget, fun fs s' hfs b hb => best_le_of_run hfs hb⟩

end

/-! ## Counting to the end -/

/-- A library whose signatures carry the message. -/
def sampleLib : Circomlib where
  poseidon fields := fields.getD 1 0
  signPoseidon _ msg := (msg.val, 0, 0)
  verifyPoseidon msg sig _ := decide (sig.1.1 = msg)

/-- A payer with a large budget. -/
def countingCfg : PayerAgentConfig := ⟨⟨[], 1, 2⟩, 42, 2 ^ 60, 1, 2 ^ 60⟩

def countingPayee : PayeeAgentConfig := ⟨1, 2, 42, 2 ^ 60, 1⟩

theorem agreed_counting : Agreed countingCfg countingPayee :=
  ⟨rfl, rfl, rfl, rfl, by decide, by decide, by decide⟩

/-- The `k`-th voucher of payments of one unit each. -/
def voucherNo (k : ℕ) : Voucher :=
  ⟨42, k, (min k (2 ^ 53) : ℕ), (((k : ℤ) : Bn254).val : ℤ), 0, 0, 1, 2⟩

/-- The messages of these vouchers: the amount determines the number. -/
def countedFields : Set (List Bn254) :=
  Set.range fun x : Bn254 => [42, x, ((min x.val (2 ^ 53) : ℕ) : Bn254)]

/-- Poseidon has no collision on the fields of the run's vouchers. -/
theorem injOn_countedFields : Set.InjOn sampleLib.poseidon countedFields := by
  rintro _ ⟨x, rfl⟩ _ ⟨y, rfl⟩ h
  have hxy : x = y := h
  rw [hxy]

/-- The fields of the run's vouchers. -/
theorem messageFields_voucherNo (k : ℕ) : messageFields 42 k (min k (2 ^ 53) : ℕ) =
    .ok [42, (k : Bn254), ((min k (2 ^ 53) : ℕ) : Bn254)] := by
  rw [messageFields, bigInt_natCast (min_le_right _ _), ok_bind]
  simp only [Int.cast_natCast, Int.cast_ofNat]
  rfl

/-- The fields of a voucher of the run are hashed. -/
theorem hashed_voucherNo {k : ℕ} (hk : k < bn254) : (voucherNo k).Hashed countedFields := by
  intro fields h
  rw [voucherNo, messageFields_voucherNo] at h
  cases h
  exact ⟨k, by simp only [ZMod.val_cast_of_lt hk]⟩

/-- The vouchers of the run verify. -/
theorem verifyVoucher_voucherNo (k : ℕ) : verifyVoucher sampleLib (voucherNo k) = .ok true := by
  rw [verifyVoucher, voucherNo, voucherMessage, messageFields_voucherNo]
  simp [sampleLib, Functor.map, Except.map]

/-- The agents after `n` payments of one unit. -/
def paid (n : ℕ) : Exchange where
  payer := ⟨countingCfg, n, (min n (2 ^ 53) : ℕ), false⟩
  payee := .new countingPayee
  signed := (List.range n).map fun k => voucherNo (k + 1)
  accepted := []
  reported := []

/-- The sequence number that follows: after `2 ^ 53` it is the same one. -/
theorem seq_add_one (n : ℕ) : ((min n (2 ^ 53) : ℕ) : Number).add (1 : ℕ) =
    ((min (n + 1) (2 ^ 53) : ℕ) : Number) := by
  rcases Nat.lt_or_ge n (2 ^ 53) with hlt | hge
  · rw [min_eq_left hlt.le, min_eq_left (by omega)]
    exact Number.add_natCast hlt
  · rw [min_eq_right hge, min_eq_right (by omega)]
    exact Number.add_one_stalls

/-- Another unit is paid for. -/
theorem pay_paid {n : ℕ} (hn : n + 1 ≤ 2 ^ 60) : (paid n).payer.pay sampleLib 1 =
    (.ok (voucherNo (n + 1)), (paid (n + 1)).payer) := by
  have hauth : (paid n).payer.authorize 1 = .ok ((n + 1 : ℕ) : ℤ) := by
    have hle : ((n + 1 : ℕ) : ℤ) ≤ 2 ^ 60 := by exact_mod_cast hn
    refine PayerAgent.authorize_of rfl one_pos ?_ hle hle
    simp [paid, countingCfg]
  have hsign : signVoucher sampleLib countingCfg.key 42 ((n + 1 : ℕ) : ℤ)
      ((min (n + 1) (2 ^ 53) : ℕ) : Number) = .ok (voucherNo (n + 1)) := by
    rw [signVoucher, voucherMessage, messageFields_voucherNo]
    simp only [Functor.map, Except.map, ok_bind, voucherNo, sampleLib, List.getD_cons_succ,
      List.getD_cons_zero, Int.cast_natCast]
    rfl
  rw [PayerAgent.pay, hauth]
  simp only [paid, seq_add_one]
  exact congrArg (·, _) hsign

/-- A payment signs one voucher more. -/
theorem signed_paid_succ (n : ℕ) :
    (paid (n + 1)).signed = (paid n).signed ++ [voucherNo (n + 1)] := by
  show (List.range (n + 1)).map _ = (List.range n).map _ ++ [voucherNo (n + 1)]
  rw [List.range_succ, List.map_append]
  rfl

/-- A payment as a step of the exchange. -/
theorem act_paid {n : ℕ} (hn : n + 1 ≤ 2 ^ 60) :
    Exchange.act sampleLib none (paid n) (.pay 1) = some (paid (n + 1), none) := by
  rw [Exchange.act, pay_paid hn]
  simp only [← signed_paid_succ]
  rfl

/-- Any number of payments of one unit. -/
theorem run_paid {ok : Exchange → Act → Prop} {n : ℕ} (hn : n ≤ 2 ^ 60)
    (hok : ∀ k < n, ok (paid k) (.pay 1)) :
    run (Exchange.under sampleLib ok) (⟨paid 0, fun _ => none⟩ : State ℕ Exchange (Option Waiting))
      (List.replicate n (0, .pay 1)) = some ⟨paid n, fun _ => none⟩ := by
  induction n with
  | zero => rfl
  | succ n ih =>
      rw [List.replicate_succ']
      refine run_append.2 ⟨_, ih (by omega) fun k hk => hok k (by omega), run_singleton.2 ?_⟩
      have hprog : Exchange.under sampleLib ok none (paid n) (.pay 1) = some (paid (n + 1), none) :=
        Exchange.under_of (hok n (Nat.lt_succ_self n)) (act_paid hn)
      rw [step, hprog, Option.map_some, Function.update_eq_self]

/-- A payment of the run is fair. -/
theorem fair_paid {n : ℕ} (hn : n + 1 ≤ 2 ^ 60) :
    Fair sampleLib countedFields (paid n) (.pay 1) := by
  intro v hv
  rw [pay_paid hn] at hv
  obtain rfl := Except.ok.inj hv
  exact hashed_voucherNo (lt_of_le_of_lt hn (by decide))

theorem paid_zero : PayerAgent.new countingCfg = .ok (paid 0).payer := rfl

/-- The first voucher on its way through a `receive`. -/
def delivered : Exchange :=
  { paid 1 with payee := { (paid 1).payee with unitsServed := 1 }, reported := [1] }

/-- The first voucher is received and waits for its verification. -/
theorem act_deliver : Exchange.act sampleLib none (paid 1) (.receive (voucherNo 1) 1) =
    some (delivered, some (voucherNo 1, 1)) := by
  have hcall : (paid 1).payee.receive (voucherNo 1) 1 =
      ({ (paid 1).payee with unitsServed := 1 }, none) := by
    rw [PayeeAgent.receive, if_neg (by decide), if_neg (by decide)]
  rw [Exchange.act, hcall]
  rfl

/-- The exchange once the voucher is accepted. -/
def kept : Exchange :=
  { delivered with
    payee := { delivered.payee with best := some (voucherNo 1) }
    accepted := [voucherNo 1] }

/-- The verified voucher is kept. -/
theorem act_accept : Exchange.act sampleLib (some (voucherNo 1, 1)) delivered .verified =
    some (kept, none) := by
  have hcall : delivered.payee.received sampleLib (voucherNo 1) 1 =
      ({ delivered.payee with best := some (voucherNo 1) }, .ok ⟨true, none⟩) := by
    rw [PayeeAgent.received, verifyVoucher_voucherNo]
    simp only
    rw [if_neg (by decide), if_neg (by decide)]
    rfl
  rw [Exchange.act, hcall]
  rfl

/-- One unit is paid for, and its voucher is delivered and accepted. -/
theorem run_kept {ok : Exchange → Act → Prop} (hpay : ok (paid 0) (.pay 1))
    (hdeliver : ok (paid 1) (.receive (voucherNo 1) 1)) (haccept : ok delivered .verified) :
    ∃ (es : List (ℕ × Act)) (loc : ℕ → Option Waiting), (∀ i, loc i = none) ∧
      run (Exchange.under sampleLib ok) ⟨paid 0, fun _ => none⟩ es = some ⟨kept, loc⟩ := by
  have hpaid := @run_paid ok 1 (by norm_num) fun k hk => by
    obtain rfl : k = 0 := by omega
    exact hpay
  have hreceived : Exchange.under sampleLib ok none (paid 1) (.receive (voucherNo 1) 1) =
      some (delivered, some (voucherNo 1, 1)) := Exchange.under_of hdeliver act_deliver
  have haccepted : Exchange.under sampleLib ok
      (Function.update (fun _ : ℕ => none) 0 (some (voucherNo 1, 1)) 0) delivered .verified =
        some (kept, none) := by
    rw [Function.update_self]
    exact Exchange.under_of haccept act_accept
  refine ⟨_, _, fun i => ?_, run_append.2 ⟨_, hpaid, run_append.2
    ⟨_, run_singleton.2 (step_of_prog (i := 0) hreceived),
      run_singleton.2 (step_of_prog (i := 0) haccepted)⟩⟩⟩
  simp only [Function.update_apply]
  split_ifs <;> rfl

/-- One unit is paid for, and its voucher is kept. -/
theorem exchange_safe_kept : kept.payee.best = some (voucherNo 1) ∧ Safe sampleLib kept := by
  obtain ⟨es, loc, -, hrun⟩ := @run_kept
    (fun d a => Fair sampleLib countedFields d a ∧ Counts d a)
    ⟨fair_paid (by omega), fun _ _ => (Number.lt_natCast (min_le_right _ _) le_rfl).2 (by omega)⟩
    ⟨⟨by decide, hashed_voucherNo (by decide),
      fun _ _ _ => ⟨voucherNo 1, List.mem_singleton_self _, rfl⟩⟩, trivial⟩ ⟨trivial, trivial⟩
  exact ⟨rfl, (exchange_safe agreed_counting injOn_countedFields paid_zero hrun).1⟩

/-- After `2 ^ 53` payments the sequence number stands still. -/
theorem exchange_stalls : ¬ ∀ (C : Circomlib) (U : Set (List Bn254)) (payer : PayerAgentConfig)
    (payee : PayeeAgentConfig) (p : PayerAgent), Agreed payer payee → Set.InjOn C.poseidon U →
      PayerAgent.new payer = .ok p →
      ∀ (es : List (ℕ × Act)) (s : State ℕ Exchange (Option Waiting)),
        run (Exchange.under C fun d a => Fair C U d a) ⟨.start p payee, fun _ => none⟩ es = some s →
          Safe C s.shared := by
  intro h
  obtain ⟨N, hN⟩ : ∃ N, N = 2 ^ 53 := ⟨_, rfl⟩
  have hrun := @run_paid (fun d a => Fair sampleLib countedFields d a) (N + 1) (by omega)
    fun k hk => fair_paid (by omega)
  have hordered : (paid (N + 1)).signed.Pairwise fun u v =>
      u.seq.lt v.seq = true ∧ u.cumulative ≤ v.cumulative :=
    (h _ _ _ _ _ agreed_counting injOn_countedFields paid_zero _ _ hrun).ordered
  have hmem : voucherNo N ∈ (paid N).signed :=
    List.mem_map.2 ⟨N - 1, List.mem_range.2 (by omega), by rw [Nat.sub_add_cancel (by omega)]⟩
  have hlast : (voucherNo N).seq.lt (voucherNo (N + 1)).seq = true := by
    rw [signed_paid_succ] at hordered
    exact ((List.pairwise_append.1 hordered).2.2 _ hmem _ (List.mem_singleton_self _)).1
  have hmin : min N (2 ^ 53) = 2 ^ 53 ∧ min (N + 1) (2 ^ 53) = 2 ^ 53 := by omega
  simp only [voucherNo, hmin] at hlast
  exact absurd ((Number.lt_natCast le_rfl le_rfl).1 hlast) (lt_irrefl _)

end ShadePay.Streams
