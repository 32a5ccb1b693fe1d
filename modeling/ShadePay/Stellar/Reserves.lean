import ShadePay.Stellar.Spending

/-!
# Reserves of the Soroban pool

`proof_of_reserves` compares the note supply of an asset with the tokens the pool holds. `Reserved` is
the invariant, for every registered asset at once, and `Call.Redeemed` what an exit owes to it: the
supply falls by the withdrawn value, and the credit is paid in the asset's own token. Two entry points
pay without the supply: `rfq_settle` pays USDC and changes no supply, and the atomic swap sends the
output asset away without a look at its supply. `Call.Covered` leaves these cases out, and
`reserves_run` is the result over runs; `rfq_breaks_reserve` is one `rfq_settle`.
-/

namespace ShadePay.Stellar

open Guard

variable (E : Env)

/-! ## The invariant -/

/-- Every registered asset stands under the hash of its token, and its supply is covered. -/
structure Reserved (s : State) : Prop where
  registered : ∀ a token, s.assetToken a = some token → a = E.recipientHash token
  usdc : ∀ token, s.assetToken (E.recipientHash s.usdc) = some token → token = s.usdc
  supply : ∀ a token, s.assetToken a = some token →
    0 ≤ s.noteSupply a ∧ s.noteSupply a ≤ s.poolBalance E token
  balance : ∀ token, 0 ≤ s.poolBalance E token

/-- Assets are registered under the hash of their token, and no other token has the hash of USDC. -/
def Call.Registers (usdc : Address) : Call → Prop
  | .registerAsset assetId token => assetId = E.recipientHash token ∧
      (E.recipientHash token = E.recipientHash usdc → token = usdc)
  | _ => True

/-- The call is no `rfq_settle`, and an atomic swap pays out of what the supply of the output asset
leaves of the pool's balance. -/
def Call.Covered (s : State) : Call → Prop
  | .rfqSettle .. => False
  | .rfqSettleAtomicSwap u _ _ _ _ _ _ o qo _ _ _ _ =>
      u = E.pool ∨ ∀ token ∈ s.assetToken o, s.noteSupply o + qo ≤ s.poolBalance E token
  | _ => True

variable {E} {s s' : State}

/-- Only the supplies, the tokens and the balances matter. -/
theorem Reserved.congr (h : Reserved E s) (ha : s'.assetToken = s.assetToken)
    (hu : s'.usdc = s.usdc) (hn : s'.noteSupply = s.noteSupply)
    (hb : ∀ token, s.poolBalance E token ≤ s'.poolBalance E token) : Reserved E s' := by
  refine ⟨?_, ?_, ?_, fun token => (h.balance token).trans (hb token)⟩
  · rw [ha]
    exact h.registered
  · rw [ha, hu]
    exact h.usdc
  · intro a token ht
    rw [ha] at ht
    obtain ⟨h0, hle⟩ := h.supply a token ht
    rw [hn]
    exact ⟨h0, hle.trans (hb token)⟩

/-- Two registered assets with one token are one asset. -/
theorem Reserved.token_inj (h : Reserved E s) {a b : Bytes32} {t : Address}
    (ha : s.assetToken a = some t) (hb : s.assetToken b = some t) : a = b :=
  (h.registered a t ha).trans (h.registered b t hb).symm

/-- One supply changes to a covered value, with the balance of its own token only. -/
theorem Reserved.adjust (h : Reserved E s) {a : Bytes32} {token : Address} {n : ℤ}
    (ht : s.assetToken a = some token) (ha : s'.assetToken = s.assetToken) (hu : s'.usdc = s.usdc)
    (hn : s'.noteSupply = Function.update s.noteSupply a n) (h0 : 0 ≤ n)
    (hle : n ≤ s'.poolBalance E token)
    (hb : ∀ t, t ≠ token → s'.poolBalance E t = s.poolBalance E t) : Reserved E s' := by
  refine ⟨?_, ?_, ?_, ?_⟩
  · rw [ha]
    exact h.registered
  · rw [ha, hu]
    exact h.usdc
  · intro b t hbt
    rw [ha] at hbt
    rw [hn]
    by_cases hab : b = a
    · subst hab
      obtain rfl : token = t := Option.some.inj (ht.symm.trans hbt)
      simpa using ⟨h0, hle⟩
    · have htt : t ≠ token := by
        rintro rfl
        exact hab (h.token_inj hbt ht)
      rw [Function.update_of_ne hab, hb t htt]
      exact h.supply b t hbt
  · intro t
    by_cases htt : t = token
    · subst htt
      exact h0.trans hle
    · rw [hb t htt]
      exact h.balance t

/-- A payment out of what the supply leaves. -/
theorem Reserved.pay (h : Reserved E s) {a : Bytes32} {token u : Address} {amount : ℤ}
    (ht : s.assetToken a = some token)
    (hcov : u = E.pool ∨ s.noteSupply a + amount ≤ s.poolBalance E token) :
    Reserved E { s with balance := s.moveTokens E token u amount } := by
  have hmove : ∀ t, (State.poolBalance E t { s with balance := s.moveTokens E token u amount }) =
      if t = token ∧ u ≠ E.pool then s.poolBalance E t - amount else s.poolBalance E t :=
    fun t => s.moveTokens_pool E token t u amount
  obtain ⟨h0, hle⟩ := h.supply a token ht
  refine ⟨h.registered, h.usdc, fun b t hbt => ?_, fun t => ?_⟩
  · obtain ⟨hb0, hble⟩ := h.supply b t hbt
    rw [hmove]
    split
    · next hcase =>
      obtain ⟨rfl, hu⟩ := hcase
      obtain rfl := h.token_inj hbt ht
      rcases hcov with hcov | hcov
      · exact absurd hcov hu
      · exact ⟨hb0, show s.noteSupply b ≤ _ by omega⟩
    · exact ⟨hb0, hble⟩
  · rw [hmove]
    split
    · next hcase =>
      obtain ⟨rfl, hu⟩ := hcase
      rcases hcov with hcov | hcov
      · exact absurd hcov hu
      · omega
    · exact h.balance t

/-- A configuration call touches no supply and no balance. -/
theorem Reserved.admin (h : Reserved E s) {auth : Address → Bool} {c : AdminCall}
    (hc : c.invoke auth s = .ok s') : Reserved E s' := by
  have hf := AdminCall.invoke_frame hc
  refine h.congr hf.assetToken hf.usdc hf.noteSupply fun token => ?_
  rw [State.poolBalance, State.poolBalance, hf.balance]

/-- A newly registered asset has no notes. -/
theorem Reserved.register (h : Reserved E s) {auth : Address → Bool} {id : Bytes32} {token : Address}
    (hreg : (Call.registerAsset id token).Registers E s.usdc)
    (hc : s.registerAsset auth id token = .ok s') : Reserved E s' := by
  obtain ⟨hid, hcol⟩ := hreg
  simp only [State.registerAsset, bind_eq_ok, require_eq_ok, exists_unit, pure_eq_ok] at hc
  obtain ⟨-, hnone, rfl⟩ := hc
  refine ⟨fun a t ht => ?_, fun t ht => ?_, fun a t ht => ?_, h.balance⟩
  · by_cases ha : a = id
    · subst ha
      obtain rfl : token = t := by simpa using ht
      exact hid
    · exact h.registered a t (by simpa [ha] using ht)
  · by_cases ha : E.recipientHash s.usdc = id
    · obtain rfl : token = t := by simpa [ha] using ht
      exact hcol (hid.symm.trans ha.symm)
    · exact h.usdc t (by simpa [ha] using ht)
  · by_cases ha : a = id
    · subst ha
      have hzero : Function.update s.noteSupply a 0 a = 0 := Function.update_self ..
      exact ⟨hzero.ge, hzero.le.trans (h.balance t)⟩
    · have hsame : Function.update s.noteSupply id 0 a = s.noteSupply a := Function.update_of_ne ha ..
      obtain ⟨h0, hle⟩ := h.supply a t (by simpa [ha] using ht)
      exact ⟨h0.trans hsame.ge, hsame.le.trans hle⟩

/-- **The step lemma.** -/
theorem Reserved.invoke (h : Reserved E s) {auth : Address → Bool} {call : Call}
    (hreg : call.Registers E s.usdc) (hcov : call.Covered E s)
    (hc : call.invoke E auth s = .ok s') : Reserved E s' := by
  cases call with
  | receiveCctpDeposit d n a amt c r enc pol proof pub =>
      simp only [Call.invoke, bind_eq_ok, Prod.exists, pure_eq_ok] at hc
      obtain ⟨i, _, hc, rfl⟩ := hc
      obtain ⟨signals, v, op, src, dst, a6, a7, p, hc⟩ := State.receiveCctpDeposit_inv hc
      obtain ⟨c', -, -, -, -, -, -, hc⟩ := hc
      obtain ⟨-, -, -, -, -, -, -, hc⟩ := hc
      obtain ⟨-, -, -, -, -, -, -, hc⟩ := hc
      obtain ⟨-, -, -, ⟨token, ht, h0, hle⟩, -, rfl⟩ := hc
      exact h.adjust ht rfl rfl rfl h0 hle fun _ _ => rfl
  | withdraw a proof pub =>
      obtain ⟨signals, nh, value, fee, asset, token, hf, hc⟩ := State.withdraw_inv hc
      obtain ⟨-, -, -, -, -, -, -, hc⟩ := hc
      obtain ⟨ht, -, h0, hle, rfl⟩ := hc
      refine h.adjust ht rfl rfl rfl h0 hle fun t hne => ?_
      exact (s.moveTokens_pool E token t a _).trans (if_neg fun hcase => hne hcase.1)
  | withdrawCctp a proof pub d r fee fin =>
      simp only [Call.invoke, bind_eq_ok, Prod.exists, pure_eq_ok] at hc
      obtain ⟨out, _, hc, rfl⟩ := hc
      obtain ⟨signals, nh, value, fee', fin', token, hf, hc⟩ := State.withdrawCctp_inv hc
      obtain ⟨-, -, -, -, -, -, -, hc⟩ := hc
      obtain ⟨-, -, ht, -, h0, hle, -, rfl⟩ := hc
      refine h.adjust ht rfl rfl rfl h0 hle fun t hne => ?_
      have htu : t ≠ s.usdc := h.usdc token ht ▸ hne
      simp [State.poolBalance, htu]
  | rfqSettle a proof pub q i f pk sig => exact absurd hcov id
  | rfqSettleAtomicSwap u v proof pub q i f o qo mo ps pk sig =>
      obtain ⟨signals, nh, value, fee, asset, outToken, inToken, hc⟩ :=
        State.rfqSettleAtomicSwap_inv hc
      obtain ⟨hf, -, -, -, -, -, -, hc⟩ := hc
      obtain ⟨-, -, -, hne, hout, hin, -, hc⟩ := hc
      obtain ⟨h0, hle, rfl⟩ := hc
      -- first the output asset leaves, then the input note
      have hmid := @Reserved.pay E s h o outToken u qo hout
        (hcov.imp_right fun hall => hall outToken hout)
      refine hmid.adjust hin rfl rfl rfl h0 (hle _ rfl) fun t hne => ?_
      exact (State.moveTokens_pool E _ inToken t v _).trans (if_neg fun hcase => hne hcase.1)
  | privateTransferSettle proof pub r =>
      obtain ⟨signals, nh, out, w, p, c, hc⟩ := State.privateTransferSettle_inv hc
      obtain ⟨-, -, -, -, -, -, -, hc⟩ := hc
      obtain ⟨-, -, -, -, -, rfl⟩ := hc
      exact h.congr rfl rfl rfl fun _ => le_rfl
  | mpcSettle na nb oa ob r b pks sigs proof pub =>
      obtain ⟨sb, signals, hf, -, rfl⟩ := State.mpcSettle_inv hc
      exact h.congr rfl rfl rfl fun _ => le_rfl
  | mpcSettlePriced na nb oa ob r b pks sigs proof pub =>
      obtain ⟨sb, signals, hf, -, rfl⟩ := State.mpcSettlePriced_inv hc
      exact h.congr rfl rfl rfl fun _ => le_rfl
  | registerAsset id token => exact h.register hreg hc
  | registrySpend x n =>
      simp only [Call.invoke, State.registrySpend, bind_eq_ok, exists_unit, pure_eq_ok] at hc
      obtain ⟨-, -, _, -, rfl⟩ := hc
      exact h.congr rfl rfl rfl fun _ => le_rfl
  | admin c => exact h.admin hc

/-! ## Exits -/

/-- The token of a payment. -/
def Payment.token : Payment → Address
  | .transfer token _ _ => token
  | .burn token _ _ _ _ _ => token

/-- The amount of a payment. -/
def Payment.amount : Payment → ℤ
  | .transfer _ _ amount => amount
  | .burn _ amount _ _ _ _ => amount

/-- The relayer fee of the signals. -/
def relayerFee (signals : List Bytes32) : ℤ := ((signals[4]?).map fr32ToI128).getD 0

/-- A note of the asset and the value of the signals leaves the supply, and its value less the fee is
paid in the asset's token. -/
def Redeemed (pre post : State) (pub : List UInt8) (fee : List Bytes32 → ℤ) : Prop :=
  ∃ signals value asset token p, parsePublicSignals pub = .ok signals ∧ signals[2]? = some value ∧
    signals[17]? = some asset ∧ pre.assetToken asset = some token ∧
    post.noteSupply = Function.update pre.noteSupply asset
      (pre.noteSupply asset - fr32ToI128 value) ∧
    p ∈ post.payments.drop pre.payments.length ∧ p.token = token ∧
    p.amount = fr32ToI128 value - fee signals

/-- What each exit owes. `withdraw_cctp` and `rfq_settle` credit the whole value. -/
def Call.Redeemed (pre post : State) : Call → Prop
  | .withdraw _ _ pub => Stellar.Redeemed pre post pub relayerFee
  | .withdrawCctp _ _ pub _ _ _ _ => Stellar.Redeemed pre post pub fun _ => 0
  | .rfqSettle _ _ pub _ _ _ _ _ => Stellar.Redeemed pre post pub fun _ => 0
  | .rfqSettleAtomicSwap _ _ _ pub _ _ _ _ _ _ _ _ _ => Stellar.Redeemed pre post pub relayerFee
  | _ => True

/-- An exit that is covered redeems its note. -/
theorem Reserved.redeemed (h : Reserved E s) {auth : Address → Bool} {call : Call}
    (hcov : call.Covered E s) (hc : call.invoke E auth s = .ok s') : call.Redeemed s s' := by
  cases call with
  | withdraw a proof pub =>
      obtain ⟨signals, nh, value, fee, asset, token, hf, hc⟩ := State.withdraw_inv hc
      obtain ⟨h2, -, h4, h17, -, -, -, hc⟩ := hc
      obtain ⟨ht, -, -, -, rfl⟩ := hc
      refine ⟨signals, value, asset, token, .transfer token a (fr32ToI128 value - fr32ToI128 fee),
        hf.parsed, h2, h17, ht, rfl, ?_, rfl, ?_⟩
      · simp
      · simp [Payment.amount, relayerFee, h4]
  | withdrawCctp a proof pub d r fee fin =>
      simp only [Call.invoke, bind_eq_ok, Prod.exists, pure_eq_ok] at hc
      obtain ⟨out, _, hc, rfl⟩ := hc
      obtain ⟨signals, nh, value, fee', fin', token, hf, hc⟩ := State.withdrawCctp_inv hc
      obtain ⟨h2, -, -, -, -, -, h17, hc⟩ := hc
      obtain ⟨-, -, ht, -, -, -, -, rfl⟩ := hc
      refine ⟨signals, value, _, token, .burn s.usdc (fr32ToI128 value) d r fee fin, hf.parsed, h2, h17,
        ht, rfl, ?_, (h.usdc token ht).symm, ?_⟩
      · simp
      · simp [Payment.amount]
  | rfqSettle a proof pub q i f pk sig => exact absurd hcov id
  | rfqSettleAtomicSwap u v proof pub q i f o qo mo ps pk sig =>
      obtain ⟨signals, nh, value, fee, asset, outToken, inToken, hc⟩ :=
        State.rfqSettleAtomicSwap_inv hc
      obtain ⟨hf, -, h2, h4, h17, -, -, hc⟩ := hc
      obtain ⟨-, -, -, -, -, hin, -, hc⟩ := hc
      obtain ⟨-, -, rfl⟩ := hc
      refine ⟨signals, value, asset, inToken,
        .transfer inToken v (fr32ToI128 value - fr32ToI128 fee), hf.parsed, h2, h17, hin, rfl, ?_,
        rfl, ?_⟩
      · simp
      · simp [Payment.amount, relayerFee, h4]
  | _ => exact trivial

/-! ## Runs -/

/-- The pool as its constructor leaves it; no balance is negative. -/
def Deployed (E : Env) (s : State) : Prop :=
  ∃ admin usdc verifier depth poolId chainId balance ledger,
    (∀ token, 0 ≤ balance token E.pool) ∧
      s = construct admin usdc verifier depth poolId chainId balance ledger

theorem Deployed.reserved (h : Deployed E s) : Reserved E s := by
  obtain ⟨admin, usdc, verifier, depth, poolId, chainId, balance, ledger, hbal, rfl⟩ := h
  refine ⟨fun a token ht => ?_, fun token ht => ?_, fun a token ht => ?_, hbal⟩
  · cases ht
  · cases ht
  · cases ht

/-- Tokens that arrive. -/
theorem Reserved.arrive (h : Reserved E s) (token holder : Address) (amount : ℕ) :
    Reserved E (Step.run E s (.arrive token holder amount)).1 := by
  refine h.congr rfl rfl rfl fun t => ?_
  by_cases ht : t = token
  · subst ht
    by_cases hh : E.pool = holder
    · simp [Step.run, State.poolBalance, hh]
    · simp [Step.run, State.poolBalance, hh]
  · simp [Step.run, State.poolBalance, ht]

/-- **Reserves over runs.** In a run from the deployment that registers assets under the hashes of
their tokens and whose calls are covered, every registered asset is backed in the state reached, and
every exit redeemed its note. -/
theorem reserves_run {s₀ : State} (hs : Deployed E s₀) (ts : List Step)
    (hreg : ∀ c ∈ (run E ts s₀).2, c.call.Registers E s₀.usdc)
    (hcov : ∀ c ∈ (run E ts s₀).2, c.call.Covered E c.pre) :
    (∀ a token, (run E ts s₀).1.assetToken a = some token →
      0 ≤ (run E ts s₀).1.noteSupply a ∧
        (run E ts s₀).1.noteSupply a ≤ (run E ts s₀).1.poolBalance E token) ∧
      ∀ c ∈ (run E ts s₀).2, c.call.Redeemed c.pre c.post := by
  -- the invariant is asked of runs whose calls so far meet the two conditions
  have hinv := @run_induct E s₀ (fun s is =>
    (∀ c ∈ is, c.call.Registers E s₀.usdc ∧ c.call.Covered E c.pre) →
      (s.usdc = s₀.usdc ∧ Reserved E s) ∧ ∀ c ∈ is, c.call.Redeemed c.pre c.post)
    (fun {s is auth call s'} ih hc hall => ?_) (fun {s is token holder amount} ih hall => ?_)
    (fun {s is} ih hall => ?_) ts [] (fun _ => ⟨⟨rfl, hs.reserved⟩, by simp⟩)
  · obtain ⟨⟨-, hR⟩, hred⟩ := hinv fun c hc => ⟨hreg c hc, hcov c hc⟩
    exact ⟨hR.supply, hred⟩
  · obtain ⟨⟨husdc, hR⟩, hred⟩ := ih fun c hmem => hall c (by simp [hmem])
    obtain ⟨hreg', hcov'⟩ := hall ⟨call, s, s'⟩ (by simp)
    refine ⟨⟨(Call.invoke_summary hc).usdc.trans husdc, hR.invoke (husdc ▸ hreg') hcov' hc⟩,
      fun c hmem => ?_⟩
    rcases List.mem_append.1 hmem with hmem | hmem
    · exact hred c hmem
    · obtain rfl := List.mem_singleton.1 hmem
      exact hR.redeemed hcov' hc
  · obtain ⟨⟨husdc, hR⟩, hred⟩ := ih hall
    exact ⟨⟨husdc, hR.arrive token holder amount⟩, hred⟩
  · obtain ⟨⟨husdc, hR⟩, hred⟩ := ih hall
    exact ⟨⟨husdc, hR.congr rfl rfl rfl fun _ => le_rfl⟩, hred⟩

/-- The setup registers USDC under its own hash. -/
theorem registers_setup (E : Env) (c : Call)
    (hc : c ∈ (run E (setup E) fresh).2.map Invocation.call) : c.Registers E (acct 1) := by
  rw [run_setup_calls] at hc
  simp only [List.mem_cons, List.not_mem_nil, or_false] at hc
  rcases hc with rfl | rfl | rfl | rfl | rfl | rfl
  · exact trivial
  · exact ⟨rfl, fun _ => rfl⟩
  · exact trivial
  · exact trivial
  · exact trivial
  · exact trivial

theorem covered_setup (E : Env) (s : State) (c : Call)
    (hc : c ∈ (run E (setup E) fresh).2.map Invocation.call) : c.Covered E s := by
  rw [run_setup_calls] at hc
  simp only [List.mem_cons, List.not_mem_nil, or_false] at hc
  rcases hc with rfl | rfl | rfl | rfl | rfl | rfl <;> exact trivial

theorem deployed_fresh (E : Env) : Deployed E fresh :=
  ⟨acct 0, acct 1, acct 0, 12, 0, 0, fun _ _ => 0, 0, fun _ => le_rfl, rfl⟩

/-- A deposit and a withdrawal: the asset is backed, and the withdrawal redeemed its note. -/
theorem reserves_run_withdrawal :
    ∃ ts, ((run sampleEnv ts fresh).2.map Invocation.call).length = 8 ∧
      (∀ a token, (run sampleEnv ts fresh).1.assetToken a = some token →
        0 ≤ (run sampleEnv ts fresh).1.noteSupply a ∧
          (run sampleEnv ts fresh).1.noteSupply a ≤
            (run sampleEnv ts fresh).1.poolBalance sampleEnv token) ∧
      ∀ c ∈ (run sampleEnv ts fresh).2, c.call.Redeemed c.pre c.post := by
  have hE : sampleEnv.Exact := exact_idealVerifier _
  obtain ⟨proof, proof', ts, is, hrun, his⟩ := @run_respend sampleEnv hE 0 (acct 5)
    [frToBytes ((usdcNote sampleEnv (100 : ℕ) 0).nullifierHash sampleEnv.poseidon
      (frFromBytes (word 0)) (frFromBytes (word 0)))] (by simp) (by simp) (by
      intro w hw
      obtain rfl := List.mem_singleton.1 hw
      exact frFromBytes_frToBytes _)
  have hcases : ∀ c ∈ (run sampleEnv ts fresh).2, c.call ∈ (run sampleEnv (setup sampleEnv) fresh).2.map
      Invocation.call ∨ c.call ∈ is.map Invocation.call := fun c hc => by
    rw [hrun] at hc
    exact (List.mem_append.1 hc).imp (List.mem_map_of_mem) (List.mem_map_of_mem)
  refine ⟨ts, ?_, reserves_run (deployed_fresh _) ts (fun c hc => ?_) fun c hc => ?_⟩
  · rw [hrun, List.map_append, run_setup_calls, his]
    rfl
  · rcases hcases c hc with hc | hc
    · exact registers_setup _ _ hc
    · rw [his] at hc
      rcases List.mem_pair.1 hc with h | h <;> rw [h] <;> exact trivial
  · rcases hcases c hc with hc | hc
    · exact covered_setup _ _ _ hc
    · rw [his] at hc
      rcases List.mem_pair.1 hc with h | h <;> rw [h] <;> exact trivial

/-- A deposit of 100 units and an RFQ settlement of 60: the supply of USDC is still 100, and the pool
holds 40. -/
theorem rfq_breaks_reserve :
    ∃ ts, (∀ c ∈ (run sampleEnv ts fresh).2, c.call.Registers sampleEnv (acct 1)) ∧
      (run sampleEnv ts fresh).1.assetToken (sampleEnv.recipientHash (acct 1)) = some (acct 1) ∧
      (run sampleEnv ts fresh).1.noteSupply (sampleEnv.recipientHash (acct 1)) = 100 ∧
      (run sampleEnv ts fresh).1.poolBalance sampleEnv (acct 1) = 40 := by
  have hE : sampleEnv.Exact := exact_idealVerifier _
  obtain ⟨proof, proof', ts, is, hrun, his⟩ :=
    @run_rfqCall sampleEnv hE 0 (acct 5) (.ofNat 64 0) rfl
  refine ⟨ts, fun c hc => ?_, ?_, ?_, ?_⟩
  · rw [hrun] at hc
    rcases List.mem_append.1 hc with hc | hc
    · exact registers_setup _ _ (List.mem_map_of_mem hc)
    · have hmem : c.call ∈ is.map Invocation.call := List.mem_map_of_mem hc
      rw [his] at hmem
      rcases List.mem_pair.1 hmem with h | h <;> rw [h] <;> exact trivial
  · rw [hrun]
    simp [rfqSettled, deposited, ready]
  · rw [hrun]
    simp [rfqSettled, deposited]
  · rw [hrun]
    refine (State.moveTokens_pool sampleEnv _ (acct 1) (acct 1) (acct 5) 60).trans ?_
    have hne : acct 5 ≠ sampleEnv.pool := by
      show acct 5 ≠ acct 2
      decide
    rw [if_pos ⟨rfl, hne⟩]
    simp [deposited, ready, State.poolBalance]

end ShadePay.Stellar
