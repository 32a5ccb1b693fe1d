import ShadePay.Stellar.Deposit

/-!
# Terms of the atomic swap

The proof of a note owner binds the quote hash of a swap, through the word `hash_to_field` makes of it;
the output asset, the amount and the recipient stand in the terms a solver signs together with a quote
hash. `swapTerms_injective` says that the signed string determines them, and
`swap_delivers_signed_terms` what two swaps with the same proof have in common: the quote word and the
price rule under any signature, and everything that is delivered under the same one. An authorized
solver that signs twice for one quote delivers twice what it likes (`swap_under_other_terms`).
-/

namespace ShadePay.Stellar

open Guard

/-! ## The signed string -/

@[simp] theorem length_i128Bytes (x : ℤ) : (i128Bytes x).length = 16 := Bytes.length_ofNat _ _

/-- An `i128` can be read back. -/
theorem i128Bytes_injOn {x y : ℤ} (hx : -2 ^ 127 ≤ x ∧ x < 2 ^ 127) (hy : -2 ^ 127 ≤ y ∧ y < 2 ^ 127)
    (h : i128Bytes x = i128Bytes y) : x = y := by
  have hnat := congrArg Bytes.toNat h
  rw [i128Bytes, i128Bytes, Bytes.toNat_ofNat, Bytes.toNat_ofNat] at hnat
  omega

/-- The string falls apart into its fields. -/
theorem swapTerms_fields {q o r q' o' r' : Bytes32} {qo mo ps qo' mo' ps' : ℤ}
    (h : State.swapTerms q o qo mo ps r = State.swapTerms q' o' qo' mo' ps' r') :
    q = q' ∧ o = o' ∧ i128Bytes qo = i128Bytes qo' ∧ i128Bytes mo = i128Bytes mo' ∧
      i128Bytes ps = i128Bytes ps' ∧ r = r' := by
  simp only [State.swapTerms] at h
  obtain ⟨h, hr⟩ := List.append_inj' h (by simp [BytesN.length_eq])
  obtain ⟨h, hps⟩ := List.append_inj' h (by simp)
  obtain ⟨h, hmo⟩ := List.append_inj' h (by simp)
  obtain ⟨h, hqo⟩ := List.append_inj' h (by simp)
  obtain ⟨hq, ho⟩ := List.append_inj' h (by simp [BytesN.length_eq])
  exact ⟨BytesN.ext hq, BytesN.ext ho, hqo, hmo, hps, BytesN.ext hr⟩

/-- **The signed terms.** The string determines the quote, the asset, the output and the recipient. -/
theorem swapTerms_injective {q o r q' o' r' : Bytes32} {qo mo ps qo' mo' ps' : ℤ} (hqo : 0 ≤ qo)
    (hqo' : qo < 2 ^ 127) (hqo₂ : 0 ≤ qo') (hqo₂' : qo' < 2 ^ 127)
    (h : State.swapTerms q o qo mo ps r = State.swapTerms q' o' qo' mo' ps' r') :
    q = q' ∧ o = o' ∧ qo = qo' ∧ r = r' := by
  obtain ⟨hq, ho, hout, -, -, hr⟩ := swapTerms_fields h
  exact ⟨hq, ho, i128Bytes_injOn ⟨by omega, hqo'⟩ ⟨by omega, hqo₂'⟩ hout, hr⟩

/-! ## What a swap delivers -/

section
variable {E : Env} {s s' : State}

/-- The terms of a successful swap: an authorized solver signed them, the quote is the one of the
proof, and the output follows from the price. -/
structure SwapSigned (E : Env) (s : State) (pub : List UInt8) (u : Address) (q o : Bytes32)
    (qo mo ps : ℤ) (pk : Bytes32) (sig : BytesN 64) (value : Bytes32) : Prop where
  authorized : s.solver pk = true
  signed : E.ed25519 pk (E.sha256 (State.swapTerms q o qo mo ps (E.recipientHash u))).bytes sig = true
  quote : ∃ signals, parsePublicSignals pub = .ok signals ∧ signals[10]? = some (hashToField q) ∧
    signals[2]? = some value
  price : qo = fr32ToI128 value * ps / 1000000000
  minimum : mo ≤ qo
  positive : 0 < qo
  bounded : qo < 2 ^ 127

theorem State.rfqSettleAtomicSwap_signed {u v : Address} {proof pub : List UInt8}
    {q i f o pk : Bytes32} {qo mo ps : ℤ} {sig : BytesN 64}
    (h : s.rfqSettleAtomicSwap E u v proof pub q i f o qo mo ps pk sig = .ok s') :
    ∃ value outToken, SwapSigned E s pub u q o qo mo ps pk sig value ∧
      s.assetToken o = some outToken ∧
      s'.payments[s.payments.length]? = some (.transfer outToken u qo) := by
  obtain ⟨signals, nh, value, fee, asset, outToken, inToken, hf, hsig, h2, h4, h17, h10, hqo, hv, hf0,
    hle, hne, hout, hin, hbal, hn0, hres, hs'⟩ := State.rfqSettleAtomicSwap_inv h
  simp only [State.rfqSettleAtomicSwap, State.requireNotPaused, State.requireNotExpired, bind_eq_ok,
    require_eq_ok, exists_unit, getSignal_eq_ok] at h
  obtain ⟨-, hsolver, ⟨-, -, hmo, hps⟩, -, signals', hp, _, -, h⟩ := h
  obtain ⟨_, -, value', h2', _, -, _, -, h⟩ := h
  obtain ⟨_, -, _, -, -, -, -, hmul, hprice, -⟩ := h
  obtain rfl : signals = signals' := Except.ok.inj (hf.parsed.symm.trans hp)
  obtain rfl : value = value' := Option.some.inj (h2.symm.trans h2')
  refine ⟨value, outToken, ⟨hsolver, hsig, ⟨signals, hp, h10, h2⟩, hprice, hmo, hqo, ?_⟩, hout, ?_⟩
  · have hdiv : fr32ToI128 value * ps / 1000000000 ≤ fr32ToI128 value * ps :=
      Int.ediv_le_self _ (mul_nonneg hv.le hps.le)
    omega
  · subst hs'
    simp

/-- **The delivery of a swap.** Two swaps that succeed from one state with the same proof and signals
carry quotes with the same word, under terms that authorized solvers signed and the price rule of the
same withdrawn value. Under the same key and signature, one that verifies over one message, and hashes
without a collision here, they deliver the same asset, the same amount and to the same recipient. -/
theorem swap_delivers_signed_terms {s₁ s₂ : State} {u₁ v₁ u₂ v₂ : Address} {proof pub : List UInt8}
    {q₁ i₁ f₁ o₁ pk₁ q₂ i₂ f₂ o₂ pk₂ : Bytes32} {qo₁ mo₁ ps₁ qo₂ mo₂ ps₂ : ℤ} {sig₁ sig₂ : BytesN 64}
    (h₁ : s.rfqSettleAtomicSwap E u₁ v₁ proof pub q₁ i₁ f₁ o₁ qo₁ mo₁ ps₁ pk₁ sig₁ = .ok s₁)
    (h₂ : s.rfqSettleAtomicSwap E u₂ v₂ proof pub q₂ i₂ f₂ o₂ qo₂ mo₂ ps₂ pk₂ sig₂ = .ok s₂) :
    (∃ value, SwapSigned E s pub u₁ q₁ o₁ qo₁ mo₁ ps₁ pk₁ sig₁ value ∧
      SwapSigned E s pub u₂ q₂ o₂ qo₂ mo₂ ps₂ pk₂ sig₂ value ∧ hashToField q₁ = hashToField q₂) ∧
    (pk₁ = pk₂ → sig₁ = sig₂ →
      (∀ m m', E.ed25519 pk₁ m sig₁ = true → E.ed25519 pk₁ m' sig₁ = true → m = m') →
      Set.InjOn E.sha256 {State.swapTerms q₁ o₁ qo₁ mo₁ ps₁ (E.recipientHash u₁),
        State.swapTerms q₂ o₂ qo₂ mo₂ ps₂ (E.recipientHash u₂)} →
      Set.InjOn E.recipientHash {u₁, u₂} →
      o₁ = o₂ ∧ qo₁ = qo₂ ∧ u₁ = u₂ ∧
        s₁.payments[s.payments.length]? = s₂.payments[s.payments.length]?) := by
  obtain ⟨value, t₁, hs₁, ht₁, hpay₁⟩ := State.rfqSettleAtomicSwap_signed h₁
  obtain ⟨value', t₂, hs₂, ht₂, hpay₂⟩ := State.rfqSettleAtomicSwap_signed h₂
  obtain ⟨signals, hp, hq₁, hv₁⟩ := hs₁.quote
  obtain ⟨signals', hp', hq₂, hv₂⟩ := hs₂.quote
  obtain rfl : signals = signals' := Except.ok.inj (hp.symm.trans hp')
  obtain rfl : value = value' := Option.some.inj (hv₁.symm.trans hv₂)
  refine ⟨⟨value, hs₁, hs₂, Option.some.inj (hq₁.symm.trans hq₂)⟩, ?_⟩
  rintro rfl rfl hmsg hsha hrec
  have hterms := hsha (by simp) (by simp) (BytesN.ext (hmsg _ _ hs₁.signed hs₂.signed))
  obtain ⟨-, rfl, rfl, hr⟩ := swapTerms_injective hs₁.positive.le hs₁.bounded hs₂.positive.le
    hs₂.bounded hterms
  obtain rfl := hrec (by simp) (by simp) hr
  obtain rfl : t₁ = t₂ := Option.some.inj (ht₁.symm.trans ht₂)
  exact ⟨rfl, rfl, rfl, hpay₁.trans hpay₂.symm⟩

/-- When `rfq_settle_atomic_swap` succeeds on an encoded signal record without a fee. -/
theorem State.rfqSettleAtomicSwap_intro {proof : List UInt8} {x : WithdrawPub Bytes32}
    {u v outToken inToken : Address} {q i f o pk : Bytes32} {qo mo ps : ℤ} {sig : BytesN 64}
    (h : Spendable E s proof x) (hsolver : s.solver pk = true)
    (hout : 0 < qo ∧ 0 < mo ∧ mo ≤ qo ∧ 0 < ps)
    (hsig : E.ed25519 pk (E.sha256 (swapTerms q o qo mo ps (E.recipientHash u))).bytes sig = true)
    (hop : fr32ToI128 x.operationType = 5) (hmul : fr32ToI128 x.withdrawnValue * ps < 2 ^ 127)
    (hprice : qo = fr32ToI128 x.withdrawnValue * ps / 1000000000) (hne : o ≠ x.assetId)
    (hq : hashToField q = x.quoteHash) (hi : hashToField i = x.intentHash)
    (hf : hashToField f = x.fillReceiptHash) (hot : s.assetToken o = some outToken)
    (hit : s.assetToken x.assetId = some inToken) (hobal : qo ≤ s.poolBalance E outToken)
    (hibal : fr32ToI128 x.withdrawnValue - fr32ToI128 x.relayerFee ≤
      s.moveTokens E outToken u qo inToken E.pool)
    (hsup : 0 ≤ s.noteSupply x.assetId - fr32ToI128 x.withdrawnValue)
    (hsup' : s.noteSupply x.assetId - fr32ToI128 x.withdrawnValue < 2 ^ 127)
    (hres : s.noteSupply x.assetId - fr32ToI128 x.withdrawnValue ≤
      State.moveTokens E inToken v (fr32ToI128 x.withdrawnValue - fr32ToI128 x.relayerFee)
        { s with balance := s.moveTokens E outToken u qo } inToken E.pool) :
    s.rfqSettleAtomicSwap E u v proof (encodeSignals x.toList) q i f o qo mo ps pk sig = .ok { s with
      registry := s.registry.mark x.nullifierHash
      balance := State.moveTokens E inToken v
        (fr32ToI128 x.withdrawnValue - fr32ToI128 x.relayerFee)
        { s with balance := s.moveTokens E outToken u qo }
      payments := s.payments ++ [.transfer outToken u qo] ++
        [.transfer inToken v (fr32ToI128 x.withdrawnValue - fr32ToI128 x.relayerFee)]
      noteSupply := Function.update s.noteSupply x.assetId
        (s.noteSupply x.assetId - fr32ToI128 x.withdrawnValue)
      events := s.events ++ [.rfqswap q u v x.nullifierHash qo
        (fr32ToI128 x.withdrawnValue - fr32ToI128 x.relayerFee)] } := by
  have hnet : 0 ≤ fr32ToI128 x.withdrawnValue - fr32ToI128 x.relayerFee := sub_nonneg.2 h.fee_le
  simp only [State.rfqSettleAtomicSwap, State.requireNotPaused, State.requireNotExpired,
    State.requireKnownRoot, State.checkDomainCompliance, bind_eq_ok, require_eq_ok, exists_unit,
    getSignal_eq_ok, State.requireVerified_eq_ok, State.spend_eq_ok, State.getAssetToken_eq_ok,
    State.pay_eq_ok, State.adjustNoteSupply_eq_ok, pure_eq_ok, ← sub_eq_add_neg]
  refine ⟨h.paused, hsolver, hout, hsig, _, parse_withdrawWords x, _, rfl, _, rfl, _, rfl, _, rfl,
    _, rfl, ?_⟩
  refine ⟨_, rfl, _, rfl, hop, ⟨h.value, h.fee, h.fee_le⟩, h.deadline, hmul, hprice, hne, ?_⟩
  refine ⟨_, rfl, hq, _, rfl, hi, _, rfl, hf, ?_⟩
  refine ⟨⟨_, rfl, _, rfl, _, rfl, ⟨h.pool, h.chain⟩, h.association⟩, h.root, h.verified, ?_⟩
  exact ⟨_, ⟨⟨h.registry, h.authorized, h.fresh⟩, rfl⟩, outToken, hot, _, ⟨⟨hobal, hout.1.le⟩, rfl⟩,
    inToken, hit, _, ⟨⟨hibal, hnet⟩, rfl⟩, _, ⟨inToken, hit, hsup', hsup, hres, rfl⟩, rfl⟩

end

/-! ## Sample swaps -/

/-- A hash that separates the strings of the samples. -/
def toyHash (b : List UInt8) : Bytes32 := word (Bytes.toNat b % (2 ^ 127 - 1) * 256)

/-- The terms of the samples: 60 units of input at the price `k`, for account 5 in the asset of
account 3. -/
def sampleTerms (k : ℕ) : List UInt8 :=
  State.swapTerms (word 0) (hashToField (toyHash (acct 3).bytes)) (60 * k) 1 (1000000000 * k)
    (hashToField (toyHash (acct 5).bytes))

/-- A deployment in which the solver of key zero has signed the sample terms at the prices `ks`, once
each. -/
noncomputable def swapEnv (ks : List ℕ) : Env :=
  idealEnv ⟨fun l => l.sum, toyHash, fun pk m sig => decide (∃ k ∈ ks,
    pk = word 0 ∧ m = (toyHash (sampleTerms k)).bytes ∧ sig = .ofNat 64 k), fun _ _ _ _ => false,
    acct 2⟩

/-- The pool with a deposit of 100 units, a second asset and 500 units of it. -/
def swapReady (E : Env) (n : Note Bls12381) : State :=
  { deposited E (leafOf E n) with
    assetToken := Function.update (deposited E (leafOf E n)).assetToken (E.recipientHash (acct 3))
      (some (acct 3))
    noteSupply := Function.update (deposited E (leafOf E n)).noteSupply (E.recipientHash (acct 3)) 0
    balance := Function.update (deposited E (leafOf E n)).balance (acct 3)
      (Function.update ((deposited E (leafOf E n)).balance (acct 3)) E.pool 500)
    events := (deposited E (leafOf E n)).events ++ [.regasset (E.recipientHash (acct 3)) (acct 3)] }

theorem acct_ne {m n : ℕ} (hm : m < 256) (hn : n < 256) (h : m ≠ n) : acct m ≠ acct n := by
  intro he
  have := congrArg BytesN.toNat he
  rw [acct, acct, BytesN.toNat_ofNat (by omega), BytesN.toNat_ofNat (by omega)] at this
  exact h this

/-- A sample swap goes through at every price the solver signed. -/
theorem swap_sample (ks : List ℕ) : ∃ proof pub, ∀ k ∈ ks, 0 < k → k ≤ 8 → ∀ v,
    ∃ s', (swapReady (swapEnv ks) (usdcNote (swapEnv ks) (100 : ℕ) 0)).rfqSettleAtomicSwap (swapEnv ks)
      (acct 5) v proof pub (word 0) (word 0) (word 0) ((swapEnv ks).recipientHash (acct 3)) (60 * k) 1
      (1000000000 * k) (word 0) (.ofNat 64 k) = .ok s' := by
  have hE : (swapEnv ks).Exact := exact_idealVerifier _
  set E := swapEnv ks
  set n := usdcNote E (100 : ℕ) 0
  obtain ⟨proof, hsp⟩ := @spendable_deposited E hE 5 100 60 0 (word 0) (by norm_num) (by norm_num)
    (by norm_num)
  have hspend := hsp _ (frFromBytes_frToBytes _)
  have h60 : fr32ToI128 (word 60) = 60 := fr32ToI128_word (by norm_num)
  have h0 : fr32ToI128 (word 0) = 0 := fr32ToI128_word (by norm_num)
  have hassets : E.recipientHash (acct 3) ≠ E.recipientHash (acct 1) := by
    show hashToField (toyHash (acct 3).bytes) ≠ hashToField (toyHash (acct 1).bytes)
    decide
  have h13 : acct 1 ≠ acct 3 := acct_ne (by norm_num) (by norm_num) (by norm_num)
  have hpool1 : (swapReady E n).poolBalance E (acct 1) = 100 := by
    simp [swapReady, State.poolBalance, deposited, ready, h13]
  have hpool3 : (swapReady E n).poolBalance E (acct 3) = 500 := by
    simp [swapReady, State.poolBalance]
  have hsupply : (swapReady E n).noteSupply (E.recipientHash (acct 1)) = 100 := by
    simp [swapReady, deposited, hassets.symm]
  refine ⟨proof, _, fun k hk hpos hle v => ⟨_, @State.rfqSettleAtomicSwap_intro E (swapReady E n) proof
    _ (acct 5) v (acct 3) (acct 1) (word 0) (word 0) (word 0) _ (word 0) _ _ _ _
    ⟨hspend.paused, hspend.value, hspend.fee, hspend.fee_le, hspend.deadline, hspend.association,
      hspend.pool, hspend.chain, hspend.root, hspend.verified, hspend.registry, hspend.authorized,
      hspend.fresh⟩ rfl ⟨by omega, by norm_num, by omega, by omega⟩ ?_ ?_ ?_ ?_ ?_ rfl rfl rfl ?_ ?_ ?_ ?_
      ?_ ?_ ?_⟩⟩
  · exact decide_eq_true ⟨k, hk, rfl, rfl, rfl⟩
  · exact fr32ToI128_word (by norm_num)
  · simp only [spendWords, spendWordsAt, h60]
    omega
  · simp only [spendWords, spendWordsAt, h60]
    omega
  · exact hassets
  · simp [swapReady]
  · simp [swapReady, spendWords, spendWordsAt, deposited, ready, hassets.symm]
  · rw [hpool3]
    omega
  · rw [State.moveTokens_pool, if_neg fun hcase => h13 hcase.1, hpool1]
    simp [spendWords, spendWordsAt, h60, h0]
  · simp [spendWords, spendWordsAt, h60, hsupply]
  · simp [spendWords, spendWordsAt, h60, hsupply]
  · have hmid : State.poolBalance E (acct 1) { swapReady E n with
        balance := (swapReady E n).moveTokens E (acct 3) (acct 5) (60 * k) } = 100 := by
      refine ((swapReady E n).moveTokens_pool E (acct 3) (acct 1) (acct 5) (60 * k)).trans ?_
      rw [if_neg fun hcase => h13 hcase.1, hpool1]
    rw [State.moveTokens_pool, hmid]
    simp only [spendWords, spendWordsAt, h60, h0, hsupply]
    split <;> norm_num

/-- Two submissions of one signed swap, with the solver's payout to two accounts. -/
theorem swap_delivers_signed_terms_sample :
    ∃ s s₁ s₂ proof pub,
      State.rfqSettleAtomicSwap (swapEnv [1]) (acct 5) (acct 6) proof pub (word 0) (word 0) (word 0)
        ((swapEnv [1]).recipientHash (acct 3)) 60 1 1000000000 (word 0) (.ofNat 64 1) s = .ok s₁ ∧
      State.rfqSettleAtomicSwap (swapEnv [1]) (acct 5) (acct 7) proof pub (word 0) (word 0) (word 0)
        ((swapEnv [1]).recipientHash (acct 3)) 60 1 1000000000 (word 0) (.ofNat 64 1) s = .ok s₂ ∧
      s₁.payments[s.payments.length]? = s₂.payments[s.payments.length]? := by
  obtain ⟨proof, pub, hswap⟩ := swap_sample [1]
  obtain ⟨s₁, h₁⟩ := hswap 1 (by simp) (by norm_num) (by norm_num) (acct 6)
  obtain ⟨s₂, h₂⟩ := hswap 1 (by simp) (by norm_num) (by norm_num) (acct 7)
  have hmsg : ∀ m m', (swapEnv [1]).ed25519 (word 0) m (.ofNat 64 1) = true →
      (swapEnv [1]).ed25519 (word 0) m' (.ofNat 64 1) = true → m = m' := by
    intro m m' hm hm'
    obtain ⟨k, hk, -, hmk, -⟩ := of_decide_eq_true hm
    obtain ⟨k', hk', -, hmk', -⟩ := of_decide_eq_true hm'
    rw [hmk, hmk', List.mem_singleton.1 hk, List.mem_singleton.1 hk']
  refine ⟨_, s₁, s₂, proof, pub, h₁, h₂, ?_⟩
  exact ((swap_delivers_signed_terms h₁ h₂).2 rfl rfl hmsg (by simp) (by simp)).2.2.2

/-- An authorized solver that signs two prices for one quote: with the same proof and signals the owner
receives 60 units under the one signature and 120 under the other. -/
theorem swap_under_other_terms :
    ∃ s s₁ s₂ proof pub o,
      State.rfqSettleAtomicSwap (swapEnv [1, 2]) (acct 5) (acct 6) proof pub (word 0) (word 0) (word 0)
        o 60 1 1000000000 (word 0) (.ofNat 64 1) s = .ok s₁ ∧
      State.rfqSettleAtomicSwap (swapEnv [1, 2]) (acct 5) (acct 6) proof pub (word 0) (word 0) (word 0)
        o 120 1 2000000000 (word 0) (.ofNat 64 2) s = .ok s₂ ∧
      s₁.payments[s.payments.length]? ≠ s₂.payments[s.payments.length]? := by
  obtain ⟨proof, pub, hswap⟩ := swap_sample [1, 2]
  obtain ⟨s₁, h₁⟩ := hswap 1 (by simp) (by norm_num) (by norm_num) (acct 6)
  obtain ⟨s₂, h₂⟩ := hswap 2 (by simp) (by norm_num) (by norm_num) (acct 6)
  obtain ⟨-, t₁, -, -, hpay₁⟩ := State.rfqSettleAtomicSwap_signed h₁
  obtain ⟨-, t₂, -, -, hpay₂⟩ := State.rfqSettleAtomicSwap_signed h₂
  refine ⟨_, s₁, s₂, proof, pub, _, h₁, h₂, ?_⟩
  rw [hpay₁, hpay₂]
  simp

end ShadePay.Stellar
