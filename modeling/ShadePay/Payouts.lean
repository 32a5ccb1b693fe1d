import ShadePay.Evm.Payouts
import ShadePay.Stellar.Deposit

/-!
# Who is paid

Two calls from one state with the same proof, signals and solver signature, but any other arguments:
on both chains a withdrawal pays the account the proof names and a CCTP exit the recipient it names,
while an RFQ settlement pays whichever account its caller writes down (`payouts_bound_iff`).
-/

namespace ShadePay

/-! ## The Soroban pool -/

namespace Stellar

open Guard

/-- The account a call names as its recipient. -/
def Call.recipient : Call → Option Address
  | .withdraw a _ _ => some a
  | .withdrawCctp a _ _ _ _ _ _ => some a
  | .rfqSettle toSolver _ _ _ _ _ _ _ => some toSolver
  | _ => none

/-- A call is an RFQ settlement. -/
def Call.isRfq : Call → Bool
  | .rfqSettle .. => true
  | _ => false

/-- Two calls of one payout entry point with the same proof and signals, and for RFQ the same hashes,
solver key and signature. -/
inductive SameSignals : Call → Call → Prop
  | withdraw (a a' : Address) (proof pub : List UInt8) :
      SameSignals (.withdraw a proof pub) (.withdraw a' proof pub)
  | withdrawCctp (a a' : Address) (d d' : ℕ) (r r' : Bytes32) (fee fee' : ℤ) (fin fin' : ℕ)
      (proof pub : List UInt8) :
      SameSignals (.withdrawCctp a proof pub d r fee fin) (.withdrawCctp a' proof pub d' r' fee' fin')
  | rfqSettle (a a' : Address) (proof pub : List UInt8) (q i f pk : Bytes32) (sig : BytesN 64) :
      SameSignals (.rfqSettle a proof pub q i f pk sig) (.rfqSettle a' proof pub q i f pk sig)

section
variable {E : Env} {s s₁ s₂ : State} {call call' : Call} {auth auth' : Address → Bool}

/-- **Payouts of the Soroban pool.** -/
theorem payments_eq_iff (hsame : SameSignals call call') (h₁ : call.invoke E auth s = .ok s₁)
    (h₂ : call'.invoke E auth' s = .ok s₂)
    (hcol : Set.InjOn E.recipientHash {a | a ∈ call.recipient ∨ a ∈ call'.recipient}) :
    s₁.payments = s₂.payments ↔ (call.isRfq = true → call.recipient = call'.recipient) := by
  cases hsame with
  | withdraw a a' proof pub =>
      obtain ⟨signals, nh, value, fee, asset, token, hf, h⟩ := State.withdraw_inv h₁
      obtain ⟨hvalue, hr, hfee, hasset, -, -, -, h⟩ := h
      obtain ⟨ht, -, -, -, rfl⟩ := h
      obtain ⟨signals', nh', value', fee', asset', token', hf', h⟩ := State.withdraw_inv h₂
      obtain ⟨hvalue', hr', hfee', hasset', -, -, -, h⟩ := h
      obtain ⟨ht', -, -, -, rfl⟩ := h
      obtain rfl : signals = signals' := Except.ok.inj (hf.parsed.symm.trans hf'.parsed)
      obtain rfl : value = value' := Option.some.inj (hvalue.symm.trans hvalue')
      obtain rfl : fee = fee' := Option.some.inj (hfee.symm.trans hfee')
      obtain rfl : asset = asset' := Option.some.inj (hasset.symm.trans hasset')
      obtain rfl : token = token' := Option.some.inj (ht.symm.trans ht')
      obtain rfl : a = a' := hcol (by simp [Call.recipient]) (by simp [Call.recipient])
        (Option.some.inj (hr.symm.trans hr'))
      simp
  | withdrawCctp a a' d d' r r' fee fee' fin fin' proof pub =>
      simp only [Call.invoke, bind_eq_ok, Prod.exists, pure_eq_ok] at h₁ h₂
      obtain ⟨o, _, h₁, rfl⟩ := h₁
      obtain ⟨o', _, h₂, rfl⟩ := h₂
      obtain ⟨signals, nh, value, f, n, token, hf, h⟩ := State.withdrawCctp_inv h₁
      obtain ⟨hvalue, hr, hfee, rfl, hfin, hn, -, h⟩ := h
      obtain ⟨rfl, -, -, -, -, -, -, rfl⟩ := h
      obtain ⟨signals', nh', value', f', n', token', hf', h⟩ := State.withdrawCctp_inv h₂
      obtain ⟨hvalue', hr', hfee', rfl, hfin', hn', -, h⟩ := h
      obtain ⟨rfl, -, -, -, -, -, -, rfl⟩ := h
      obtain rfl : signals = signals' := Except.ok.inj (hf.parsed.symm.trans hf'.parsed)
      obtain rfl : value = value' := Option.some.inj (hvalue.symm.trans hvalue')
      obtain rfl : r = r' := Option.some.inj (hr.symm.trans hr')
      obtain rfl : f = f' := Option.some.inj (hfee.symm.trans hfee')
      obtain rfl : n = n' := Option.some.inj (hfin.symm.trans hfin')
      obtain rfl : fin = fin' := by exact_mod_cast hn.symm.trans hn'
      simp [Call.isRfq]
  | rfqSettle a a' proof pub q i f pk sig =>
      obtain ⟨signals, nh, value, hf, hvalue, -, -, rfl⟩ := State.rfqSettle_inv h₁
      obtain ⟨signals', nh', value', hf', hvalue', -, -, rfl⟩ := State.rfqSettle_inv h₂
      obtain rfl : signals = signals' := Except.ok.inj (hf.parsed.symm.trans hf'.parsed)
      obtain rfl : value = value' := Option.some.inj (hvalue.symm.trans hvalue')
      simp [Call.isRfq, Call.recipient]

end

end Stellar

/-! ## Both pools -/

open Reentrancy in
/-- **Payouts are bound to the proof, except for RFQ.** Two calls of one payout entry point succeed from
one state with the same proof and signals, and for RFQ the same hashes, solver key and signature. They
pay the same exactly when they are not RFQ settlements or name the same account. The hash of accounts
has no collision between the two accounts named. -/
theorem payouts_bound_iff (E : Evm.Env) (F : Stellar.Env) :
    (∀ (e e' : Evm.Entry E) (is is' : List (List (Tx (Evm.Entry E) Evm.Action)))
      (K : List (Pending Evm.State (Evm.Entry E) Evm.Kont))
      (w w₁ w₂ : World Evm.State (Evm.Entry E) Evm.Kont),
      Evm.SameSignals e.call e'.call → call? (Evm.machine E) e is K w = some w₁ →
      call? (Evm.machine E) e' is' K w = some w₂ →
      Set.InjOn E.addressHash {a | a ∈ e.call.recipient ∨ a ∈ e'.call.recipient} →
      (Evm.lastPayouts w₁ = Evm.lastPayouts w₂ ↔
        (e.call.isRfq = true → e.call.recipient = e'.call.recipient))) ∧
    ∀ (call call' : Stellar.Call) (auth auth' : Stellar.Address → Bool)
      (s s₁ s₂ : Stellar.State),
      Stellar.SameSignals call call' → call.invoke F auth s = .ok s₁ →
      call'.invoke F auth' s = .ok s₂ →
      Set.InjOn F.recipientHash {a | a ∈ call.recipient ∨ a ∈ call'.recipient} →
      (s₁.payments = s₂.payments ↔ (call.isRfq = true → call.recipient = call'.recipient)) :=
  ⟨fun _ _ _ _ _ _ _ _ hsame h₁ h₂ hcol => Evm.lastPayouts_eq_iff hsame h₁ h₂ hcol,
    fun _ _ _ _ _ _ _ hsame h₁ h₂ hcol => Stellar.payments_eq_iff hsame h₁ h₂ hcol⟩

/-- A Soroban deployment whose account hash tells accounts apart. -/
noncomputable def hashEnv : Stellar.Env :=
  Stellar.idealEnv ⟨fun l => l.sum, fun b => Stellar.word (256 * Bytes.toNat b), fun _ _ _ => true,
    fun _ _ _ _ => false, Stellar.acct 2⟩

theorem recipientHash_hashEnv : Set.InjOn hashEnv.recipientHash
    {a | a ∈ some (Stellar.acct 5) ∨ a ∈ some (Stellar.acct 6)} := by
  have hne : hashEnv.recipientHash (Stellar.acct 5) ≠ hashEnv.recipientHash (Stellar.acct 6) := by
    change Stellar.hashToField (Stellar.word (256 * Bytes.toNat (Stellar.acct 5).bytes)) ≠
      Stellar.hashToField (Stellar.word (256 * Bytes.toNat (Stellar.acct 6).bytes))
    decide
  rintro a ha b hb hab
  simp only [Set.mem_ofPred_eq, Option.mem_def, Option.some.injEq] at ha hb
  rcases ha with rfl | rfl <;> rcases hb with rfl | rfl
  · rfl
  · exact absurd hab hne
  · exact absurd hab.symm hne
  · rfl

open Reentrancy in
/-- A withdrawal of the Arc pool submitted by two senders pays the same; an RFQ settlement of the
Soroban pool to the accounts 5 and 6 does not. -/
theorem payouts_bound_iff_two :
    (∃ w₁ w₂ : World Evm.State (Evm.Entry (Evm.sampleEnv Evm.withdrawal)) Evm.Kont,
      w₁.2.length = 2 ∧ w₂.2.length = 2 ∧ Evm.lastPayouts w₁ = Evm.lastPayouts w₂) ∧
    ∃ s₁ s₂ : Stellar.State, s₁.payments.length = 1 ∧ s₂.payments.length = 1 ∧
      s₁.payments ≠ s₂.payments := by
  constructor
  · let w := Evm.runFrom Evm.withdrawal [Evm.depositTx _ Evm.note₁ 1]
    let call := Evm.Call.withdraw 9 Evm.someProof
      (Evm.withdrawOf Evm.note₁ [Evm.leafOf Evm.note₁] [7] 1 60 9)
    let e : Evm.Entry (Evm.sampleEnv Evm.withdrawal) := ⟨10, call, by decide, by decide⟩
    let e' : Evm.Entry (Evm.sampleEnv Evm.withdrawal) := ⟨12, call, by decide, by decide⟩
    have hlen : (call? (Evm.machine _) e [[], []] [] w).map (·.2.length) = some 2 := by decide
    have hlen' : (call? (Evm.machine _) e' [[], []] [] w).map (·.2.length) = some 2 := by
      decide
    obtain ⟨w₁, h₁, hw₁⟩ := Option.map_eq_some_iff.1 hlen
    obtain ⟨w₂, h₂, hw₂⟩ := Option.map_eq_some_iff.1 hlen'
    refine ⟨w₁, w₂, hw₁, hw₂, ?_⟩
    refine ((payouts_bound_iff _ hashEnv).1 e e' _ _ _ _ _ _ (.withdraw _ _ _ _) h₁ h₂ ?_).2 nofun
    rintro a ha b hb -
    obtain rfl : a = 9 := by simpa [e, e', call, Evm.Call.recipient, eq_comm] using ha
    simpa [e, e', call, Evm.Call.recipient, eq_comm] using hb
  · obtain ⟨proof, hok⟩ := @Stellar.invoke_rfqCall hashEnv (Stellar.exact_idealVerifier _) 0
      (.ofNat 64 0) rfl
    set n := Stellar.usdcNote hashEnv (100 : ℕ) 0
    have h₁ := hok (fun _ => true) (Stellar.acct 5)
    have h₂ := hok (fun _ => true) (Stellar.acct 6)
    refine ⟨Stellar.rfqSettled hashEnv n (Stellar.acct 5), Stellar.rfqSettled hashEnv n (Stellar.acct 6),
      rfl, rfl, fun he => ?_⟩
    have hsame := ((payouts_bound_iff (Evm.sampleEnv Evm.withdrawal) hashEnv).2 _ _ _ _ _ _ _
      (.rfqSettle _ _ _ _ _ _ _ _ _) h₁ h₂ recipientHash_hashEnv).1 he rfl
    have hacct : Stellar.acct 5 = Stellar.acct 6 := Option.some.inj hsame
    exact absurd hacct (by decide)

open Reentrancy in
/-- One RFQ settlement of the Soroban pool, with one proof and one signature, pays account 5 or
account 6, as its caller likes. -/
theorem rfq_payout_redirected :
    ¬ ((∀ (E : Evm.Env) (e e' : Evm.Entry E) (is is' : List (List (Tx (Evm.Entry E) Evm.Action)))
      (K : List (Pending Evm.State (Evm.Entry E) Evm.Kont))
      (w w₁ w₂ : World Evm.State (Evm.Entry E) Evm.Kont),
      Evm.SameSignals e.call e'.call → call? (Evm.machine E) e is K w = some w₁ →
      call? (Evm.machine E) e' is' K w = some w₂ →
      Set.InjOn E.addressHash {a | a ∈ e.call.recipient ∨ a ∈ e'.call.recipient} →
      Evm.lastPayouts w₁ = Evm.lastPayouts w₂) ∧
    ∀ (E : Stellar.Env) (call call' : Stellar.Call) (auth auth' : Stellar.Address → Bool)
      (s s₁ s₂ : Stellar.State),
      Stellar.SameSignals call call' → call.invoke E auth s = .ok s₁ →
      call'.invoke E auth' s = .ok s₂ →
      Set.InjOn E.recipientHash {a | a ∈ call.recipient ∨ a ∈ call'.recipient} →
      s₁.payments = s₂.payments) := by
  rintro ⟨-, hall⟩
  obtain ⟨proof, hok⟩ := @Stellar.invoke_rfqCall hashEnv (Stellar.exact_idealVerifier _) 0
    (.ofNat 64 0) rfl
  have hpaid := hall hashEnv _ _ _ _ _ _ _ (.rfqSettle _ _ _ _ _ _ _ _ _)
    (hok (fun _ => true) (Stellar.acct 5)) (hok (fun _ => true) (Stellar.acct 6)) recipientHash_hashEnv
  simp only [Stellar.rfqSettled, List.cons.injEq, Stellar.Payment.transfer.injEq] at hpaid
  exact absurd hpaid.1.2.1 (by decide)

end ShadePay
