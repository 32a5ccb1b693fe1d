import ShadePay.Evm.Scenario

/-!
# Payouts of the Arc pool

What has left the pool at the suspension points of a call (`Kont.payout`), and what a call pays in all:
`lastPayouts_of_call` reads it off the call and the state it entered, whatever happens while the call
is suspended. Two calls with the same signals are compared by it in `lastPayouts_eq_iff`.
-/

namespace ShadePay.Evm

open Reentrancy

/-! ## Payouts -/

/-- A payout of the pool. -/
inductive Payout where
  | transfer (token recipient : Address) (amount : ℕ)
  | burn (token : Address) (amount destinationDomain destinationRecipient maxFee
      minFinalityThreshold : ℕ)
deriving DecidableEq

/-- What has left the pool at a suspension point. -/
def Kont.payout : Kont → Option Payout
  | .transferred token recipient amount _ _ _ => some (.transfer token recipient amount)
  | .burning token _ domain burn => some (.burn token burn.amount domain burn.destinationRecipient
      burn.maxFee burn.minFinalityThreshold)
  | _ => none

/-- The payouts of the last finished call. -/
def lastPayouts {E : Env} (w : World State (Entry E) Kont) : List Payout :=
  (w.2.getLast?.map fun f => f.konts.filterMap Kont.payout).getD []

/-- What a call pays out of a state. -/
def Call.payouts (s : State) : Call → List Payout
  | .withdraw recipient _ pub => [.transfer (s.pool.assetToken pub.assetId) recipient
      (pub.withdrawnValue - pub.relayerFee)]
  | .rfqSettle toSolver _ _ _ _ _ _ pub => [.transfer (s.pool.assetToken pub.assetId) toSolver
      pub.withdrawnValue]
  | .withdrawCctp _ r fee fin _ pub => [.burn s.pool.usdcToken pub.withdrawnValue
      s.pool.cctpOutboundDomain r fee fin]
  | _ => []

/-- The account a call names as its recipient. -/
def Call.recipient : Call → Option Address
  | .withdraw recipient _ _ => some recipient
  | .rfqSettle toSolver _ _ _ _ _ _ _ => some toSolver
  | .withdrawCctp recipient _ _ _ _ _ => some recipient
  | _ => none

/-- A call is an RFQ settlement. -/
def Call.isRfq : Call → Bool
  | .rfqSettle .. => true
  | _ => false

/-- Two calls of one payout entry point with the same proof and signals, and for RFQ the same hashes,
solver key and signature. -/
inductive SameSignals : Call → Call → Prop
  | withdraw (a a' : Address) (proof : Groth16Proof) (pub : WithdrawPub ℕ) :
      SameSignals (.withdraw a proof pub) (.withdraw a' proof pub)
  | withdrawCctp (a a' : Address) (r r' fee fee' fin fin' : ℕ) (proof : Groth16Proof)
      (pub : WithdrawPub ℕ) :
      SameSignals (.withdrawCctp a r fee fin proof pub) (.withdrawCctp a' r' fee' fin' proof pub)
  | rfqSettle (a a' : Address) (q i f pk : ℕ) (sig : List UInt8) (proof : Groth16Proof)
      (pub : WithdrawPub ℕ) :
      SameSignals (.rfqSettle a q i f pk sig proof pub) (.rfqSettle a' q i f pk sig proof pub)

/-- The part of the configuration that a burn reads after an external call. -/
def SameCctp (s₀ s : State) : Prop :=
  s.pool.usdcToken = s₀.pool.usdcToken ∧ s.pool.tokenMessenger = s₀.pool.tokenMessenger ∧
    s.pool.cctpOutboundDomain = s₀.pool.cctpOutboundDomain

section
variable {E : Env} {e : Entry E} {is : List (List (Tx (Entry E) Action))}
  {K : List (Pending State (Entry E) Kont)} {w w' : World State (Entry E) Kont}

theorem SameCctp.config {s₀ s s' : State} (h : SameCctp s₀ s) (hc : SameConfig s s') :
    SameCctp s₀ s' := by
  rw [SameCctp, hc.pool]
  exact h

/-- The contracts are configured between transactions only. -/
theorem keptInside_sameCctp (s₀ : State) : KeptInside (machine E) (SameCctp s₀) where
  enter hs h := hs.config (runPrims_config (machine_enter h).2.1)
  resume {k s r} hs h := by
    refine SameCctp.config ?_ (runPrims_config (machine_resume h).1)
    cases k <;> exact hs
  act {K a s s'} hK hs h := by
    rcases act_inv h with ⟨b, al, n, rfl, -⟩ | ⟨hnil, -⟩
    · exact hs
    · exact absurd hnil hK

/-- The payouts along the suspension points of a call. -/
theorem payouts_of_konts {s : State} {call : Call} {k : Kont} {ks : List Kont}
    (hk : call.kont s = some k) (h : KontsIn (machine E) (SameCctp s) k ks) :
    ks.filterMap Kont.payout = call.payouts s := by
  cases h with
  | last hs hr =>
      have hnext := (machine_resume hr).2.1
      cases call <;> cases hk <;> cases hnext
  | more hs hr hks =>
      have hnext := (machine_resume hr).2.1
      -- the second suspension point is the last
      cases hks with
      | last _ hr' =>
          cases call <;> cases hk <;> cases hnext
          · rfl
          · rfl
          · simp only [List.filterMap_cons, Kont.payout, List.filterMap_nil, Call.payouts, hs.1,
              hs.2.2]
      | more _ hr' _ =>
          have hnext' := (machine_resume hr').2.1
          cases call <;> cases hk <;> cases hnext <;> cases hnext'

/-- **What a successful call pays**, whatever happens while it is suspended. -/
theorem lastPayouts_of_call (h : call? (machine E) e is K w = some w') :
    lastPayouts w' = e.call.payouts w.1 ∧ e.call.Checks E e.sender w.1 := by
  obtain ⟨f, s, ko, hf, -, -, henter, hcases⟩ :=
    (keptInside_sameCctp w.1).konts_of_call ⟨rfl, rfl, rfl⟩ h
  obtain ⟨hchecks, -, hko⟩ := machine_enter henter
  refine ⟨?_, hchecks⟩
  rw [lastPayouts, hf, Option.map_some, Option.getD_some]
  rcases hcases with ⟨rfl, hnil⟩ | ⟨k, rfl, hin⟩
  · rw [hnil]
    cases hcall : e.call <;> rw [hcall] at hko <;> first | rfl | cases hko
  · exact payouts_of_konts hko.symm hin

/-- **Payouts of the Arc pool.** -/
theorem lastPayouts_eq_iff {e' : Entry E} {is' : List (List (Tx (Entry E) Action))}
    {w₁ w₂ : World State (Entry E) Kont} (hsame : SameSignals e.call e'.call)
    (h₁ : call? (machine E) e is K w = some w₁) (h₂ : call? (machine E) e' is' K w = some w₂)
    (hcol : Set.InjOn E.addressHash {a | a ∈ e.call.recipient ∨ a ∈ e'.call.recipient}) :
    lastPayouts w₁ = lastPayouts w₂ ↔
      (e.call.isRfq = true → e.call.recipient = e'.call.recipient) := by
  obtain ⟨hp, hc⟩ := lastPayouts_of_call h₁
  obtain ⟨hp', hc'⟩ := lastPayouts_of_call h₂
  rw [hp, hp']
  generalize e.call = c at *
  generalize e'.call = c' at *
  cases hsame with
  | withdraw a a' proof pub =>
      -- the recipient is bound by its hash
      obtain ⟨-, -, hr, -⟩ := hc
      obtain ⟨-, -, hr', -⟩ := hc'
      obtain rfl : a = a' := hcol (by simp [Call.recipient]) (by simp [Call.recipient])
        (hr.symm.trans hr')
      simp
  | withdrawCctp a a' r r' fee fee' fin fin' proof pub =>
      obtain ⟨-, -, -, rfl, rfl, rfl⟩ := hc
      obtain ⟨-, -, -, rfl, rfl, rfl⟩ := hc'
      simp [Call.payouts, Call.isRfq]
  | rfqSettle a a' q i f pk sig proof pub =>
      simp [Call.payouts, Call.isRfq, Call.recipient]

end

end ShadePay.Evm
