import Mathlib.Algebra.BigOperators.Finprod
import ShadePay.Evm.Capacity

/-!
# Tokens for the caps of open channels

Opening a channel takes its cap out of the supply, and closing it mints the cap again, within the
reserve check of the pool. `owed` is the supply with the caps of the open channels. The contracts do
not keep it within the balance: their check sees the supply alone, so `channels_unbacked` is a run in
which a deposit uses the tokens that a cap has set free, and the channel can be neither settled nor
reclaimed. `channels_backed` is the run-level statement of when it is kept: when deposits and the
messenger leave these tokens alone.
-/

namespace ShadePay.Evm

open Guard Reentrancy

/-! ## What the pool owes -/

/-- What a channel has set free in the supply of `a`: its cap, while it is open. -/
def Channel.held (a : ℕ) (ch : Channel) : ℕ :=
  if ch.opened = true ∧ ch.consumed = false ∧ ch.assetId = a then ch.cap else 0

/-- The caps of the open channels of `a`. -/
noncomputable def openCaps (s : State) (a : ℕ) : ℕ := ∑ᶠ c, (s.escrow.channels c).held a

/-- The supply of `a`, with the caps that closing its channels mints again. -/
noncomputable def owed (s : State) (a : ℕ) : ℤ := s.pool.noteSupplyOf a + openCaps s a

/-- What a suspended call has paid of `a` and is about to debit. -/
def Kont.debit (a : ℕ) : Kont → ℕ
  | .transferred _ _ _ assetId debit _ => if assetId = a then debit else 0
  | .burning _ _ _ burn => if burn.assetId = a then burn.amount else 0
  | _ => 0

/-- What the suspended calls are about to debit. -/
def debits {E : Env} (K : List (Pending State (Entry E) Kont)) (a : ℕ) : ℕ :=
  (K.map fun p => p.kont.debit a).sum

/-- What a deposit adds to the supply of `a`. -/
def Call.deposited (a : ℕ) : Call → ℕ
  | .receiveDeposit _ _ _ amount _ _ _ _ pub => if pub.assetIdHash = a then amount else 0
  | _ => 0

/-- The pool has `x` tokens of `a` beyond what it owes, when the suspended calls are done. -/
def Spare (E : Env) (K : List (Pending State (Entry E) Kont)) (s : State) (a x : ℕ) : Prop :=
  owed s a + x ≤ s.poolBalance E (s.pool.assetToken a) + debits K a

/-- A deposit finds its tokens beyond what the pool owes. -/
def Call.SparesCaps (E : Env) (K : List (Pending State (Entry E) Kont)) (s : State) : Call → Prop
  | .receiveDeposit _ _ _ amount _ _ _ _ pub => Spare E K s pub.assetIdHash amount
  | _ => True

/-- The messenger takes tokens that the burns in progress are about to debit, or that are beyond what
the pool owes. -/
def Action.SparesCaps (E : Env) (K : List (Pending State (Entry E) Kont)) (s : State) : Action → Prop
  | .pull token _ amount => ∀ a, s.pool.assetToken a ≠ 0 → s.pool.assetToken a = token →
      Spare E K s a amount
  | _ => True

section
variable {E : Env} {s s' : State} {a : ℕ}

/-- What channels hold, open ones hold. -/
theorem support_held : (Function.support fun c => (s.escrow.channels c).held a) ⊆ openChannels s := by
  intro c hc
  have hheld : (s.escrow.channels c).held a ≠ 0 := hc
  rw [Channel.held] at hheld
  split at hheld
  · next h => exact ⟨h.1, h.2.1⟩
  · exact absurd rfl hheld

theorem openCaps_congr (h : s'.escrow.channels = s.escrow.channels) : openCaps s' a = openCaps s a := by
  rw [openCaps, h, openCaps]

/-- **One channel is written.** -/
theorem openCaps_update (hfin : (openChannels s).Finite) {c : ℕ} {ch : Channel}
    (hch : s'.escrow.channels = Function.update s.escrow.channels c ch) :
    openCaps s' a + (s.escrow.channels c).held a = openCaps s a + ch.held a := by
  have hs := hfin.subset (@support_held s a)
  have hs' : (Function.support fun k => (s'.escrow.channels k).held a).Finite := by
    refine (hs.insert c).subset fun k hk => ?_
    by_cases hkc : k = c
    · exact .inl hkc
    · exact .inr (by simpa [hch, hkc] using hk)
  have hrest : ∑ᶠ (k) (_ : k ≠ c), (s'.escrow.channels k).held a =
      ∑ᶠ (k) (_ : k ≠ c), (s.escrow.channels k).held a :=
    finsum_congr fun k => finsum_congr fun hk => by rw [hch, Function.update_of_ne hk]
  have h1 : (s'.escrow.channels c).held a + _ = openCaps s' a := add_finsum_cond_ne c hs'
  have h2 : (s.escrow.channels c).held a + _ = openCaps s a := add_finsum_cond_ne c hs
  rw [hrest, hch, Function.update_self] at h1
  omega

/-- What the caps are after an operation on a channel. -/
theorem openCaps_consume (hfin : (openChannels s).Finite) {c : ℕ}
    (hop : (s.escrow.channels c).opened = true) (hcon : (s.escrow.channels c).consumed = false)
    (hch : s'.escrow.channels = Function.update s.escrow.channels c
      { s.escrow.channels c with consumed := true }) :
    openCaps s' a + (if (s.escrow.channels c).assetId = a then (s.escrow.channels c).cap else 0) =
      openCaps s a := by
  have h := @openCaps_update s s' a hfin c _ hch
  simpa [Channel.held, hop, hcon] using h

/-! ## One call -/

/-- Settlements with the recorded parameters give the caps back to the supply. -/
theorem settles_openCaps {pubs : List (StreamSettlePub ℕ)} (hfin : (openChannels s).Finite)
    (h : runPrims E (pubs.flatMap settlePrims) s = .ok s')
    (hc : ∀ pub ∈ pubs, pub.cap = (s.escrow.channels pub.channelId).cap ∧
      pub.assetId = (s.escrow.channels pub.channelId).assetId ∧ pub.cumulative ≤ pub.cap) :
    (openCaps s' a : ℤ) + (pubs.map (settleDelta a)).sum = openCaps s a := by
  induction pubs generalizing s with
  | nil =>
      cases h
      simp
  | cons pub pubs ih =>
      rw [List.flatMap_cons, runPrims_append] at h
      obtain ⟨s₁, h1, h2⟩ := h
      obtain ⟨hop, hcon, hch⟩ := settlePrims_channels h1
      obtain ⟨hcap, hasset, hle⟩ := hc pub (by simp)
      have hfin₁ : (openChannels s₁).Finite := (runPrims_room h1 hfin fun c ch hp =>
        absurd rfl (settlePrims_ne_openChannel hp c ch)).1
      have hrest := ih hfin₁ h2 fun q hq => by
        -- a settlement changes no recorded parameter
        have := hc q (by simp [hq])
        rw [hch]
        by_cases hqk : q.channelId = pub.channelId
        · rw [hqk] at this ⊢
          simpa using this
        · simpa [hqk] using this
      have hone := @openCaps_consume s s₁ a hfin _ hop hcon hch
      rw [← hasset, ← hcap] at hone
      have hdelta : settleDelta a pub = ((if pub.assetId = a then pub.cap else 0 : ℕ) : ℤ) := by
        rw [settleDelta]
        split
        · omega
        · rfl
      rw [List.map_cons, List.sum_cons, hdelta]
      omega

/-- **What a call does to what the pool owes**: a deposit adds its amount, and the calls of the escrow
only move caps between the supply and the channels. -/
theorem Call.owed_run {x : Address} {call : Call} (hfin : (openChannels s).Finite) (hcaps : CapsOk s)
    (hc : call.Checks E x s) (hne : ∀ b c d, call ≠ .streamInsert b c d)
    (h : runPrims E (call.prims E x s) s = .ok s') :
    owed s' a = owed s a + call.deposited a := by
  have hsup := runPrims_supply h a
  -- a call that leaves the channels alone
  have hidle : ∀ {call' : Call} {d : ℕ}, ((call'.prims E x s).map (Prim.delta a)).sum = d →
      (∀ p ∈ call'.prims E x s, (∀ c ch, p ≠ .openChannel c ch) ∧ ∀ c, p ≠ .consume c) →
      runPrims E (call'.prims E x s) s = .ok s' → owed s' a = owed s a + d := by
    intro call' d hd hps hrun
    rw [owed, owed, openCaps_congr (runPrims_channels hrun hps), runPrims_supply hrun a, hd]
    ring
  cases call with
  | «open» proof pub =>
      rw [hc.delta hcaps rfl a] at hsup
      simp only [Call.prims, runPrims_append, runPrims_cons, runPrims_nil, Except.ok.injEq] at h
      obtain ⟨s₃, ⟨s₂, ⟨s₁, h1, t, h2, rfl⟩, h3⟩, u, h4, rfl⟩ := h
      have hs₁ : s₁.escrow.channels = s.escrow.channels := by
        obtain ⟨-, rfl⟩ := State.spend_eq_ok.1 h1
        rfl
      simp only [Prim.run, bind_eq_ok, require_eq_ok, exists_unit, pure_eq_ok] at h2
      obtain ⟨hop, rfl⟩ := h2
      rw [hs₁] at hop
      have hch : u.escrow.channels = Function.update s.escrow.channels pub.channelId
          (openedChannel pub) := by
        cases h4
        rw [← hs₁]
        exact runPrims_channels h3 fun p hp => streamPrims_idle hp
      have hone := @openCaps_update s u a hfin _ _ hch
      have hold : (s.escrow.channels pub.channelId).held a = 0 := if_neg (by simp [hop])
      have hnew : (openedChannel pub).held a = if pub.assetId = a then pub.cap else 0 := by
        simp [Channel.held, openedChannel]
      rw [hold, hnew] at hone
      simp only [Call.named, Call.deposited, owed] at hsup ⊢
      split at hsup
      · next ha =>
        rw [if_pos ha] at hone
        omega
      · next ha =>
        rw [if_neg ha] at hone
        omega
  | settle proof pub =>
      rw [hc.delta hcaps rfl a] at hsup
      have hone := @settles_openCaps E s s' a [pub] hfin (by simpa [Call.prims] using h) (by
        simpa using ⟨hc.cap, hc.assetId, hc.cumulative⟩)
      simp only [List.map_cons, List.map_nil, List.sum_cons, List.sum_nil, Call.named, Call.deposited,
        owed] at hone hsup ⊢
      omega
  | settleBatch proofs pubs =>
      rw [hc.delta hcaps rfl a] at hsup
      have hone := @settles_openCaps E s s' a pubs hfin h fun pub hp => by
        have hsnd : (proofs.zip pubs).map Prod.snd = pubs := List.map_snd_zip hc.1.ge
        rw [← hsnd] at hp
        obtain ⟨q, hq, rfl⟩ := List.mem_map.1 hp
        have := hc.2 q hq
        exact ⟨this.cap, this.assetId, this.cumulative⟩
      simp only [Call.named, Call.deposited, owed] at hone hsup ⊢
      omega
  | reclaim c =>
      rw [hc.delta hcaps rfl a] at hsup
      obtain ⟨hop, hcon, hch⟩ := runPrims_consume h fun p hp => by
        simp only [List.mem_append, List.mem_cons, List.not_mem_nil, or_false] at hp
        rcases hp with hp | rfl
        · exact streamPrims_idle hp
        · simp
      have hone := @openCaps_consume s s' a hfin _ hop hcon hch
      simp only [Call.named, Call.deposited, owed] at hsup ⊢
      split at hsup
      · next ha =>
        rw [if_pos ha] at hone
        omega
      · next ha =>
        rw [if_neg ha] at hone
        omega
  | streamInsert b c d => exact absurd rfl (hne b c d)
  | receiveDeposit d n t amount c enc pol proof pub =>
      refine hidle ?_ (by simp [Call.prims]) h
      rw [hc.delta hcaps rfl a]
      simp [Call.named, Call.deposited]
  | _ =>
      exact @hidle _ 0 (by simp [Call.prims, pairPrims, Prim.delta]) (by simp [Call.prims, pairPrims]) h

/-! ## The invariant -/

/-- What a suspended call carries: a payout within its debit, and canonical debits. -/
def Kont.Fits : Kont → Prop
  | .transferring _ _ amount _ debit _ => amount ≤ debit ∧ debit < bn254
  | .transferred _ _ _ _ debit _ => debit < bn254
  | .approving _ _ _ burn => burn.amount < bn254
  | .burning _ _ _ burn => burn.amount < bn254

/-- The tokens of every registered asset cover its notes and the caps of its open channels, less what
suspended calls are about to debit. -/
structure Covered (E : Env) (K : List (Pending State (Entry E) Kont)) (s : State) : Prop where
  finite : (openChannels s).Finite
  caps : CapsOk s
  unregistered : ∀ a, s.pool.assetToken a = 0 → s.pool.noteSupplyOf a = 0 ∧ openCaps s a = 0
  covered : ∀ a, s.pool.assetToken a ≠ 0 → Spare E K s a 0

variable {K : List (Pending State (Entry E) Kont)}

/-- A deposit that has succeeded is of a registered asset. -/
theorem deposited_eq_zero {x : Address} {call : Call} (h : runPrims E (call.prims E x s) s = .ok s')
    (ha : s.pool.assetToken a = 0) : call.deposited a = 0 := by
  cases call with
  | receiveDeposit d n t amount c enc pol proof pub =>
      refine if_neg fun hp => ?_
      have hback := (@runPrims_backed E s s' _ h pub.assetIdHash (by simp [Call.prims, Prim.touched])).1
      rw [(runPrims_config h).pool, hp] at hback
      exact hback ha
  | _ => rfl

/-- The pool's balance is not touched by primitives. -/
theorem runPrims_poolBalance {ps : List Prim} (h : runPrims E ps s = .ok s') (a : ℕ) :
    s'.poolBalance E (s'.pool.assetToken a) = s.poolBalance E (s.pool.assetToken a) := by
  have hcfg := runPrims_config h
  rw [State.poolBalance, hcfg.balance, hcfg.pool]
  rfl

/-- **One call** that spares the caps. -/
theorem Covered.call {x : Address} {call : Call} (hI : Covered E K s) (hc : call.Checks E x s)
    (hne : ∀ b c d, call ≠ .streamInsert b c d) (hsp : call.SparesCaps E K s)
    (h : runPrims E (call.prims E x s) s = .ok s') : Covered E K s' := by
  have hasset : s'.pool.assetToken = s.pool.assetToken := by rw [(runPrims_config h).pool]
  have howed : ∀ a, owed s' a = owed s a + call.deposited a := fun a =>
    Call.owed_run hI.finite hI.caps hc hne h
  refine ⟨(runPrims_room h hI.finite fun c ch hp => ?_).1,
    hI.caps.prims h fun _ _ hp => hc.caps hp, fun a ha => ?_, fun a ha => ?_⟩
  · obtain ⟨proof, pub, -, -, rfl⟩ := Call.eq_open hp
    exact ⟨rfl, rfl⟩
  · have hzero := unregistered_prims (fun b hb => (hI.unregistered b hb).1) h a ha
    rw [hasset] at ha
    obtain ⟨h1, h2⟩ := hI.unregistered a ha
    have := howed a
    rw [deposited_eq_zero h ha, owed, owed, hzero, h1, h2] at this
    exact ⟨hzero, by omega⟩
  · rw [hasset] at ha
    have hcov := hI.covered a ha
    rw [Spare] at hcov ⊢
    rw [runPrims_poolBalance h, howed a]
    by_cases hd : call.deposited a = 0
    · simpa [hd] using hcov
    · -- only a deposit of this asset adds to it, within the tokens it was promised
      cases call with
      | receiveDeposit d n t amount c enc pol proof pub =>
          obtain rfl : pub.assetIdHash = a := by
            by_contra hne'
            exact hd (if_neg hne')
          rw [Call.deposited, if_pos rfl, Nat.cast_zero, add_zero]
          exact hsp
      | _ => exact absurd rfl hd

/-- A call waits first where it has paid nothing. -/
theorem Call.kont_debit {call : Call} {k : Kont} (h : call.kont s = some k) : k.debit a = 0 := by
  cases call <;> cases h <;> rfl

/-- What a suspended call carries. -/
theorem Suspended.fits {x : Address} {call : Call} {pre : State} {ks : List Kont} {k : Kont}
    (h : Suspended call pre ks k) (hc : call.Checks E x pre) : k.Fits := by
  have hval : ∀ {op : ℤ} {proof : Groth16Proof} {pub : WithdrawPub ℕ},
      WithdrawChecks E pre op proof pub → pub.withdrawnValue < bn254 :=
    fun h => E.lt_of_verifyProof h.verified _ (by simp [WithdrawPub.toList])
  cases h with
  | first h =>
      cases call with
      | withdraw =>
          cases h
          exact ⟨Nat.sub_le _ _, hval hc.1⟩
      | rfqSettle =>
          cases h
          exact ⟨le_rfl, hval hc.1⟩
      | withdrawCctp =>
          cases h
          exact hval hc.1
      | _ => cases h
  | next h h' =>
      cases call with
      | withdraw =>
          cases h
          cases h'
          exact hval hc.1
      | rfqSettle =>
          cases h
          cases h'
          exact hval hc.1
      | withdrawCctp =>
          cases h
          cases h'
          exact hval hc.1
      | _ => cases h

/-- The debit that ends a call with external calls. -/
theorem Kont.Fits.delta {k : Kont} (h : k.Fits) (hk : k.next s = none) (a : ℕ) :
    (k.prims.map (Prim.delta a)).sum = -(k.debit a : ℤ) := by
  cases k with
  | transferred token recipient amount assetId debit event =>
      have hd : int256 debit = debit := int256_of_lt h
      by_cases ha : assetId = a
      · simp [Kont.prims, Prim.delta, Kont.debit, ha, hd]
      · simp [Kont.prims, Prim.delta, Kont.debit, ha]
  | burning token messenger d burn =>
      have hd : int256 burn.amount = burn.amount := int256_of_lt h
      by_cases ha : burn.assetId = a
      · simp [Kont.prims, Prim.delta, Kont.debit, ha, hd]
      · simp [Kont.prims, Prim.delta, Kont.debit, ha]
  | transferring => cases hk
  | approving => cases hk

/-- A step that leaves the channels and the registered assets alone. -/
theorem Covered.of_channels {K' : List (Pending State (Entry E) Kont)} (hI : Covered E K s)
    (hch : s'.escrow.channels = s.escrow.channels) (hasset : s'.pool.assetToken = s.pool.assetToken)
    (hzero : ∀ a, s'.pool.assetToken a = 0 → s'.pool.noteSupplyOf a = 0)
    (hcov : ∀ a, s.pool.assetToken a ≠ 0 → Spare E K s a 0 → Spare E K' s' a 0) :
    Covered E K' s' where
  finite := openChannels_congr hch ▸ hI.finite
  caps := by
    rw [CapsOk, hch]
    exact hI.caps
  unregistered a ha := by
    rw [openCaps_congr hch]
    exact ⟨hzero a ha, (hI.unregistered a (hasset ▸ ha)).2⟩
  covered a ha := by
    rw [hasset] at ha
    exact hcov a ha (hI.covered a ha)

/-- **The end of a call** that has paid debits what it has paid. -/
theorem Covered.resume_done {p : Pending State (Entry E) Kont} (hI : Covered E (p :: K) s)
    (hfits : p.kont.Fits) (hk : p.kont.next s = none)
    (h : runPrims E p.kont.prims (p.kont.tokens E s) = .ok s') : Covered E K s' := by
  have htok : p.kont.tokens E s = s := by
    cases hp : p.kont with
    | transferred => rfl
    | burning => rfl
    | transferring => simp [hp, Kont.next] at hk
    | approving => simp [hp, Kont.next] at hk
  have hch := resume_channels h
  rw [htok] at h
  refine hI.of_channels hch (by rw [(runPrims_config h).pool])
    (unregistered_prims (fun a ha => (hI.unregistered a ha).1) h) fun a ha hcov => ?_
  rw [Spare, debits, List.map_cons, List.sum_cons] at hcov
  rw [Spare, owed, openCaps_congr hch, runPrims_supply h a, hfits.delta hk a, runPrims_poolBalance h,
    debits]
  rw [owed] at hcov
  push_cast at hcov ⊢
  omega

/-- **A payment** of a suspended call: its tokens leave, and it is about to debit as many or more. -/
theorem Covered.resume {p : Pending State (Entry E) Kont} {k : Kont} (hI : Covered E (p :: K) s)
    (hC : ByHash E s) (hnamed : p.kont.Named E s) (hfits : p.kont.Fits)
    (hk : p.kont.next s = some k) (hle : ∀ token recipient amount assetId debit event,
      p.kont = .transferring token recipient amount assetId debit event →
      amount ≤ s.poolBalance E token) :
    Covered E (p.advance k :: K) (p.kont.tokens E s) := by
  cases hp : p.kont with
  | transferring token recipient amount assetId debit event =>
      rw [hp] at hk hnamed hfits
      cases hk
      have hamount := hle _ _ _ _ _ _ hp
      refine hI.of_channels rfl rfl (fun a ha => (hI.unregistered a ha).1) fun a ha hcov => ?_
      simp only [Spare, debits, List.map_cons, List.sum_cons, hp, Kont.debit, Pending.advance] at hcov ⊢
      have hsame : owed (Kont.tokens E s (.transferring token recipient amount assetId debit event)) a =
          owed s a := rfl
      rw [hsame]
      by_cases hat : s.pool.assetToken a = token
      · -- the only asset of this token is the one of the payout
        have hreg : s.pool.assetToken assetId = token := hnamed
        have hasset : assetId = a := hC.token_inj ha (hreg.trans hat.symm)
        have hmoved : s.poolBalance E token ≤
            (Kont.tokens E s (.transferring token recipient amount assetId debit event)).poolBalance E
              token + amount :=
          le_moveTokens token recipient amount
        have hdebit := hfits.1
        rw [if_pos hasset]
        rw [hat] at hcov
        have htoken : (Kont.tokens E s
            (.transferring token recipient amount assetId debit event)).pool.assetToken a = token := hat
        rw [htoken]
        push_cast at hcov ⊢
        omega
      · have hother : (Kont.tokens E s (.transferring token recipient amount assetId debit
            event)).poolBalance E (s.pool.assetToken a) = s.poolBalance E (s.pool.assetToken a) :=
          moveTokens_of_ne hat
        have htoken : (Kont.tokens E s (.transferring token recipient amount assetId debit
            event)).pool.assetToken = s.pool.assetToken := rfl
        rw [htoken, hother]
        push_cast at hcov ⊢
        omega
  | approving token spender pullAmount burn =>
      rw [hp] at hk
      cases hk
      refine hI.of_channels rfl rfl (fun a ha => (hI.unregistered a ha).1) fun a ha hcov => ?_
      simp only [Spare, debits, List.map_cons, List.sum_cons, hp, Kont.debit, Pending.advance] at hcov ⊢
      have hsame : owed (Kont.tokens E s (.approving token spender pullAmount burn)) a = owed s a := rfl
      have hbal : (Kont.tokens E s (.approving token spender pullAmount burn)).poolBalance E
          ((Kont.tokens E s (.approving token spender pullAmount burn)).pool.assetToken a) =
        s.poolBalance E (s.pool.assetToken a) := rfl
      rw [hsame, hbal]
      push_cast at hcov ⊢
      omega
  | transferred => simp [hp, Kont.next] at hk
  | burning => simp [hp, Kont.next] at hk

/-- What an act takes from the pool. -/
def Action.pulled (t : Address) : Action → ℕ
  | .pull token _ amount => if token = t then amount else 0
  | _ => 0

/-- **Inversion of outside actions**, by what they take from the pool. -/
theorem act_pulled {x : Action} (hreb : E.rebasing = false) (h : act E K x s = some s') :
    (∃ b al n, s' = { s with balance := b, allowance := al, block := n } ∧
      ∀ t, s.poolBalance E t ≤ b t E.pool + x.pulled t) ∨ (K = [] ∧ Configured s s') := by
  rcases act_inv h with ⟨b, al, n, rfl, -, -, hbal⟩ | hconf
  · refine .inl ⟨b, al, n, rfl, fun t => ?_⟩
    cases x with
    | pull token messenger amount =>
        simp only [act, Option.ite_none_right_eq_some, Option.some.injEq] at h
        obtain ⟨⟨-, -, hle⟩, heq⟩ := h
        obtain rfl : _ = b := congrArg State.balance heq
        by_cases ht : t = token
        · subst ht
          simp only [State.setBalance, State.poolBalance, Action.pulled, Function.update_self,
            if_true] at hle ⊢
          omega
        · simp [State.setBalance, State.poolBalance, ht]
    | mint token holder amount =>
        obtain rfl : _ = b := congrArg State.balance (Option.some.inj h)
        by_cases ht : t = token
        · subst ht
          by_cases hh : E.pool = holder
          · simp [State.setBalance, State.poolBalance, Action.pulled, ← hh]
          · simp [State.setBalance, State.poolBalance, hh]
        · simp [State.setBalance, State.poolBalance, ht]
    | burn token holder amount =>
        simp only [act, Option.ite_none_right_eq_some, Option.some.injEq] at h
        obtain ⟨hne, heq⟩ := h
        obtain rfl : _ = b := congrArg State.balance heq
        by_cases ht : t = token
        · subst ht
          simp [State.setBalance, State.poolBalance, Ne.symm hne]
        · simp [State.setBalance, State.poolBalance, ht]
    | rebase token holder amount =>
        rw [act, hreb] at h
        cases h
    | mine blocks =>
        simp only [act, Option.ite_none_right_eq_some, Option.some.injEq] at h
        obtain rfl : _ = b := congrArg State.balance h.2
        exact Nat.le_add_right _ _
    | configure sender call =>
        simp only [act, Option.ite_none_right_eq_some] at h
        have heq := (configure_inv (toOption_eq_some.1 h.2)).balance
        obtain rfl : b = s.balance := heq
        exact Nat.le_add_right _ _
  · exact .inr hconf

/-- **An outside act** that spares the caps. -/
theorem Covered.act {x : Action} (hI : Covered E K s) (hreb : E.rebasing = false)
    (hsp : x.SparesCaps E K s) (h : act E K x s = some s') : Covered E K s' := by
  rcases act_pulled hreb h with ⟨b, al, n, rfl, hbal⟩ | ⟨rfl, hc⟩
  · refine hI.of_channels rfl rfl (fun a ha => (hI.unregistered a ha).1) fun a ha hcov => ?_
    have hb := hbal (s.pool.assetToken a)
    have howed : owed { s with balance := b, allowance := al, block := n } a = owed s a := rfl
    have hroom : owed s a + x.pulled (s.pool.assetToken a) ≤
        s.poolBalance E (s.pool.assetToken a) + debits K a := by
      cases x with
      | pull token messenger amount =>
          by_cases ht : token = s.pool.assetToken a
          · subst ht
            rw [Action.pulled, if_pos rfl]
            exact hsp a ha rfl
          · simpa [Action.pulled, ht, Spare] using hcov
      | _ => simpa [Action.pulled, Spare] using hcov
    rw [Spare, howed]
    simp only [State.poolBalance] at hb hroom ⊢
    push_cast at hroom ⊢
    omega
  · refine ⟨openChannels_congr hc.channels ▸ hI.finite, ?_, fun a ha => ?_, fun a ha => ?_⟩
    · rw [CapsOk, hc.channels]
      exact hI.caps
    · rw [openCaps_congr hc.channels]
      rcases hc.assets with ⟨h1, h2⟩ | ⟨b, t, hnew, h1, h2⟩
      · rw [h2]
        exact hI.unregistered a (h1 ▸ ha)
      · rw [h2]
        by_cases hab : a = b
        · subst hab
          exact ⟨Function.update_self _ _ _, (hI.unregistered a hnew).2⟩
        · rw [h1, Function.update_of_ne hab] at ha
          rw [Function.update_of_ne hab]
          exact hI.unregistered a ha
    · rw [Spare, owed, openCaps_congr hc.channels, State.poolBalance, hc.balance]
      rcases hc.assets with ⟨h1, h2⟩ | ⟨b, t, hnew, h1, h2⟩
      · rw [h1, h2]
        exact hI.covered a (h1 ▸ ha)
      · rw [h1, h2]
        by_cases hab : a = b
        · -- a newly registered asset has neither notes nor caps
          subst hab
          rw [Function.update_self, (hI.unregistered a hnew).2, Nat.cast_zero, add_zero, add_zero]
          exact Int.natCast_nonneg _
        · rw [h1, Function.update_of_ne hab] at ha
          rw [Function.update_of_ne hab, Function.update_of_ne hab]
          exact hI.covered a ha

/-! ## Runs -/

/-- A deployed configuration is standard. -/
theorem Deployed.standard {s₀ : State} (hd : Deployed E s₀) : Standard E s₀ where
  byHash := hd.byHash
  onlyEscrow := by
    obtain ⟨r, p, e, b, n, h⟩ := hd
    simp only [construct, bind_eq_ok, pure_eq_ok] at h
    obtain ⟨t, -, rfl⟩ := h
    intro x hx
    cases hx

/-- There is nothing to cover at the start. -/
theorem Deployed.covered {s₀ : State} (hd : Deployed E s₀) : Covered E [] s₀ := by
  obtain ⟨-, -, -, hzero, hch⟩ := hd.spec
  have hcaps : ∀ a, openCaps s₀ a = 0 := fun a => by
    simp [openCaps, hch, Channel.held, Channel.zero]
  exact ⟨hd.room.finite, hd.capsOk, fun a _ => ⟨(hzero a).1, hcaps a⟩,
    fun a ha => absurd (hzero a).2 ha⟩

/-- **The invariant over runs.** -/
theorem covered_reach {s₀ : State} {w : World State (Entry E) Kont} (hd : Deployed E s₀)
    (hreb : E.rebasing = false)
    (h : ReachIf ((machine E).within (Standard E)) (fun K e s => e.call.SparesCaps E K s)
      (fun K a s => a.SparesCaps E K s) [] (s₀, []) K w) : Covered E K w.1 := by
  have hstd : ∀ {K₁ w₁}, Reach ((machine E).within (Standard E)) [] (s₀, []) K₁ w₁ →
      Standard E w₁.1 ∧ Reserve E K₁ w₁.1 := fun h₁ =>
    ((preserves_reserve hreb).mono fun _ hs => hs.byHash).reach hd.standard hd.reserve h₁
  -- a call that succeeds is not a direct insertion: only the escrow may insert, and it has no calls
  have hcall : ∀ {K₁ s tr} {e : Entry E} {s' ko},
      Reach ((machine E).within (Standard E)) [] (s₀, []) K₁ (s, tr) → Covered E K₁ s →
      e.call.SparesCaps E K₁ s →
      ((machine E).within (Standard E)).enter e s = some (s', ko) →
      Covered E K₁ s' ∧ ko = e.call.kont s := by
    intro K₁ s tr e s' ko hr hI hsp he
    obtain ⟨hc, hrun, hk⟩ := machine_enter (within_enter.1 he).1
    refine ⟨hI.call hc (fun b c d hcall => ?_) hsp hrun, hk⟩
    rw [hcall] at hc
    exact e.sender_ne_escrow ((hstd hr).1.onlyEscrow _ hc)
  induction h with
  | refl => exact hd.covered
  | enter_done hr hsp he ih => exact (hcall hr.reach ih hsp he).1
  | enter hr hsp he ih =>
      obtain ⟨hI, hk⟩ := hcall hr.reach ih hsp he
      refine hI.of_channels rfl rfl (fun a ha => (hI.unregistered a ha).1) fun a _ hcov => ?_
      simpa [Spare, debits, Call.kont_debit hk.symm] using hcov
  | resume_done hr hres ih =>
      obtain ⟨hrun, hk, -⟩ := machine_resume (within_resume.1 hres).1
      obtain ⟨-, hc, hsus⟩ := (framesOk_reach hd.standard hr.reach).pending _ List.mem_cons_self
      exact ih.resume_done (hsus.fits hc) hk.symm hrun
  | resume hr hres ih =>
      obtain ⟨hrun, hk, hle⟩ := machine_resume (within_resume.1 hres).1
      obtain ⟨-, hc, hsus⟩ := (framesOk_reach hd.standard hr.reach).pending _ List.mem_cons_self
      obtain ⟨hs, hreserve⟩ := hstd hr.reach
      rw [Kont.prims_of_next (by rw [← hk]; simp)] at hrun
      cases hrun
      exact ih.resume hs.byHash (hreserve.konts _ List.mem_cons_self) (hsus.fits hc) hk.symm hle
  | act hr hsp ha ih => exact ih.act hreb hsp (within_act.1 ha).1

/-! ## Closing channels -/

/-- A settlement of no more than the cap, as its circuit proves and the escrow's subtraction checks. -/
def Closing.WithinCap : Closing → Prop
  | .settle _ pub => pub.cumulative ≤ pub.cap
  | .settleBatch _ pubs => ∀ pub ∈ pubs, pub.cumulative ≤ pub.cap
  | _ => True

/-- `streamInsert` finds the reserve broken only when the tokens do not cover the new supply. -/
theorem State.streamInsert_broken {x : Address} {b c : ℕ} {d : ℤ}
    (h : s.streamInsert E x b c d = .error .reserveBroken) : s.pool.assetToken b ≠ 0 ∧
      (s.poolBalance E (s.pool.assetToken b) : ℤ) < s.pool.noteSupplyOf b + d := by
  have hinsert : ∀ t : State, t.insert E c ≠ .error .reserveBroken := by
    intro t ht
    simp only [State.insert, IncrementalMerkleTree.insert, bind_eq_error, require_eq_error,
      require_eq_ok, reduceCtorEq, and_false, pure_ne_error, or_false, exists_false] at ht
  simp only [State.streamInsert, Access.whenNotPaused, bind_eq_error, require_eq_error, require_eq_ok,
    exists_unit, reduceCtorEq, and_false, false_or] at h
  obtain ⟨-, -, h⟩ := h
  split at h
  · simp only [bind_eq_error, pure_ne_error, and_false, exists_false, or_false] at h
    rcases h with h | ⟨s₁, -, h⟩
    · simp only [State.adjustNoteSupply, bind_eq_error, require_eq_error, require_eq_ok, exists_unit,
        reduceCtorEq, and_false, false_or, pure_ne_error, or_false, not_le] at h
      exact ⟨h.1, h.2.2.2.1⟩
    · exact absurd h (hinsert s₁)
  · simp only [ok_bind, bind_eq_error, pure_ne_error, and_false, exists_false, or_false] at h
    exact absurd h (hinsert s)

/-- The tokens cover the supply with the cap of an open channel. -/
theorem Covered.cap_le (hI : Covered E [] s) {c : ℕ} (hc : c ∈ openChannels s)
    (ha : s.pool.assetToken (s.escrow.channels c).assetId ≠ 0) :
    s.pool.noteSupplyOf (s.escrow.channels c).assetId + (s.escrow.channels c).cap ≤
      s.poolBalance E (s.pool.assetToken (s.escrow.channels c).assetId) := by
  have hcov := hI.covered _ ha
  have hcap := @openCaps_consume s
    (s.setChannel c { s.escrow.channels c with consumed := true }) (s.escrow.channels c).assetId
    hI.finite c hc.1 hc.2 rfl
  rw [if_pos rfl] at hcap
  simp only [Spare, owed, debits, List.map_nil, List.sum_nil] at hcov
  push_cast at hcov
  omega

/-- Settling an open channel never finds the reserve broken. -/
theorem Covered.settleOne_ne_broken (hI : Covered E [] s) {proof : Groth16Proof}
    {pub : StreamSettlePub ℕ} (hle : pub.cumulative ≤ pub.cap) :
    s.settleOne E proof pub ≠ .error .reserveBroken := by
  intro h
  simp only [State.settleOne, bind_eq_error, require_eq_error, require_eq_ok, exists_unit,
    reduceCtorEq, and_false, false_or, pure_ne_error, or_false, exists_false] at h
  obtain ⟨hop, hcon, ⟨-, -, hcap, -⟩, -, -, hver, h⟩ := h
  have hlt : pub.cap < bn254 := E.lt_of_verifyProof hver _ (by simp [StreamSettlePub.toList])
  have h1 : int256 pub.cumulative = pub.cumulative := int256_of_lt (by omega)
  have hroom := fun ha => hI.cap_le ⟨hop, hcon⟩ ha
  rcases h with h | ⟨s₂, hok, -, h⟩
  · obtain ⟨ha, hbroken⟩ := State.streamInsert_broken h
    have hcov := hroom ha
    rw [h1] at hbroken
    change (s.poolBalance E (s.pool.assetToken _) : ℤ) < s.pool.noteSupplyOf _ + _ at hbroken
    omega
  · obtain ⟨ha, hbroken⟩ := State.streamInsert_broken h
    -- the payee's part has been added to the supply, and the tokens have not moved
    have hrun := (State.streamInsert_inv hok).2
    have hsup := runPrims_supply hrun (s.escrow.channels pub.channelId).assetId
    have hbal := runPrims_poolBalance hrun (s.escrow.channels pub.channelId).assetId
    rw [streamPrims_delta, if_pos rfl, h1] at hsup
    rw [(runPrims_config hrun).pool] at ha
    have hcov := hroom ha
    have h2 : int256 ((s.escrow.channels pub.channelId).cap - pub.cumulative) =
        (((s.escrow.channels pub.channelId).cap - pub.cumulative : ℕ) : ℤ) := int256_of_lt (by omega)
    rw [hbal, hsup, h2] at hbroken
    change (s.poolBalance E (s.pool.assetToken _) : ℤ) < s.pool.noteSupplyOf _ + _ + _ at hbroken
    omega

/-- A settlement leaves the other channels covered. -/
theorem Covered.settleOne (hI : Covered E [] s) {proof : Groth16Proof} {pub : StreamSettlePub ℕ}
    (h : s.settleOne E proof pub = .ok s') : Covered E [] s' := by
  obtain ⟨hc, hrun⟩ := State.settleOne_inv h
  exact @Covered.call E s s' [] 0 (.settle proof pub) hI hc (by simp) trivial hrun

/-- A batch of settlements does not break the reserve. -/
theorem Covered.settleLoop {qs : List (Groth16Proof × StreamSettlePub ℕ)} (hI : Covered E [] s)
    (hle : ∀ q ∈ qs, q.2.cumulative ≤ q.2.cap) : State.settleLoop E qs s ≠ .error .reserveBroken := by
  induction qs generalizing s with
  | nil => simp [State.settleLoop]
  | cons q qs ih =>
      intro h
      rcases bind_eq_error.1 h with h | ⟨s₁, h1, h⟩
      · exact hI.settleOne_ne_broken (hle q (by simp)) h
      · exact ih (hI.settleOne h1) (fun r hr => hle r (by simp [hr])) h

/-- **One closing** never finds the reserve broken, and keeps the tokens for the others. -/
theorem Covered.close (hI : Covered E [] s) {c : Closing} (hle : c.WithinCap) :
    s.close E c ≠ .error .reserveBroken ∧ ∀ s', s.close E c = .ok s' → Covered E [] s' := by
  cases c with
  | settle proof pub =>
      refine ⟨fun h => ?_, fun s' h => ?_⟩
      · simp only [State.close, State.settle, Access.whenNotPaused, bind_eq_error, require_eq_error,
          reduceCtorEq, and_false, false_or] at h
        obtain ⟨_, -, h⟩ := h
        exact hI.settleOne_ne_broken hle h
      · simp only [State.close, State.settle, bind_eq_ok] at h
        obtain ⟨_, -, h⟩ := h
        exact hI.settleOne h
  | settleBatch proofs pubs =>
      refine ⟨fun h => ?_, fun s' h => ?_⟩
      · simp only [State.close, State.settleBatch, Access.whenNotPaused, bind_eq_error,
          require_eq_error, reduceCtorEq, and_false, false_or] at h
        obtain ⟨_, -, _, -, h⟩ := h
        exact hI.settleLoop (fun q hq => hle q.2 (List.of_mem_zip hq).2) h
      · obtain ⟨hc, hrun⟩ := State.settleBatch_inv 0 h
        exact @Covered.call E s s' [] 0 (.settleBatch proofs pubs) hI hc (by simp) trivial hrun
  | reclaim k =>
      refine ⟨fun h => ?_, fun s' h => ?_⟩
      · simp only [State.close, State.reclaim, Access.whenNotPaused, bind_eq_error, require_eq_error,
          require_eq_ok, exists_unit, reduceCtorEq, and_false, false_or, pure_ne_error, or_false,
          exists_false] at h
        obtain ⟨-, hop, hcon, -, -, h⟩ := h
        obtain ⟨ha, hbroken⟩ := State.streamInsert_broken h
        have hcov := hI.cap_le ⟨hop, hcon⟩ ha
        rw [int256_of_lt (hI.caps k)] at hbroken
        change (s.poolBalance E (s.pool.assetToken _) : ℤ) < s.pool.noteSupplyOf _ + _ at hbroken
        omega
      · obtain ⟨hc, hrun⟩ := State.reclaim_inv 0 h
        exact @Covered.call E s s' [] 0 (.reclaim k) hI hc (by simp) trivial hrun
  | mine blocks =>
      refine ⟨fun h => ?_, fun s' h => ?_⟩ <;> cases h
      exact hI.of_channels rfl rfl (fun a ha => (hI.unregistered a ha).1) fun _ _ hcov => hcov

/-- A sequence of closings does not break the reserve. -/
theorem Covered.closeAll (hI : Covered E [] s) {cs : List Closing} (hle : ∀ c ∈ cs, c.WithinCap) :
    State.closeAll E cs s ≠ .error .reserveBroken := by
  induction cs generalizing s with
  | nil => simp [State.closeAll]
  | cons c cs ih =>
      intro h
      have hc := hI.close (hle c (by simp))
      rcases bind_eq_error.1 h with h | ⟨s₁, h1, h⟩
      · exact hc.1 h
      · exact ih (hc.2 s₁ h1) (fun d hd => hle d (by simp [hd])) h

/-- **Open channels stay backed.** In a deployment with one authorized escrow and tokens that do not
rebase, each registered under its own hash, take a run in which each deposit finds its tokens beyond
the notes and the caps of open channels, and in which the messenger takes no tokens but those that
burns in progress are about to debit, or such that are beyond notes and caps. Then in every
configuration the notes of a registered asset with the caps of its open channels are within the pool's
tokens and the debits that are under way. Between transactions there are none of these, and no sequence
of settlements within the caps, batches and reclaims is refused for the reserve. -/
theorem channels_backed {s₀ : State} {w : World State (Entry E) Kont} (hd : Deployed E s₀)
    (hreb : E.rebasing = false)
    (h : ReachIf ((machine E).within (Standard E)) (fun K e s => e.call.SparesCaps E K s)
      (fun K a s => a.SparesCaps E K s) [] (s₀, []) K w) :
    (∀ a, w.1.pool.assetToken a ≠ 0 → w.1.pool.noteSupplyOf a + openCaps w.1 a ≤
      w.1.poolBalance E (w.1.pool.assetToken a) + debits K a) ∧
    (K = [] → (∀ a, w.1.pool.assetToken a ≠ 0 → w.1.pool.noteSupplyOf a + openCaps w.1 a ≤
        w.1.poolBalance E (w.1.pool.assetToken a)) ∧
      ∀ cs : List Closing, (∀ c ∈ cs, c.WithinCap) →
        State.closeAll E cs w.1 ≠ .error .reserveBroken) := by
  have hI := covered_reach hd hreb h
  have hcov : ∀ a, w.1.pool.assetToken a ≠ 0 → w.1.pool.noteSupplyOf a + openCaps w.1 a ≤
      w.1.poolBalance E (w.1.pool.assetToken a) + debits K a := fun a ha => by
    simpa [Spare, owed] using hI.covered a ha
  refine ⟨hcov, fun hK => ⟨fun a ha => ?_, fun cs hcs => ?_⟩⟩
  · simpa [hK, debits] using hcov a ha
  · subst hK
    exact hI.closeAll hcs

end

/-! ## A run that spares the caps, and one that does not -/

/-- Only finitely many channels are open. -/
theorem openChannels_finite {E : Env} {s₀ : State} {K : List (Pending State (Entry E) Kont)}
    {w : World State (Entry E) Kont} (hd : Deployed E s₀) (h : Reachable E s₀ K w) :
    (openChannels w.1).Finite := by
  refine (preserves_state (I := fun s => (openChannels s).Finite) (fun {p s s'} hfin hrun => ?_)
    (fun _ _ _ hfin => hfin) fun hfin hc => openChannels_congr hc.channels ▸ hfin).reach
    hd.room.finite h
  by_cases hp : ∃ k ch, p = .openChannel k ch
  · obtain ⟨k, ch, rfl⟩ := hp
    simp only [Prim.run, bind_eq_ok, require_eq_ok, exists_unit, pure_eq_ok] at hrun
    obtain ⟨-, rfl⟩ := hrun
    refine (hfin.insert k).subset fun c hc => ?_
    by_cases hck : c = k
    · exact .inl hck
    · exact .inr (by simpa [openChannels, State.setChannel, hck] using hc)
  · push Not at hp
    refine hfin.subset fun c hc => ?_
    rcases Prim.run_channels hp hrun c with h1 | h1
    · simpa [openChannels, h1] using hc
    · simp [openChannels, h1] at hc

/-- The configured contracts are reached without a deposit or a payment, and have no channels. -/
theorem reachIf_ready : ReachIf ((machine (sampleEnv streaming)).within (Standard (sampleEnv streaming)))
      (fun K e s => e.call.SparesCaps (sampleEnv streaming) K s)
      (fun K a s => a.SparesCaps (sampleEnv streaming) K s) [] (fresh streaming, []) []
      (ready streaming, []) ∧
    (ready streaming).escrow.channels = fun _ => .zero := by
  refine (@ready_induct streaming (fun t => ReachIf _ _ _ [] (fresh streaming, []) [] (t, []) ∧
    t.escrow.channels = fun _ => .zero) ⟨.refl, rfl⟩ fun {t x t'} ht hs _ ha => ⟨?_, ?_⟩).1
  · refine ht.1.act ?_ (within_act.2 ⟨ha, hs⟩)
    cases x with
    | pull token messenger amount =>
        simp only [act, List.any_nil, Bool.false_eq_true, false_and, if_false, reduceCtorEq] at ha
    | _ => trivial
  · rw [← ht.2]
    rcases act_inv ha with ⟨b, al, n, rfl, -⟩ | ⟨-, hc⟩
    · rfl
    · exact hc.channels

/-- The configured contracts, with the deposit of the first note. -/
def holding : State :=
  ((ready streaming).receiveDeposit (sampleEnv streaming) admin 0 1 usdc 100 (leafOf note₁) 0 0 someProof
    (depositOf note₁ 1)).toOption.get (by decide +kernel)

/-- The note is put into channel 3. -/
def channeled : State :=
  (holding.openChannel (sampleEnv streaming) someProof (openOf note₁ (usdcNote 0 7 11)
    (usdcNote 100 7 12) [leafOf note₁] [7] 100 4)).toOption.get (by decide +kernel)

/-- The run opens a channel by steps that spare the caps. -/
theorem reachIf_channeled : ∃ tr, ReachIf
    ((machine (sampleEnv streaming)).within (Standard (sampleEnv streaming)))
    (fun K e s => e.call.SparesCaps (sampleEnv streaming) K s)
    (fun K a s => a.SparesCaps (sampleEnv streaming) K s) [] (fresh streaming, []) []
    (channeled, tr) := by
  -- a call of the admin that succeeds keeps the configuration
  have hcall : ∀ {c : Call} {s s' : State} {tr}, Standard (sampleEnv streaming) s →
      enter (sampleEnv streaming) ⟨admin, c, admin_ne_pool, admin_ne_escrow⟩ s = .ok (s', none) →
      c.SparesCaps (sampleEnv streaming) [] s →
      ReachIf ((machine (sampleEnv streaming)).within (Standard (sampleEnv streaming)))
        (fun K e s => e.call.SparesCaps (sampleEnv streaming) K s)
        (fun K a s => a.SparesCaps (sampleEnv streaming) K s) [] (fresh streaming, []) [] (s, tr) →
      (∃ tr', ReachIf ((machine (sampleEnv streaming)).within (Standard (sampleEnv streaming)))
        (fun K e s => e.call.SparesCaps (sampleEnv streaming) K s)
        (fun K a s => a.SparesCaps (sampleEnv streaming) K s) [] (fresh streaming, []) [] (s', tr')) ∧
        Standard (sampleEnv streaming) s' := by
    intro c s s' tr hs he hsp hr
    have hs' : Standard (sampleEnv streaming) s' := hs.prims (enter_inv he).2.1
    exact ⟨⟨_, hr.enter_done hsp (within_enter.2 ⟨toOption_eq_some.2 he, hs'⟩)⟩, hs'⟩
  have hdeposit : (ready streaming).receiveDeposit (sampleEnv streaming) admin 0 1 usdc 100
      (leafOf note₁) 0 0 someProof (depositOf note₁ 1) = .ok holding :=
    toOption_eq_some.1 (Option.some_get _).symm
  have hopen : holding.openChannel (sampleEnv streaming) someProof (openOf note₁ (usdcNote 0 7 11)
      (usdcNote 100 7 12) [leafOf note₁] [7] 100 4) = .ok channeled :=
    toOption_eq_some.1 (Option.some_get _).symm
  have hstd : Standard (sampleEnv streaming) (ready streaming) :=
    (reach_ready (C := fun _ => True) fun _ _ _ => trivial).2
  obtain ⟨hr, hch⟩ := reachIf_ready
  have hspare : Spare (sampleEnv streaming) [] (ready streaming) 11 100 := by
    have hcaps : openCaps (ready streaming) 11 = 0 := by
      simp [openCaps, hch, Channel.held, Channel.zero]
    have hsup : (ready streaming).pool.noteSupplyOf 11 = 0 := by decide
    have hbal : (ready streaming).poolBalance (sampleEnv streaming)
        ((ready streaming).pool.assetToken 11) = 100 := by decide
    rw [Spare, owed, hcaps, hsup, hbal]
    exact le_rfl
  obtain ⟨⟨tr, hr₁⟩, hs₁⟩ := @hcall (.receiveDeposit 0 1 usdc 100 (leafOf note₁) 0 0 someProof
    (depositOf note₁ 1)) _ holding [] hstd
    (by simp only [enter, hdeposit, ok_bind]; rfl) hspare hr
  exact (hcall (c := .open someProof (openOf note₁ (usdcNote 0 7 11) (usdcNote 100 7 12)
    [leafOf note₁] [7] 100 4)) hs₁
    (by simp only [enter, hopen, ok_bind]; rfl) trivial hr₁).1

/-- Channel 3 holds all of the pool's tokens, and can be settled. -/
theorem channels_backed_channeled : (channeled.escrow.channels 3).cap = 100 ∧
    openCaps channeled 11 ≤ 100 ∧
    State.closeAll (sampleEnv streaming) [.settle someProof (settleOf (usdcNote 10 7 15)
      (usdcNote 90 7 16) [7] 100 10 4), .mine 100, .reclaim 3] channeled ≠ .error .reserveBroken := by
  obtain ⟨tr, hr⟩ := reachIf_channeled
  obtain ⟨-, hback⟩ := channels_backed deployed_fresh rfl hr
  obtain ⟨hle, hclose⟩ := hback rfl
  have hsup : channeled.pool.noteSupplyOf 11 = 0 := by decide
  have hbal : channeled.poolBalance (sampleEnv streaming) (channeled.pool.assetToken 11) = 100 := by
    decide
  have hreg : channeled.pool.assetToken 11 ≠ 0 := by decide
  have hcaps : channeled.pool.noteSupplyOf 11 + openCaps channeled 11 ≤
      channeled.poolBalance (sampleEnv streaming) (channeled.pool.assetToken 11) := hle 11 hreg
  rw [hsup, hbal] at hcaps
  refine ⟨by decide, by omega, hclose _ ?_⟩
  simp [Closing.WithinCap, settleOf]

/-- Channel 3 is opened with all of the pool's tokens, and a deposit brings no new ones. -/
def unbackedRun : List (Tx (Entry (sampleEnv streaming)) Action) :=
  openRun ++ [depositTx _ (usdcNote 100 7 2) 2]

/-- The second deposit uses the tokens that the cap has set free: the pool has 100 USDC for notes of
100 and an open channel of 100, which can be neither settled nor reclaimed. -/
theorem channels_unbacked :
    (¬ ∀ (E : Env) (s₀ : State) (w : World State (Entry E) Kont), Deployed E s₀ → E.rebasing = false →
      Reach ((machine E).within (Standard E)) [] (s₀, []) [] w → ∀ a, w.1.pool.assetToken a ≠ 0 →
        w.1.pool.noteSupplyOf a + openCaps w.1 a ≤ w.1.poolBalance E (w.1.pool.assetToken a)) ∧
    ¬ ∀ (E : Env) (s₀ : State) (w : World State (Entry E) Kont), Deployed E s₀ → E.rebasing = false →
      Reach ((machine E).within (Standard E)) [] (s₀, []) [] w →
        (∀ proof (pub : StreamSettlePub ℕ), pub.cumulative ≤ pub.cap →
          w.1.settle E proof pub ≠ .error .reserveBroken) ∧
        ∀ n c, State.closeAll E [.mine n, .reclaim c] w.1 ≠ .error .reserveBroken := by
  have hrun := @reach_run streaming (Standard (sampleEnv streaming)) (fun _ ht => ht) unbackedRun
  refine ⟨fun h => ?_, fun h => ?_⟩
  · have hle := h (sampleEnv streaming) (fresh streaming) _ deployed_fresh rfl hrun 11
      (by decide)
    have hfin := openChannels_finite deployed_fresh hrun.of_within
    have hcap := @openCaps_consume (runFrom streaming unbackedRun).1
      ((runFrom streaming unbackedRun).1.setChannel 3
        { (runFrom streaming unbackedRun).1.escrow.channels 3 with consumed := true }) 11 hfin 3
      (by decide) (by decide) rfl
    have hheld : (if ((runFrom streaming unbackedRun).1.escrow.channels 3).assetId = 11 then
        ((runFrom streaming unbackedRun).1.escrow.channels 3).cap else 0) = 100 := by decide
    have hsup : (runFrom streaming unbackedRun).1.pool.noteSupplyOf 11 = 100 := by decide
    have hbal : (runFrom streaming unbackedRun).1.poolBalance (sampleEnv streaming)
        ((runFrom streaming unbackedRun).1.pool.assetToken 11) = 100 := by decide
    rw [hsup, hbal] at hle
    rw [hheld] at hcap
    omega
  · have hrec := (h (sampleEnv streaming) (fresh streaming) _ deployed_fresh rfl hrun).2 100 3
    exact hrec (eq_error_of (by decide))

end ShadePay.Evm
