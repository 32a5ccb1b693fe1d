import ShadePay.Evm.Scenario

/-!
# Supply and reserves

The pool adjusts `noteSupplyOf` after the tokens have left, so in the middle of a payout an asset may
have more notes than tokens. `Reserve` is the invariant of every configuration: an asset that is not
backed waits for the debit of a suspended call. `reserve_run` draws the consequences for finished
calls, and `supply_sum` says that the supply is the sum of what the finished calls named.
-/

namespace ShadePay.Evm

open Guard Reentrancy

/-! ## Primitives -/

/-- What a primitive adds to the supply of `a`. -/
def Prim.delta (a : ℕ) : Prim → ℤ
  | .adjust b d => if b = a then d else 0
  | _ => 0

/-- The assets whose supply a primitive adjusts. -/
def Prim.touched : Prim → List ℕ
  | .adjust a _ => [a]
  | _ => []

/-- The supply of an asset is backed by the pool's tokens. -/
def State.Backed (E : Env) (s : State) (a : ℕ) : Prop :=
  0 ≤ s.pool.noteSupplyOf a ∧ s.pool.noteSupplyOf a ≤ s.poolBalance E (s.pool.assetToken a)

section
variable {E : Env} {s s' : State}

/-- A primitive moves the supply of an asset by its delta. -/
theorem Prim.run_supply {p : Prim} (h : p.run E s = .ok s') (a : ℕ) :
    s'.pool.noteSupplyOf a = s.pool.noteSupplyOf a + p.delta a := by
  cases p with
  | adjust b d =>
      obtain ⟨-, rfl⟩ := State.adjustNoteSupply_eq_ok.1 h
      by_cases hb : b = a
      · subst hb
        simp [Prim.delta]
      · simp [Prim.delta, hb, Function.update_of_ne (Ne.symm hb)]
  | spend x k =>
      obtain ⟨-, rfl⟩ := State.spend_eq_ok.1 h
      simp [Prim.delta]
  | insert leaf =>
      simp only [Prim.run, bind_eq_ok, Prod.exists, pure_eq_ok] at h
      obtain ⟨i, _, h, rfl⟩ := h
      obtain ⟨t, ht, rfl⟩ := State.insert_eq_ok.1 h
      simp [Prim.delta]
  | deposit n =>
      cases h
      simp [Prim.delta]
  | openChannel c ch =>
      simp only [Prim.run, bind_eq_ok, require_eq_ok, exists_unit, pure_eq_ok] at h
      obtain ⟨-, rfl⟩ := h
      simp [Prim.delta, State.setChannel]
  | consume c =>
      simp only [Prim.run, bind_eq_ok, require_eq_ok, exists_unit, pure_eq_ok] at h
      obtain ⟨-, -, rfl⟩ := h
      simp [Prim.delta, State.setChannel]
  | emit e =>
      cases h
      simp [Prim.delta, State.emit]

/-- **Supply over a list of primitives.** -/
theorem runPrims_supply {ps : List Prim} (h : runPrims E ps s = .ok s') (a : ℕ) :
    s'.pool.noteSupplyOf a = s.pool.noteSupplyOf a + (ps.map (Prim.delta a)).sum := by
  induction ps generalizing s with
  | nil =>
      cases h
      simp
  | cons p ps ih =>
      obtain ⟨s₁, h1, h2⟩ := (runPrims_cons E).1 h
      rw [ih h2, Prim.run_supply h1, List.map_cons, List.sum_cons]
      ring

/-- The supply of an unregistered asset does not move. -/
theorem Prim.delta_unregistered {p : Prim} (h : p.run E s = .ok s') {a : ℕ}
    (ha : s.pool.assetToken a = 0) : p.delta a = 0 := by
  cases p with
  | adjust b d =>
      have hne : b ≠ a := fun hb => (State.adjustNoteSupply_eq_ok.1 h).1.1 (by rw [hb, ha])
      exact if_neg hne
  | _ => rfl

/-- An asset that is not registered has no supply. -/
theorem unregistered_prims {ps : List Prim}
    (hI : ∀ a, s.pool.assetToken a = 0 → s.pool.noteSupplyOf a = 0)
    (h : runPrims E ps s = .ok s') : ∀ a, s'.pool.assetToken a = 0 → s'.pool.noteSupplyOf a = 0 := by
  refine runPrims_induct (I := fun t => ∀ a, t.pool.assetToken a = 0 → t.pool.noteSupplyOf a = 0)
    (fun p _ t t' ht hp a ha => ?_) h hI
  rw [(Prim.run_config hp).pool] at ha
  rw [Prim.run_supply hp, ht a ha, Prim.delta_unregistered hp ha, add_zero]

/-- A primitive keeps what is backed, and what it adjusts is backed and registered afterwards. -/
theorem Prim.run_backed {p : Prim} (h : p.run E s = .ok s') (a : ℕ) :
    (s.Backed E a → s'.Backed E a) ∧
      (a ∈ p.touched → s'.pool.assetToken a ≠ 0 ∧ s'.Backed E a) := by
  have hcfg := Prim.run_config h
  have hbal : s'.poolBalance E (s'.pool.assetToken a) = s.poolBalance E (s.pool.assetToken a) := by
    rw [State.poolBalance, hcfg.balance, hcfg.pool]
    rfl
  have hsup := Prim.run_supply h a
  cases p with
  | adjust b d =>
      obtain ⟨⟨hne, -, h0, hle⟩, -⟩ := State.adjustNoteSupply_eq_ok.1 h
      by_cases hb : b = a
      · subst hb
        have hback : s'.Backed E b := by
          simp only [Prim.delta, if_true] at hsup
          refine ⟨by omega, ?_⟩
          rw [hbal]
          omega
        refine ⟨fun _ => hback, fun _ => ⟨?_, hback⟩⟩
        rw [hcfg.pool]
        exact hne
      · refine ⟨fun hs => ?_, fun ha => absurd (List.mem_singleton.1 ha).symm hb⟩
        rw [State.Backed] at hs ⊢
        rw [hbal, hsup]
        simpa [Prim.delta, hb] using hs
  | _ =>
      refine ⟨fun hs => ?_, fun ha => by simp [Prim.touched] at ha⟩
      rw [State.Backed] at hs ⊢
      rw [hbal, hsup]
      simpa [Prim.delta] using hs

/-- No primitive makes a supply negative. -/
theorem Prim.run_nonneg {p : Prim} (h : p.run E s = .ok s') (hs : ∀ a, 0 ≤ s.pool.noteSupplyOf a)
    (a : ℕ) : 0 ≤ s'.pool.noteSupplyOf a := by
  by_cases hta : a ∈ p.touched
  · exact ((Prim.run_backed h a).2 hta).2.1
  · rw [Prim.run_supply h]
    cases p with
    | adjust b d =>
        have hne : b ≠ a := fun hb => hta (by simp [Prim.touched, hb])
        simpa [Prim.delta, hne] using hs a
    | _ => simpa [Prim.delta] using hs a

/-- What a list of primitives adjusts is registered and backed at its end. -/
theorem runPrims_backed {ps : List Prim} (h : runPrims E ps s = .ok s') {a : ℕ}
    (ha : a ∈ ps.flatMap Prim.touched) : s'.pool.assetToken a ≠ 0 ∧ s'.Backed E a := by
  induction ps generalizing s with
  | nil => simp at ha
  | cons p ps ih =>
      obtain ⟨s₁, h1, h2⟩ := (runPrims_cons E).1 h
      rw [List.flatMap_cons, List.mem_append] at ha
      rcases ha with ha | ha
      · obtain ⟨hne, hb⟩ := (Prim.run_backed h1 a).2 ha
        refine ⟨?_, runPrims_induct (fun q _ t t' ht hq => (Prim.run_backed hq a).1 ht) h2 hb⟩
        rw [(runPrims_config h2).pool]
        exact hne
      · exact ih h2 ha

end

/-! ## The invariant -/

/-- The asset that a suspended call is about to debit, its tokens gone. -/
def Kont.asset : Kont → Option ℕ
  | .transferred _ _ _ assetId _ _ => some assetId
  | .burning _ _ _ burn => some burn.assetId
  | _ => none

/-- A suspended call moves the token of the asset it will debit. -/
def Kont.Named (E : Env) (s : State) : Kont → Prop
  | .transferring token _ _ assetId _ _ => s.pool.assetToken assetId = token
  | .approving _ _ _ burn => burn.assetId = E.addressHash s.pool.usdcToken
  | .burning token _ _ burn => burn.assetId = E.addressHash token
  | .transferred .. => True

/-- No supply is negative, an unregistered asset has none, and a registered one is backed unless a
suspended call is about to debit it. -/
structure Reserve (E : Env) (K : List (Pending State (Entry E) Kont)) (s : State) : Prop where
  nonneg : ∀ a, 0 ≤ s.pool.noteSupplyOf a
  unregistered : ∀ a, s.pool.assetToken a = 0 → s.pool.noteSupplyOf a = 0
  backed : ∀ a, s.pool.assetToken a ≠ 0 →
    s.pool.noteSupplyOf a ≤ s.poolBalance E (s.pool.assetToken a) ∨ ∃ p ∈ K, p.kont.asset = some a
  konts : ∀ p ∈ K, p.kont.Named E s

section
variable {E : Env} {K : List (Pending State (Entry E) Kont)} {s s' : State}

/-- The names of a suspension point are those of the configuration. -/
theorem Kont.Named.congr {k : Kont} (hk : k.Named E s)
    (ht : s'.pool.assetToken = s.pool.assetToken) (hu : s'.pool.usdcToken = s.pool.usdcToken) :
    k.Named E s' := by
  cases k with
  | transferring => exact (congrFun ht _).trans hk
  | approving => exact Eq.trans hk (congrArg E.addressHash hu.symm)
  | burning => exact hk
  | transferred => trivial

/-- Primitives keep the invariant. -/
theorem Reserve.prims {ps : List Prim} (hI : Reserve E K s) (h : runPrims E ps s = .ok s') :
    Reserve E K s' := by
  refine runPrims_induct (fun p _ t t' ht hp => ?_) h hI
  have hcfg := Prim.run_config hp
  have htok : t'.pool.assetToken = t.pool.assetToken := by rw [hcfg.pool]
  refine ⟨Prim.run_nonneg hp ht.nonneg, fun a ha => ?_, fun a ha => ?_, fun q hq => ?_⟩
  · rw [htok] at ha
    rw [Prim.run_supply hp, ht.unregistered a ha, Prim.delta_unregistered hp ha, add_zero]
  · rw [htok] at ha
    rcases ht.backed a ha with hb | hb
    · exact .inl ((Prim.run_backed hp a).1 ⟨ht.nonneg a, hb⟩).2
    · exact .inr hb
  · exact (ht.konts q hq).congr htok (by rw [hcfg.pool])

/-- Balances that fall for the tokens of assets about to be debited only. -/
theorem Reserve.balances (hI : Reserve E K s) (b al : Address → Address → ℕ) (n : ℕ)
    (hb : ∀ a, s.pool.assetToken a ≠ 0 → s.poolBalance E (s.pool.assetToken a) ≤
      b (s.pool.assetToken a) E.pool ∨ ∃ p ∈ K, p.kont.asset = some a) :
    Reserve E K { s with balance := b, allowance := al, block := n } := by
  refine ⟨hI.nonneg, hI.unregistered, fun a ha => ?_, fun p hp => ?_⟩
  · rcases hI.backed a ha with h | h
    · rcases hb a ha with h' | h'
      · have : ((s.poolBalance E (s.pool.assetToken a) : ℕ) : ℤ) ≤ b (s.pool.assetToken a) E.pool := by
          exact_mod_cast h'
        exact .inl (le_trans h this)
      · exact .inr h'
    · exact .inr h
  · exact (hI.konts p hp).congr rfl rfl

/-- A configuration call, between transactions. -/
theorem Reserve.configured (hI : Reserve E K s) (hK : K = []) (hc : Configured s s') :
    Reserve E K s' := by
  subst hK
  rcases hc.assets with ⟨h1, h2⟩ | ⟨b, t, hnew, h1, h2⟩
  · refine ⟨by simpa [h2] using hI.nonneg, by simpa [h1, h2] using hI.unregistered, ?_, by simp⟩
    simpa [h1, h2, State.poolBalance, hc.balance] using hI.backed
  · refine ⟨fun a => ?_, fun a ha => ?_, fun a ha => .inl ?_, by simp⟩
    · rw [h2]
      by_cases hab : a = b
      · simp [hab]
      · simpa [hab] using hI.nonneg a
    · rw [h2]
      rw [h1] at ha
      by_cases hab : a = b
      · simp [hab]
      · rw [Function.update_of_ne hab] at ha ⊢
        exact hI.unregistered a ha
    · rw [h1] at ha
      rw [h1, h2, State.poolBalance, hc.balance]
      by_cases hab : a = b
      · simp [hab]
      · rw [Function.update_of_ne hab] at ha
        rw [Function.update_of_ne hab, Function.update_of_ne hab]
        simpa [State.poolBalance] using hI.backed a ha

/-- The assets of one token are one asset. -/
theorem ByHash.token_inj {a b : ℕ} (hC : ByHash E s) (ha : s.pool.assetToken a ≠ 0)
    (h : s.pool.assetToken b = s.pool.assetToken a) : b = a :=
  calc b = E.addressHash (s.pool.assetToken b) := hC b (by rwa [h])
    _ = E.addressHash (s.pool.assetToken a) := by rw [h]
    _ = a := (hC a ha).symm

/-- What the transfer of a suspended payout leaves for other tokens. -/
theorem moveTokens_of_ne {token recipient t : Address} {amount : ℕ} (h : t ≠ token) :
    s.moveTokens E token recipient amount t E.pool = s.poolBalance E t := by
  simp [State.moveTokens, State.poolBalance, h]

/-- What the transfer of a suspended payout takes from its own token. -/
theorem le_moveTokens (token recipient : Address) (amount : ℕ) :
    s.poolBalance E token ≤ s.moveTokens E token recipient amount token E.pool + amount := by
  by_cases hr : recipient = E.pool
  · simp [State.moveTokens, State.poolBalance, hr]
    omega
  · simp only [State.moveTokens, State.poolBalance, Function.update_self,
      Function.update_of_ne (Ne.symm hr)]
    omega

/-- A call that is suspended. -/
theorem Reserve.suspend (hI : Reserve E K s') {p : Pending State (Entry E) Kont}
    (hp : p.kont.Named E s') : Reserve E (p :: K) s' := by
  refine ⟨hI.nonneg, hI.unregistered, fun a ha => ?_, fun q hq => ?_⟩
  · rcases hI.backed a ha with hb | ⟨q, hq, hqa⟩
    · exact .inl hb
    · exact .inr ⟨q, by simp [hq], hqa⟩
  · rcases List.mem_cons.1 hq with rfl | hq
    · exact hp
    · exact hI.konts q hq

/-- A suspended call that was not about to debit goes on to another suspension. -/
theorem Reserve.advance {p : Pending State (Entry E) Kont} {k : Kont} (hI : Reserve E (p :: K) s)
    (hnone : p.kont.asset = none) (hk : k.Named E s) : Reserve E (p.advance k :: K) s := by
  have hrest : Reserve E K s := by
    refine ⟨hI.nonneg, hI.unregistered, fun a ha => ?_, fun q hq => hI.konts q (by simp [hq])⟩
    rcases hI.backed a ha with hb | ⟨q, hq, hqa⟩
    · exact .inl hb
    · rcases List.mem_cons.1 hq with rfl | hq
      · rw [hnone] at hqa
        cases hqa
      · exact .inr ⟨q, hq, hqa⟩
  exact hrest.suspend hk

/-- What a call names when it is suspended. -/
theorem Call.kont_named {sender : Address} {call : Call} (hc : call.Checks E sender s) {k : Kont}
    (hk : some k = call.kont s) : k.Named E s := by
  cases call with
  | withdraw => cases hk; rfl
  | rfqSettle => cases hk; rfl
  | withdrawCctp => cases hk; exact hc.2.1
  | _ => cases hk

/-- A call that ends has debited its own asset; another one waits for a call below it. -/
theorem Reserve.finish {p : Pending State (Entry E) Kont} (hI : Reserve E (p :: K) s)
    (hrun : runPrims E p.kont.prims (p.kont.tokens E s) = .ok s') (hk : none = p.kont.next s) :
    Reserve E K s' := by
  obtain ⟨htok, a, hpa, hta⟩ : p.kont.tokens E s = s ∧ ∃ a, p.kont.asset = some a ∧
      a ∈ p.kont.prims.flatMap Prim.touched := by
    cases hp : p.kont with
    | transferred => exact ⟨rfl, _, rfl, by simp [Kont.prims, Prim.touched]⟩
    | burning => exact ⟨rfl, _, rfl, by simp [Kont.prims, Prim.touched]⟩
    | _ => simp [hp, Kont.next] at hk
  rw [htok] at hrun
  have hI' := hI.prims hrun
  refine ⟨hI'.nonneg, hI'.unregistered, fun b hb => ?_, fun q hq => hI'.konts q (by simp [hq])⟩
  rcases hI'.backed b hb with hbk | ⟨q, hq, hqb⟩
  · exact .inl hbk
  · rcases List.mem_cons.1 hq with rfl | hq
    · obtain rfl : a = b := by simpa [hpa] using hqb
      exact .inl (runPrims_backed hrun hta).2.2
    · exact .inr ⟨q, hq, hqb⟩

/-- A call that goes on to its next suspension point. -/
theorem Reserve.resume {p : Pending State (Entry E) Kont} {k : Kont} (hI : Reserve E (p :: K) s)
    (hC : ByHash E s) (hrun : runPrims E p.kont.prims (p.kont.tokens E s) = .ok s')
    (hk : some k = p.kont.next s) : Reserve E (p.advance k :: K) s' := by
  have hnamed := hI.konts p (by simp)
  cases hp : p.kont with
  | transferring token recipient amount assetId debit event =>
      rw [hp] at hrun hk hnamed
      cases hrun
      cases hk
      have hrest : Reserve E (p.advance (.transferred token recipient amount assetId debit event) :: K)
          s := hI.advance (by rw [hp]; rfl) trivial
      refine hrest.balances _ s.allowance s.block fun a ha => ?_
      by_cases hat : s.pool.assetToken a = token
      · -- the only asset of this token is the one of the payout
        have hreg : s.pool.assetToken assetId = token := hnamed
        have hasset : assetId = a := hC.token_inj ha (hreg.trans hat.symm)
        exact .inr ⟨_, List.mem_cons_self, congrArg some hasset⟩
      · exact .inl (by rw [moveTokens_of_ne hat])
  | approving token spender pullAmount burn =>
      rw [hp] at hrun hk hnamed
      cases hrun
      cases hk
      have hrest : Reserve E (p.advance (.burning s.pool.usdcToken s.pool.tokenMessenger
          s.pool.cctpOutboundDomain burn) :: K) s := hI.advance (by rw [hp]; rfl) hnamed
      exact hrest.balances s.balance _ s.block fun a _ => .inl le_rfl
  | transferred => simp [hp, Kont.next] at hk
  | burning => simp [hp, Kont.next] at hk

/-- What happens outside takes no token out of the pool, but for the burn of a suspended call. -/
theorem Reserve.act (hreb : E.rebasing = false) (hI : Reserve E K s) (hC : ByHash E s) {a : Action}
    (h : (machine E).act K a s = some s') : Reserve E K s' := by
  rcases act_inv h with ⟨b, al, n, rfl, -, -, hbal⟩ | ⟨hK, hc⟩
  · refine hI.balances b al n fun a ha => ?_
    rcases hbal (s.pool.assetToken a) with hle | hr | ⟨p, hp, m, d, burn, hk⟩
    · exact .inl hle
    · rw [hreb] at hr
      cases hr
    · have hn := hI.konts p hp
      rw [hk] at hn
      refine .inr ⟨p, hp, ?_⟩
      rw [hk, Kont.asset, show burn.assetId = _ from hn, ← hC a ha]
  · exact hI.configured hK hc

/-- **The step lemma of the reserves.** -/
theorem preserves_reserve (hreb : E.rebasing = false) :
    PreservesIn (machine E) (ByHash E) fun K w => Reserve E K w.1 where
  enter_done _ _ hI h := hI.prims (machine_enter h).2.1
  enter _ _ hI h := by
    obtain ⟨hc, hrun, hk⟩ := machine_enter h
    have hcfg := runPrims_config hrun
    exact (hI.prims hrun).suspend
      ((Call.kont_named hc hk).congr (by rw [hcfg.pool]) (by rw [hcfg.pool]))
  resume_done _ _ hI h := by
    obtain ⟨hrun, hk, -⟩ := machine_resume h
    exact hI.finish hrun hk
  resume hC _ hI h := by
    obtain ⟨hrun, hk, -⟩ := machine_resume h
    exact hI.resume hC hrun hk
  act hC _ hI h := hI.act hreb hC h

end

/-! ## What calls name -/

/-- What a settled channel adds to the supply of `a`. -/
def settleDelta (a : ℕ) (pub : StreamSettlePub ℕ) : ℤ :=
  if pub.assetId = a then pub.cumulative + ((pub.cap - pub.cumulative : ℕ) : ℤ) else 0

/-- What a call names for the supply of `a`: the amount of a deposit, the value of a withdrawal, the
deltas of a stream. -/
def Call.named (s : State) (a : ℕ) : Call → ℤ
  | .receiveDeposit _ _ _ amount _ _ _ _ pub => if pub.assetIdHash = a then amount else 0
  | .withdraw _ _ pub => if pub.assetId = a then -pub.withdrawnValue else 0
  | .rfqSettle _ _ _ _ _ _ _ pub => if pub.assetId = a then -pub.withdrawnValue else 0
  | .withdrawCctp _ _ _ _ _ pub => if pub.assetId = a then -pub.withdrawnValue else 0
  | .streamInsert b _ delta => if b = a then delta else 0
  | .open _ pub => if pub.assetId = a then -pub.cap else 0
  | .settle _ pub => settleDelta a pub
  | .settleBatch _ pubs => (pubs.map (settleDelta a)).sum
  | .reclaim c => if (s.escrow.channels c).assetId = a then (s.escrow.channels c).cap else 0
  | _ => 0

/-- The primitives a finished call ran, before its first external call and after each of them. -/
def framePrims {E : Env} (f : Frame State (Entry E) Kont) : List Prim :=
  f.entry.call.prims E f.entry.sender f.pre ++ f.konts.flatMap Kont.prims

/-- Every recorded cap is canonical. -/
def CapsOk (s : State) : Prop := ∀ c, (s.escrow.channels c).cap < bn254

section
variable {E : Env} {s s' : State}

/-- Caps stay canonical words. -/
theorem CapsOk.prims {ps : List Prim} (hI : CapsOk s) (h : runPrims E ps s = .ok s')
    (hps : ∀ c ch, .openChannel c ch ∈ ps → ch.cap < bn254) : CapsOk s' := by
  refine runPrims_induct (fun p hp t t' ht hrun c => ?_) h hI
  by_cases hop : ∃ k ch, p = .openChannel k ch
  · obtain ⟨k, ch, rfl⟩ := hop
    simp only [Prim.run, bind_eq_ok, require_eq_ok, exists_unit, pure_eq_ok] at hrun
    obtain ⟨-, rfl⟩ := hrun
    by_cases hc : c = k
    · subst hc
      simpa [State.setChannel] using hps c ch hp
    · simpa [State.setChannel, hc] using ht c
  · push Not at hop
    rcases Prim.run_channels hop hrun c with h1 | h1
    · rw [h1]
      exact ht c
    · rw [h1]
      exact ht c

/-- Only `open` opens a channel, the one of its signals. -/
theorem Call.eq_open {x : Address} {call : Call} {c : ℕ} {ch : Channel}
    (hp : .openChannel c ch ∈ call.prims E x s) : ∃ proof pub, call = .open proof pub ∧
      c = pub.channelId ∧ ch = ⟨pub.payerAx, pub.payerAy, pub.cap, pub.expiry,
        pub.reclaimCommitment, pub.assetId, true, false⟩ := by
  cases call with
  | «open» proof pub =>
      simp only [Call.prims, List.mem_append, List.mem_cons, List.not_mem_nil, or_false, reduceCtorEq,
        false_or] at hp
      rcases hp with hp | hp
      · cases hp
        exact ⟨proof, pub, rfl, rfl, rfl⟩
      · exact absurd rfl (streamPrims_ne_openChannel hp c ch)
  | settle proof pub => exact absurd rfl (settlePrims_ne_openChannel hp c ch)
  | settleBatch proofs pubs =>
      obtain ⟨pub, -, hp⟩ := List.mem_flatMap.1 hp
      exact absurd rfl (settlePrims_ne_openChannel hp c ch)
  | reclaim k =>
      simp only [Call.prims, List.mem_cons, List.mem_append, List.not_mem_nil, or_false, reduceCtorEq,
        false_or] at hp
      exact absurd rfl (streamPrims_ne_openChannel hp c ch)
  | streamInsert a k d => exact absurd rfl (streamPrims_ne_openChannel hp c ch)
  | _ => simp [Call.prims, pairPrims] at hp

/-- The channels a call opens have canonical caps. -/
theorem Call.Checks.caps {x : Address} {call : Call} (h : call.Checks E x s) {c : ℕ} {ch : Channel}
    (hp : .openChannel c ch ∈ call.prims E x s) : ch.cap < bn254 := by
  obtain ⟨proof, pub, rfl, -, rfl⟩ := Call.eq_open hp
  exact E.lt_of_verifyProof h.2.2.2.2.1 _ (by simp [StreamOpenPub.toList])

/-- **Invariant.** The caps of the channels are canonical words. -/
theorem preserves_capsOk {C : State → Prop} :
    PreservesIn (machine E) C fun _ w => CapsOk w.1 := by
  refine preserves_calls (J := fun _ s => CapsOk s) (fun _ hI hc hrun => hI.prims hrun
    fun _ _ hp => hc.caps hp) (fun {l k s s'} _ hI hrun => ?_) fun _ hI h => ?_
  · refine CapsOk.prims (s := k.tokens E s) ?_ hrun (fun c ch hp => ?_)
    · cases k <;> exact hI
    · cases k <;> simp [Kont.prims] at hp
  · rcases act_inv h with ⟨b, al, n, rfl, -⟩ | ⟨-, hc⟩
    · exact hI
    · rw [CapsOk, hc.channels]
      exact hI

/-- An insertion for a channel names its own delta. -/
theorem streamPrims_delta (b c a : ℕ) (d : ℤ) :
    ((streamPrims b c d).map (Prim.delta a)).sum = if b = a then d else 0 := by
  by_cases hd : d = 0
  · simp [streamPrims, hd, Prim.delta]
  · simp [streamPrims, hd, Prim.delta]

/-- A settlement names the cap of its channel. -/
theorem settlePrims_delta {pub : StreamSettlePub ℕ} (hcap : pub.cap < bn254)
    (hle : pub.cumulative ≤ pub.cap) (a : ℕ) :
    ((settlePrims pub).map (Prim.delta a)).sum = settleDelta a pub := by
  have h1 : int256 pub.cumulative = pub.cumulative := int256_of_lt (by omega)
  have h2 : int256 (pub.cap - pub.cumulative) = ((pub.cap - pub.cumulative : ℕ) : ℤ) :=
    int256_of_lt (by omega)
  simp only [settlePrims, List.map_cons, List.map_append, List.sum_cons, List.sum_append,
    streamPrims_delta, h1, h2, settleDelta, Prim.delta, List.map_nil, List.sum_nil]
  split <;> ring

/-- A settlement that passes its checks names the cap of its channel. -/
theorem SettleChecks.delta {proof : Groth16Proof} {pub : StreamSettlePub ℕ}
    (h : SettleChecks E s proof pub) (a : ℕ) :
    ((settlePrims pub).map (Prim.delta a)).sum = settleDelta a pub :=
  settlePrims_delta (E.lt_of_verifyProof h.verified _ (by simp [StreamSettlePub.toList])) h.cumulative a

/-- **The deltas of a call without external calls** are what it names. -/
theorem Call.Checks.delta {x : Address} {call : Call} (h : call.Checks E x s) (hcaps : CapsOk s)
    (hk : call.kont s = none) (a : ℕ) :
    ((call.prims E x s).map (Prim.delta a)).sum = call.named s a := by
  cases call with
  | receiveDeposit d n t amount c enc pol proof pub =>
      obtain ⟨-, -, -, -, -, -, h7, -, -, -, -, -, -, -, hver⟩ := h
      have : amount < bn254 := h7 ▸ E.lt_of_verifyProof hver _ (by simp [DepositPub.toList])
      simp [Call.prims, Call.named, Prim.delta, int256_of_lt this]
  | streamInsert b c d => exact streamPrims_delta b c a d
  | «open» proof pub =>
      have hcap : pub.cap < bn254 :=
        E.lt_of_verifyProof h.2.2.2.2.1 _ (by simp [StreamOpenPub.toList])
      simp [Call.prims, Call.named, Prim.delta, streamPrims_delta, int256_of_lt hcap]
  | settle proof pub => exact SettleChecks.delta h a
  | settleBatch proofs pubs =>
      obtain ⟨hlen, hall⟩ := h
      have hsnd : (proofs.zip pubs).map Prod.snd = pubs := List.map_snd_zip hlen.ge
      have hpub : ∀ pub ∈ pubs, ((settlePrims pub).map (Prim.delta a)).sum = settleDelta a pub := by
        intro pub hp
        rw [← hsnd] at hp
        obtain ⟨q, hq, rfl⟩ := List.mem_map.1 hp
        exact (hall q hq).delta a
      rw [Call.prims, Call.named, List.map_flatMap, List.flatMap, List.sum_flatten, List.map_map]
      exact congrArg List.sum (List.map_congr_left hpub)
  | reclaim c => simp [Call.prims, Call.named, Prim.delta, streamPrims_delta, int256_of_lt (hcaps c)]
  | withdraw => cases hk
  | rfqSettle => cases hk
  | withdrawCctp => cases hk
  | _ => simp [Call.prims, Call.named, Prim.delta, pairPrims]

/-- A call with external calls adjusts nothing before its last suspension point. -/
theorem Suspended.idle {call : Call} {pre : State} {ks : List Kont} {k : Kont}
    (h : Suspended call pre ks k) (E : Env) (x : Address) :
    (∀ p ∈ call.prims E x pre, ∃ y n, p = .spend y n) ∧ ks.flatMap Kont.prims = [] := by
  refine ⟨?_, ?_⟩
  · have hk : call.kont pre ≠ none := h.kont_ne
    cases call with
    | withdraw => simp [Call.prims]
    | rfqSettle => simp [Call.prims]
    | withdrawCctp => simp [Call.prims]
    | _ => exact absurd rfl hk
  · cases h with
    | first => rfl
    | next _ h' => simp [Kont.prims_of_next (by rw [h']; simp)]

/-- A call that is suspended has not moved the supply yet. -/
theorem Suspended.delta_prims {call : Call} {pre : State} {ks : List Kont} {k : Kont}
    (h : Suspended call pre ks k) (E : Env) (x : Address) (a : ℕ) :
    ((call.prims E x pre).map (Prim.delta a)).sum = 0 := by
  refine List.sum_eq_zero fun d hd => ?_
  obtain ⟨p, hp, rfl⟩ := List.mem_map.1 hd
  obtain ⟨y, n, rfl⟩ := (h.idle E x).1 p hp
  rfl

/-- **The deltas of a call with external calls** are what it names. -/
theorem Suspended.delta {x : Address} {call : Call} {pre t : State} {ks : List Kont} {k : Kont}
    (h : Suspended call pre ks k) (hk : k.next t = none) (hc : call.Checks E x pre) (a : ℕ) :
    (k.prims.map (Prim.delta a)).sum = call.named pre a := by
  have hval : ∀ {op : ℤ} {proof : Groth16Proof} {pub : WithdrawPub ℕ},
      WithdrawChecks E pre op proof pub → int256 pub.withdrawnValue = pub.withdrawnValue :=
    fun h => int256_of_lt (E.lt_of_verifyProof h.verified _ (by simp [WithdrawPub.toList]))
  cases h with
  | first h => cases call <;> cases h <;> cases hk
  | next h h' =>
      cases call with
      | withdraw =>
          cases h
          cases h'
          simp [Kont.prims, Prim.delta, Call.named, hval hc.1]
      | rfqSettle =>
          cases h
          cases h'
          simp [Kont.prims, Prim.delta, Call.named, hval hc.1]
      | withdrawCctp =>
          cases h
          cases h'
          simp [Kont.prims, Prim.delta, Call.named, hval hc.1]
      | _ => cases h

end

/-! ## Runs -/

section
variable {E : Env} {s₀ : State} {K K' : List (Pending State (Entry E) Kont)}
  {w w' : World State (Entry E) Kont}

theorem Deployed.byHash (hd : Deployed E s₀) : ByHash E s₀ := fun a ha =>
  absurd (hd.spec.2.2.2.1 a).2 ha

/-- There is no supply at the start. -/
theorem Deployed.reserve (hd : Deployed E s₀) : Reserve E [] s₀ := by
  obtain ⟨-, -, -, hzero, -⟩ := hd.spec
  refine ⟨fun a => (hzero a).1.ge, fun a _ => (hzero a).1, fun a ha => absurd (hzero a).2 ha, by simp⟩

/-- There is no channel at the start. -/
theorem Deployed.capsOk (hd : Deployed E s₀) : CapsOk s₀ := fun c => by
  rw [hd.spec.2.2.2.2 c]
  decide

/-- **The supply is a sum.** Over any stretch of a run, each supply changes by exactly what the calls
finished in it name. -/
theorem supply_sum (hd : Deployed E s₀) (hreb : E.rebasing = false)
    (h : Reach ((machine E).within (ByHash E)) [] (s₀, []) K w)
    (h' : Reach ((machine E).within (ByHash E)) K w K' w') :
    ∃ fs, w'.2 = w.2 ++ fs ∧ ∀ a, w'.1.pool.noteSupplyOf a =
      w.1.pool.noteSupplyOf a + (fs.map fun f => f.entry.call.named f.pre a).sum := by
  -- what is known of every configuration on the way
  have hall : ∀ {K₁ w₁}, Reach ((machine E).within (ByHash E)) K w K₁ w₁ →
      FramesOk (ByHash E) K₁ w₁ ∧ Reserve E K₁ w₁.1 ∧ CapsOk w₁.1 ∧ ∀ p ∈ K₁, CapsOk p.pre := by
    intro K₁ w₁ h₁
    have h₂ := h.trans h₁
    have hcaps := preserves_capsOk.pre.reach hd.byHash ⟨hd.capsOk, by simp, by simp⟩ h₂
    exact ⟨framesOk_reach hd.byHash h₂, ((preserves_reserve hreb).reach hd.byHash hd.reserve h₂).2,
      hcaps.2.1, hcaps.2.2.2⟩
  induction h' with
  | refl => exact ⟨[], by simp, by simp⟩
  | enter_done hr he ih =>
      rename_i K₁ s tr e s'
      obtain ⟨fs, hfs, hsum⟩ := ih
      obtain ⟨hc, hrun, hk⟩ := machine_enter (within_enter.1 he).1
      dsimp only at hfs hsum
      refine ⟨fs ++ [⟨e, s, s', []⟩], by simp only [hfs, List.append_assoc], fun a => ?_⟩
      rw [runPrims_supply hrun a, hsum a, hc.delta (hall hr).2.2.1 hk.symm a]
      simp [add_assoc]
  | enter hr he ih =>
      obtain ⟨fs, hfs, hsum⟩ := ih
      obtain ⟨hc, hrun, hk⟩ := machine_enter (within_enter.1 he).1
      refine ⟨fs, hfs, fun a => ?_⟩
      rw [runPrims_supply hrun a, hsum a, (Suspended.first hk.symm).delta_prims, add_zero]
  | resume_done hr hres ih =>
      rename_i K₁ p s tr s'
      obtain ⟨fs, hfs, hsum⟩ := ih
      obtain ⟨hrun, hk, -⟩ := machine_resume (within_resume.1 hres).1
      obtain ⟨-, hc, hsus⟩ := (hall hr).1.pending p (by simp)
      dsimp only at hfs hsum
      refine ⟨fs ++ [p.finish s'], by simp only [hfs, List.append_assoc], fun a => ?_⟩
      have hsame : (p.kont.tokens E s).pool.noteSupplyOf = s.pool.noteSupplyOf := by
        cases p.kont <;> rfl
      rw [runPrims_supply hrun a, hsame, hsum a, hsus.delta hk.symm hc a]
      simp [Pending.finish, add_assoc]
  | resume hr hres ih =>
      rename_i K₁ p s tr s' k
      obtain ⟨fs, hfs, hsum⟩ := ih
      obtain ⟨hrun, hk, -⟩ := machine_resume (within_resume.1 hres).1
      refine ⟨fs, hfs, fun a => ?_⟩
      have hsame : (p.kont.tokens E s).pool.noteSupplyOf = s.pool.noteSupplyOf := by
        cases p.kont <;> rfl
      rw [runPrims_supply hrun a, hsame, hsum a, Kont.prims_of_next (by rw [← hk]; simp)]
      simp
  | act hr ha ih =>
      obtain ⟨fs, hfs, hsum⟩ := ih
      refine ⟨fs, hfs, fun a => ?_⟩
      rcases act_inv (within_act.1 ha).1 with ⟨b, al, n, rfl, -⟩ | ⟨-, hc⟩
      · exact hsum a
      · rcases hc.assets with ⟨-, h2⟩ | ⟨b, t, hnew, -, h2⟩
        · rw [h2]
          exact hsum a
        · -- a newly registered asset had no supply
          rw [h2, ← hsum a]
          by_cases hab : a = b
          · subst hab
            rw [Function.update_self, (hall hr).2.1.unregistered a hnew]
          · rw [Function.update_of_ne hab]

/-- **Reserves over runs.** The tokens are not rebasing and each is registered under its own hash;
tokens and messenger may re-enter. After every call that succeeds, nested or not, each asset whose
supply it adjusted is registered and backed; between transactions every registered asset is backed;
and over every stretch of the run, an outermost call for one, each supply changes by exactly the sum
of what the calls finished in it name. -/
theorem reserve_run (hd : Deployed E s₀) (hreb : E.rebasing = false)
    (h : Reach ((machine E).within (ByHash E)) [] (s₀, []) K w) :
    (∀ f ∈ w.2, ∀ a ∈ (framePrims f).flatMap Prim.touched,
      f.post.pool.assetToken a ≠ 0 ∧ f.post.Backed E a) ∧
    (K = [] → ∀ a, w.1.pool.assetToken a ≠ 0 → w.1.Backed E a) ∧
    ∀ K' w', Reach ((machine E).within (ByHash E)) K w K' w' →
      ∃ fs, w'.2 = w.2 ++ fs ∧ ∀ a, w'.1.pool.noteSupplyOf a =
        w.1.pool.noteSupplyOf a + (fs.map fun f => f.entry.call.named f.pre a).sum := by
  refine ⟨fun f hf a ha => ?_, fun hK a ha => ?_, fun K' w' h' => supply_sum hd hreb h h'⟩
  · obtain ⟨-, -, hfin⟩ := (framesOk_reach hd.byHash h).finished f hf
    rcases hfin with ⟨hks, -, hrun⟩ | ⟨ks, k, s, hks, -, hsus, hrun⟩
    · rw [framePrims, hks, List.flatMap_nil, List.append_nil] at ha
      exact runPrims_backed hrun ha
    · obtain ⟨hspend, hidle⟩ := hsus.idle E f.entry.sender
      have hlast : (ks ++ [k]).flatMap Kont.prims = k.prims := by simp [hidle]
      rw [framePrims, hks, hlast, List.flatMap_append, List.mem_append] at ha
      rcases ha with ha | ha
      · obtain ⟨p, hp, hpa⟩ := List.mem_flatMap.1 ha
        obtain ⟨y, n, rfl⟩ := hspend p hp
        simp [Prim.touched] at hpa
      · exact runPrims_backed hrun ha
  · have hR := ((preserves_reserve hreb).reach hd.byHash hd.reserve h).2
    rcases hR.backed a ha with hb | ⟨p, hp, -⟩
    · exact ⟨hR.nonneg a, hb⟩
    · simp [hK] at hp

/-- A deposit of 100 and a withdrawal of 60: the supply is the sum of what the two calls name, and it
is backed. -/
theorem reserve_run_withdrawal :
    (runFrom withdrawal withdrawalRun).1.pool.noteSupplyOf 11 = 40 ∧
    (runFrom withdrawal withdrawalRun).1.Backed (sampleEnv withdrawal) 11 ∧
    (runFrom withdrawal withdrawalRun).1.pool.noteSupplyOf 11 =
      ((runFrom withdrawal withdrawalRun).2.map fun f => f.entry.call.named f.pre 11).sum := by
  have hrun := @reach_run withdrawal (ByHash (sampleEnv withdrawal)) (fun t ht => ht.byHash)
    withdrawalRun
  obtain ⟨fs, hfs, hsum⟩ := (reserve_run deployed_fresh rfl .refl).2.2 _ _ hrun
  rw [List.nil_append] at hfs
  refine ⟨withdrawalRun_result.2.1, (reserve_run deployed_fresh rfl hrun).2.1 rfl 11
    (by decide), ?_⟩
  rw [hfs, hsum 11, (deployed_fresh.spec.2.2.2.1 11).1, zero_add]

end

end ShadePay.Evm
