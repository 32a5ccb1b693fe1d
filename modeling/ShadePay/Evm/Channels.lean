import ShadePay.Evm.Supply

/-!
# The life of a channel

What a run does to one channel is a list of operations, `opsOf`. `Lifecycle` relates that list to the
channel's record in storage: a channel is opened once and consumed once, by a settlement that carries
the recorded parameters or by a late reclaim. `lifecycle_reach` is the invariant over runs and
`channel_lifecycle` what follows from it, with the supply the channel moves at each point of its life.
-/

namespace ShadePay.Evm

open Guard Reentrancy

/-! ## Operations on channels -/

/-- An operation on one channel. -/
inductive ChannelOp where
  | opened (ch : Channel)
  | settled (pub : StreamSettlePub ℕ)
  | reclaimed (ch : Channel) (block : ℕ)
deriving DecidableEq

/-- The asset whose supply an operation moves. -/
def ChannelOp.assetId : ChannelOp → ℕ
  | .opened ch => ch.assetId
  | .settled pub => pub.assetId
  | .reclaimed ch _ => ch.assetId

/-- What an operation adds to that supply. -/
def ChannelOp.delta : ChannelOp → ℤ
  | .opened ch => -ch.cap
  | .settled pub => pub.cumulative + ((pub.cap - pub.cumulative : ℕ) : ℤ)
  | .reclaimed ch _ => ch.cap

/-- The channel record `open` writes. -/
def openedChannel (pub : StreamOpenPub ℕ) : Channel :=
  ⟨pub.payerAx, pub.payerAy, pub.cap, pub.expiry, pub.reclaimCommitment, pub.assetId, true, false⟩

/-- The operations of a call, with the channels they are on. -/
def Call.channelOps (s : State) : Call → List (ℕ × ChannelOp)
  | .open _ pub => [(pub.channelId, .opened (openedChannel pub))]
  | .settle _ pub => [(pub.channelId, .settled pub)]
  | .settleBatch _ pubs => pubs.map fun pub => (pub.channelId, .settled pub)
  | .reclaim c => [(c, .reclaimed (s.escrow.channels c) s.block)]
  | _ => []

/-- Those of a list of operations that are on channel `c`. -/
def onChannel (c : ℕ) (ops : List (ℕ × ChannelOp)) : List ChannelOp :=
  (ops.filter (·.1 = c)).map (·.2)

/-- What the finished calls of a run did to channel `c`. -/
def opsOf {E : Env} (c : ℕ) (tr : List (Frame State (Entry E) Kont)) : List ChannelOp :=
  tr.flatMap fun f => onChannel c (f.entry.call.channelOps f.pre)

/-- The operations on a channel so far, against its record. -/
inductive Lifecycle (E : Env) : List ChannelOp → Channel → Prop
  | unopened : Lifecycle E [] .zero
  | opened {ch : Channel} : ch.opened = true → ch.consumed = false → Lifecycle E [.opened ch] ch
  | settled {ch : Channel} {pub : StreamSettlePub ℕ} : ch.opened = true → ch.consumed = false →
      pub.payerAx = ch.payerAx → pub.payerAy = ch.payerAy → pub.cap = ch.cap →
      pub.assetId = ch.assetId → pub.cumulative ≤ pub.cap →
      Lifecycle E [.opened ch, .settled pub] { ch with consumed := true }
  | reclaimed {ch : Channel} {block : ℕ} : ch.opened = true → ch.consumed = false →
      ch.expiry + E.challengeWindow < block →
      Lifecycle E [.opened ch, .reclaimed ch block] { ch with consumed := true }

section
variable {E : Env}

/-- A channel that is not open has no past. -/
theorem Lifecycle.eq_nil {ops : List ChannelOp} {ch : Channel} (h : Lifecycle E ops ch)
    (hop : ch.opened = false) : ops = [] := by
  cases h with
  | unopened => rfl
  | opened h => simp [h] at hop
  | settled h => simp [h] at hop
  | reclaimed h => simp [h] at hop

/-- An open channel that is not consumed has only been opened. -/
theorem Lifecycle.eq_opened {ops : List ChannelOp} {ch : Channel} (h : Lifecycle E ops ch)
    (hop : ch.opened = true) (hcon : ch.consumed = false) : ops = [.opened ch] := by
  cases h with
  | unopened => cases hop
  | opened => rfl
  | settled => cases hcon
  | reclaimed => cases hcon

/-! ## One call -/

variable {s s' : State}

/-- Primitives that neither open nor consume leave the channels alone. -/
theorem runPrims_channels {ps : List Prim} (h : runPrims E ps s = .ok s')
    (hps : ∀ p ∈ ps, (∀ c ch, p ≠ .openChannel c ch) ∧ ∀ c, p ≠ .consume c) :
    s'.escrow.channels = s.escrow.channels := by
  refine runPrims_induct (I := fun t => t.escrow.channels = s.escrow.channels)
    (fun p hp t t' ht hrun => ?_) h rfl
  obtain ⟨h1, h2⟩ := hps p hp
  rw [← ht]
  cases p with
  | spend x k =>
      obtain ⟨-, rfl⟩ := State.spend_eq_ok.1 hrun
      rfl
  | insert leaf =>
      simp only [Prim.run, bind_eq_ok, Prod.exists, pure_eq_ok] at hrun
      obtain ⟨i, _, hrun, rfl⟩ := hrun
      obtain ⟨u, -, rfl⟩ := State.insert_eq_ok.1 hrun
      rfl
  | adjust a d =>
      obtain ⟨-, rfl⟩ := State.adjustNoteSupply_eq_ok.1 hrun
      rfl
  | deposit n =>
      cases hrun
      rfl
  | openChannel c ch => exact absurd rfl (h1 c ch)
  | consume c => exact absurd rfl (h2 c)
  | emit e =>
      cases hrun
      rfl

theorem streamPrims_idle {a c : ℕ} {d : ℤ} {p : Prim} (hp : p ∈ streamPrims a c d) :
    (∀ k ch, p ≠ .openChannel k ch) ∧ ∀ k, p ≠ .consume k := by
  refine ⟨streamPrims_ne_openChannel hp, ?_⟩
  rintro k rfl
  simp only [streamPrims, List.mem_append, List.mem_singleton, reduceCtorEq, or_false] at hp
  split at hp <;> simp at hp

/-- A list that consumes one channel and then leaves the channels alone. -/
theorem runPrims_consume {c : ℕ} {ps : List Prim} (h : runPrims E (.consume c :: ps) s = .ok s')
    (hps : ∀ p ∈ ps, (∀ c ch, p ≠ .openChannel c ch) ∧ ∀ c, p ≠ .consume c) :
    (s.escrow.channels c).opened = true ∧ (s.escrow.channels c).consumed = false ∧
      s'.escrow.channels = Function.update s.escrow.channels c
        { s.escrow.channels c with consumed := true } := by
  obtain ⟨s₁, h1, h2⟩ := (runPrims_cons E).1 h
  simp only [Prim.run, bind_eq_ok, require_eq_ok, exists_unit, pure_eq_ok] at h1
  obtain ⟨hop, hcon, rfl⟩ := h1
  exact ⟨hop, hcon, runPrims_channels h2 hps⟩

/-- One settlement consumes its channel and touches no other. -/
theorem settlePrims_channels {pub : StreamSettlePub ℕ} (h : runPrims E (settlePrims pub) s = .ok s') :
    (s.escrow.channels pub.channelId).opened = true ∧
      (s.escrow.channels pub.channelId).consumed = false ∧
      s'.escrow.channels = Function.update s.escrow.channels pub.channelId
        { s.escrow.channels pub.channelId with consumed := true } := by
  refine runPrims_consume h fun p hp => ?_
  simp only [List.mem_append, List.mem_cons, List.not_mem_nil, or_false] at hp
  rcases hp with (hp | hp) | rfl
  · exact streamPrims_idle hp
  · exact streamPrims_idle hp
  · simp

/-- The lives of all channels. -/
def Lives (E : Env) (ops : ℕ → List ChannelOp) (s : State) : Prop :=
  ∀ c, Lifecycle E (ops c) (s.escrow.channels c)

theorem onChannel_append (c : ℕ) (l₁ l₂ : List (ℕ × ChannelOp)) :
    onChannel c (l₁ ++ l₂) = onChannel c l₁ ++ onChannel c l₂ := by
  simp [onChannel]

/-- One more operation on channel `k`. -/
theorem Lives.cons {ops : ℕ → List ChannelOp} {k : ℕ} {op : ChannelOp} {ch : Channel}
    (hI : Lives E ops s) (hch : s'.escrow.channels = Function.update s.escrow.channels k ch)
    (hk : Lifecycle E (ops k ++ [op]) ch) :
    Lives E (fun c => ops c ++ onChannel c [(k, op)]) s' := by
  intro c
  rw [hch]
  by_cases hc : c = k
  · subst hc
    simpa [onChannel] using hk
  · simpa [onChannel, hc, Ne.symm hc] using hI c

/-- Settlements whose parameters are the recorded ones. -/
theorem Lives.settles {pubs : List (StreamSettlePub ℕ)} {ops : ℕ → List ChannelOp}
    (hI : Lives E ops s) (h : runPrims E (pubs.flatMap settlePrims) s = .ok s')
    (hc : ∀ pub ∈ pubs, pub.payerAx = (s.escrow.channels pub.channelId).payerAx ∧
      pub.payerAy = (s.escrow.channels pub.channelId).payerAy ∧
      pub.cap = (s.escrow.channels pub.channelId).cap ∧
      pub.assetId = (s.escrow.channels pub.channelId).assetId ∧ pub.cumulative ≤ pub.cap) :
    Lives E (fun c => ops c ++ onChannel c (pubs.map fun pub => (pub.channelId, .settled pub))) s' := by
  induction pubs generalizing s ops with
  | nil =>
      cases h
      simpa [onChannel] using hI
  | cons pub pubs ih =>
      rw [List.flatMap_cons, runPrims_append] at h
      obtain ⟨s₁, h1, h2⟩ := h
      obtain ⟨hop, hcon, hch⟩ := settlePrims_channels h1
      obtain ⟨hax, hay, hcap, hasset, hle⟩ := hc pub (by simp)
      have hI₁ : Lives E (fun c => ops c ++ onChannel c [(pub.channelId, .settled pub)]) s₁ := by
        refine hI.cons hch ?_
        rw [(hI pub.channelId).eq_opened hop hcon]
        exact .settled hop hcon hax hay hcap hasset hle
      -- a settlement changes no recorded parameter
      have hrest := @ih s₁ _ hI₁ h2 (fun q hq => by
        have := hc q (by simp [hq])
        rw [hch]
        by_cases hqk : q.channelId = pub.channelId
        · rw [hqk] at this ⊢
          simpa using this
        · simpa [hqk] using this)
      intro c
      have := hrest c
      dsimp only at this
      rw [List.append_assoc, ← onChannel_append] at this
      exact this

/-- **One call.** Its operations are added to the channels' lives. -/
theorem Lives.call {x : Address} {call : Call} {ops : ℕ → List ChannelOp} (hI : Lives E ops s)
    (hc : call.Checks E x s) (h : runPrims E (call.prims E x s) s = .ok s') :
    Lives E (fun c => ops c ++ onChannel c (call.channelOps s)) s' := by
  have hidle : ∀ {call' : Call}, call'.channelOps s = [] →
      (∀ p ∈ call'.prims E x s, (∀ c ch, p ≠ .openChannel c ch) ∧ ∀ c, p ≠ .consume c) →
      runPrims E (call'.prims E x s) s = .ok s' →
      Lives E (fun c => ops c ++ onChannel c (call'.channelOps s)) s' := by
    intro call' hnil hps hrun c
    rw [runPrims_channels hrun hps, hnil]
    simpa [onChannel] using hI c
  cases call with
  | «open» proof pub =>
      simp only [Call.prims, runPrims_append, runPrims_cons, runPrims_nil, Except.ok.injEq] at h
      obtain ⟨s₃, ⟨s₂, ⟨s₁, h1, t, h2, rfl⟩, h3⟩, u, h4, rfl⟩ := h
      have hs₁ : s₁.escrow.channels = s.escrow.channels := by
        obtain ⟨-, rfl⟩ := State.spend_eq_ok.1 h1
        rfl
      simp only [Prim.run, bind_eq_ok, require_eq_ok, exists_unit, pure_eq_ok] at h2
      obtain ⟨hop, rfl⟩ := h2
      rw [hs₁] at hop
      have hch : u.escrow.channels = Function.update s.escrow.channels pub.channelId
          (openedChannel pub) := by
        cases h4
        rw [← hs₁]
        exact runPrims_channels h3 fun p hp => streamPrims_idle hp
      refine hI.cons hch ?_
      rw [(hI pub.channelId).eq_nil hop]
      exact .opened rfl rfl
  | settle proof pub =>
      refine @Lives.settles E s s' [pub] ops hI (by simpa [Call.prims] using h) ?_
      rintro q hq
      obtain rfl := List.mem_singleton.1 hq
      exact ⟨hc.payerAx, hc.payerAy, hc.cap, hc.assetId, hc.cumulative⟩
  | settleBatch proofs pubs =>
      obtain ⟨hlen, hall⟩ := hc
      refine hI.settles h fun pub hp => ?_
      have hsnd : (proofs.zip pubs).map Prod.snd = pubs := List.map_snd_zip hlen.ge
      rw [← hsnd] at hp
      obtain ⟨q, hq, rfl⟩ := List.mem_map.1 hp
      have := hall q hq
      exact ⟨this.payerAx, this.payerAy, this.cap, this.assetId, this.cumulative⟩
  | reclaim k =>
      obtain ⟨hop, hcon, hblk, -⟩ := hc
      have hch := (runPrims_consume h fun p hp => by
        simp only [List.mem_append, List.mem_cons, List.not_mem_nil, or_false] at hp
        rcases hp with hp | rfl
        · exact streamPrims_idle hp
        · simp).2.2
      refine hI.cons hch ?_
      rw [(hI k).eq_opened hop hcon]
      exact .reclaimed hop hcon hblk
  | streamInsert a c d => exact hidle rfl (fun p hp => streamPrims_idle hp) h
  | _ => exact hidle rfl (by simp [Call.prims, pairPrims]) h

/-! ## Runs -/

variable {s₀ : State} {K K' : List (Pending State (Entry E) Kont)}
  {w w' : World State (Entry E) Kont}

theorem opsOf_concat (c : ℕ) (tr : List (Frame State (Entry E) Kont))
    (f : Frame State (Entry E) Kont) :
    opsOf c (tr ++ [f]) = opsOf c tr ++ onChannel c (f.entry.call.channelOps f.pre) := by
  simp [opsOf]

/-- A call with external calls has no channel operation. -/
theorem Suspended.channelOps {call : Call} {pre : State} {ks : List Kont} {k : Kont}
    (h : Suspended call pre ks k) : call.channelOps pre = [] := by
  have hk : call.kont pre ≠ none := h.kont_ne
  cases call with
  | withdraw => rfl
  | rfqSettle => rfl
  | withdrawCctp => rfl
  | _ => exact absurd rfl hk

/-- Going on after an external call leaves the channels alone. -/
theorem resume_channels {k : Kont} {s s' : State} (h : runPrims E k.prims (k.tokens E s) = .ok s') :
    s'.escrow.channels = s.escrow.channels := by
  have htok : (k.tokens E s).escrow.channels = s.escrow.channels := by cases k <;> rfl
  rw [← htok]
  refine runPrims_channels h fun p hp => ?_
  cases k with
  | transferred =>
      rcases List.mem_pair.1 hp with rfl | rfl
      · simp
      · simp
  | burning =>
      rcases List.mem_pair.1 hp with rfl | rfl
      · simp
      · simp
  | _ => simp [Kont.prims] at hp

/-- **Lives over runs.** -/
theorem lifecycle_reach (hd : Deployed E s₀) (h : Reachable E s₀ K w) :
    Lives E (fun c => opsOf c w.2) w.1 := by
  -- a step that runs primitives outside of the stream calls
  have hsame : ∀ {ops : ℕ → List ChannelOp} {s s' : State}, Lives E ops s →
      s'.escrow.channels = s.escrow.channels → Lives E ops s' := fun hI hch c => by
    rw [hch]
    exact hI c
  induction h with
  | refl =>
      intro c
      rw [hd.spec.2.2.2.2 c]
      exact .unopened
  | enter_done hr he ih =>
      obtain ⟨hc, hrun, -⟩ := machine_enter he
      intro c
      simp only [opsOf_concat]
      exact ih.call hc hrun c
  | enter hr he ih =>
      obtain ⟨hc, hrun, hk⟩ := machine_enter he
      intro c
      have := ih.call hc hrun c
      simpa [(Suspended.first hk.symm).channelOps, onChannel] using this
  | resume_done hr hres ih =>
      rename_i K₁ p s tr s'
      obtain ⟨hrun, -, -⟩ := machine_resume hres
      have hsus := ((framesOk_reachable hr).pending p (by simp)).2.2
      intro c
      simp only [opsOf_concat, Pending.finish, hsus.channelOps]
      simpa [onChannel] using hsame ih (resume_channels hrun) c
  | resume hr hres ih => exact hsame ih (resume_channels (machine_resume hres).1)
  | act hr ha ih =>
      rcases act_inv ha with ⟨b, al, n, rfl, -⟩ | ⟨-, hc⟩
      · exact hsame ih rfl
      · exact hsame ih hc.channels

/-- An opened channel keeps its parameters, whatever happens. -/
theorem channel_stable (h : Reach (machine E) K w K' w') {c : ℕ}
    (hop : (w.1.escrow.channels c).opened = true) :
    w'.1.escrow.channels c = w.1.escrow.channels c ∨
      w'.1.escrow.channels c = { w.1.escrow.channels c with consumed := true } := by
  refine (preserves_state (I := fun s => s.escrow.channels c = w.1.escrow.channels c ∨
    s.escrow.channels c = { w.1.escrow.channels c with consumed := true }) ?_ ?_ ?_).reach (.inl rfl) h
  · intro p s s' hI hrun
    by_cases hp : ∃ k ch, p = .openChannel k ch
    · obtain ⟨k, ch, rfl⟩ := hp
      simp only [Prim.run, bind_eq_ok, require_eq_ok, exists_unit, pure_eq_ok] at hrun
      obtain ⟨hnew, rfl⟩ := hrun
      have hck : c ≠ k := by
        rintro rfl
        rcases hI with h1 | h1
        · rw [h1, hop] at hnew
          cases hnew
        · rw [h1] at hnew
          simp [hop] at hnew
      simpa [State.setChannel, hck] using hI
    · push Not at hp
      rcases Prim.run_channels hp hrun c with h1 | h1
      · rw [h1]
        exact hI
      · rw [h1]
        rcases hI with h2 | h2
        · exact .inr (by rw [h2])
        · exact .inr (by rw [h2])
  · intro s b al n hI
    exact hI
  · intro s s' hI hc
    rw [hc.channels]
    exact hI

/-- The supply a stream call moves is that of its channel operations. -/
theorem Call.named_channelOps {s : State} {call : Call} (hops : call.channelOps s ≠ []) (a : ℕ) :
    call.named s a = (((call.channelOps s).filter (·.2.assetId = a)).map (·.2.delta)).sum := by
  cases call with
  | «open» proof pub =>
      by_cases ha : pub.assetId = a
      · simp [Call.named, Call.channelOps, ChannelOp.assetId, ChannelOp.delta, openedChannel, ha]
      · simp [Call.named, Call.channelOps, ChannelOp.assetId, openedChannel, ha]
  | settle proof pub =>
      by_cases ha : pub.assetId = a
      · simp [Call.named, Call.channelOps, ChannelOp.assetId, ChannelOp.delta, settleDelta, ha]
      · simp [Call.named, Call.channelOps, ChannelOp.assetId, settleDelta, ha]
  | settleBatch proofs pubs =>
      simp only [Call.named, Call.channelOps]
      clear hops
      induction pubs with
      | nil => simp
      | cons pub pubs ih =>
          rw [List.map_cons, List.sum_cons, ih]
          by_cases ha : pub.assetId = a
          · simp [ChannelOp.assetId, ChannelOp.delta, settleDelta, ha]
          · simp [ChannelOp.assetId, settleDelta, ha]
  | reclaim c =>
      by_cases ha : (s.escrow.channels c).assetId = a
      · simp [Call.named, Call.channelOps, ChannelOp.assetId, ChannelOp.delta, ha]
      · simp [Call.named, Call.channelOps, ChannelOp.assetId, ha]
  | _ => exact absurd rfl hops

/-- Over its life so far a channel has moved its cap out of the supply and back, or only out. -/
theorem Lifecycle.net {ops : List ChannelOp} {ch : Channel} (h : Lifecycle E ops ch) :
    (ops.map ChannelOp.delta).sum = (if ch.opened && !ch.consumed then -(ch.cap : ℤ) else 0) ∧
      ∀ op ∈ ops, op.assetId = ch.assetId := by
  cases h with
  | unopened => simp [Channel.zero]
  | opened h1 h2 => simp [h1, h2, ChannelOp.delta, ChannelOp.assetId]
  | settled h1 h2 hax hay hcap hasset hle =>
      simp only [List.map_cons, List.map_nil, List.sum_cons, List.sum_nil, ChannelOp.delta]
      refine ⟨by simp; omega, ?_⟩
      simp [ChannelOp.assetId, hasset]
  | reclaimed h1 h2 h3 => simp [ChannelOp.delta, ChannelOp.assetId]

/-- **The channel state machine.** In every configuration of a run, what the finished calls did to a
channel is nothing, an opening, an opening and a settlement with the recorded payer key, cap and
asset, or an opening and a reclaim in a block after its expiry and the challenge window; its record is
the one that opening wrote, consumed in the last two cases. From then on the record can only become
consumed. The channel's operations have moved minus its cap while it is open, and nothing otherwise,
all in its own asset, and each stream call moves the supplies by exactly its operations. -/
theorem channel_lifecycle (hd : Deployed E s₀) (h : Reachable E s₀ K w) (c : ℕ) :
    Lifecycle E (opsOf c w.2) (w.1.escrow.channels c) ∧
    (((opsOf c w.2).map ChannelOp.delta).sum =
      if (w.1.escrow.channels c).opened && !(w.1.escrow.channels c).consumed then
        -((w.1.escrow.channels c).cap : ℤ) else 0) ∧
    (∀ op ∈ opsOf c w.2, op.assetId = (w.1.escrow.channels c).assetId) ∧
    (∀ K' w', Reach (machine E) K w K' w' → (w.1.escrow.channels c).opened = true →
      w'.1.escrow.channels c = w.1.escrow.channels c ∨
        w'.1.escrow.channels c = { w.1.escrow.channels c with consumed := true }) ∧
    ∀ f ∈ w.2, f.entry.call.channelOps f.pre ≠ [] → ∀ a, f.post.pool.noteSupplyOf a =
      f.pre.pool.noteSupplyOf a +
        (((f.entry.call.channelOps f.pre).filter (·.2.assetId = a)).map (·.2.delta)).sum := by
  have hlife := lifecycle_reach hd h c
  refine ⟨hlife, hlife.net.1, hlife.net.2, fun K' w' h' hop => channel_stable h' hop, ?_⟩
  intro f hf hops a
  have hcaps : CapsOk f.pre :=
    ((preserves_capsOk.pre).univ.reach ⟨hd.capsOk, by simp, by simp⟩ h).2.1 f hf
  obtain ⟨-, hc, hfin⟩ := (framesOk_reachable h).finished f hf
  rcases hfin with ⟨-, hk, hrun⟩ | ⟨ks, k, s, -, -, hsus, -⟩
  · rw [runPrims_supply hrun a, hc.delta hcaps hk a, Call.named_channelOps hops]
  · exact absurd hsus.channelOps hops

/-- Channel 3, opened with a cap of 100 and settled at 10: two operations, with no net supply. -/
theorem channel_lifecycle_settled :
    (opsOf 3 (runFrom streaming (openRun ++ [settleTx])).2).length = 2 ∧
    ((runFrom streaming (openRun ++ [settleTx])).1.escrow.channels 3).consumed = true ∧
    ((opsOf 3 (runFrom streaming (openRun ++ [settleTx])).2).map ChannelOp.delta).sum = 0 := by
  have hrun := (@reach_run streaming (fun _ => True) (fun _ _ => trivial)
    (openRun ++ [settleTx])).of_within
  have hcon : ((runFrom streaming (openRun ++ [settleTx])).1.escrow.channels 3).consumed = true := by
    decide
  refine ⟨by decide, hcon, ?_⟩
  rw [(channel_lifecycle deployed_fresh hrun 3).2.1, hcon]
  simp

end

end ShadePay.Evm
