import ShadePay.Evm.Channels
import ShadePay.Evm.Solvency

/-!
# The log of the escrow

The escrow announces what it does to a channel with one event for each operation. `Call.streamEvents`
are the announcements of a call and `Announces` relates an event to an operation of `opsOf`; over a
run the escrow's events are those of its finished calls, in order (`streamLog_reach`), so the events
about a channel are its operations (`announced_reach`). `Call.closes` are the calls that only consume
channels: they insert the commitments of their operations and nothing else.
-/

namespace ShadePay.Evm

open Guard Reentrancy

/-- The channel an event of the escrow is about. -/
def Event.channel : Event → Option ℕ
  | .channelOpened c _ _ _ => some c
  | .channelSettled c _ _ _ => some c
  | .channelReclaimed c _ _ => some c
  | _ => none

/-- The events of the escrow, in order. -/
def streamLog (s : State) : List Event := s.events.filter fun e => e.channel.isSome

/-- What a call announces. -/
def Call.streamEvents (s : State) : Call → List Event
  | .open _ pub => [.channelOpened pub.channelId pub.cap pub.expiry pub.changeCommitment]
  | .settle _ pub =>
      [.channelSettled pub.channelId pub.cumulative pub.payeeCommitment pub.refundCommitment]
  | .settleBatch _ pubs => pubs.map fun pub =>
      .channelSettled pub.channelId pub.cumulative pub.payeeCommitment pub.refundCommitment
  | .reclaim c => [.channelReclaimed c (s.escrow.channels c).cap
      (s.escrow.channels c).reclaimCommitment]
  | _ => []

/-- An event announces an operation on channel `c`. -/
inductive Announces (c : ℕ) : ChannelOp → Event → Prop
  | opened (ch : Channel) (change : ℕ) :
      Announces c (.opened ch) (.channelOpened c ch.cap ch.expiry change)
  | settled (pub : StreamSettlePub ℕ) : pub.channelId = c → Announces c (.settled pub)
      (.channelSettled c pub.cumulative pub.payeeCommitment pub.refundCommitment)
  | reclaimed (ch : Channel) (block : ℕ) :
      Announces c (.reclaimed ch block) (.channelReclaimed c ch.cap ch.reclaimCommitment)

/-- The commitments that consuming a channel inserts. -/
def ChannelOp.inserted : ChannelOp → List ℕ
  | .opened _ => []
  | .settled pub => [pub.payeeCommitment, pub.refundCommitment]
  | .reclaimed ch _ => [ch.reclaimCommitment]

/-- The calls that consume channels. -/
def Call.closes : Call → Bool
  | .settle .. => true
  | .settleBatch .. => true
  | .reclaim _ => true
  | _ => false

section
variable {E : Env} {s s' : State}

/-! ## One call -/

/-- A primitive that announces nothing about a channel. -/
def Prim.Quiet (p : Prim) : Prop := ∀ event, p = .emit event → ∀ s, (event s).channel = none

/-- An event that names a channel is logged. -/
theorem streamLog_append (s : State) {s' : State} {e : Event} (h : s'.events = s.events ++ [e]) :
    streamLog s' = streamLog s ++ if e.channel.isSome then [e] else [] := by
  rw [streamLog, streamLog, h, List.filter_append, List.filter_singleton, Bool.cond_eq_ite]

/-- A quiet primitive logs nothing. -/
theorem Prim.run_quiet {p : Prim} (hp : p.Quiet) (h : p.run E s = .ok s') :
    streamLog s' = streamLog s := by
  cases p with
  | spend x n =>
      obtain ⟨-, rfl⟩ := State.spend_eq_ok.1 h
      simp [streamLog, Event.channel]
  | insert leaf =>
      simp only [Prim.run, bind_eq_ok, Prod.exists, pure_eq_ok] at h
      obtain ⟨_, _, h, rfl⟩ := h
      obtain ⟨t, -, rfl⟩ := State.insert_eq_ok.1 h
      rfl
  | adjust a d =>
      obtain ⟨-, rfl⟩ := State.adjustNoteSupply_eq_ok.1 h
      rfl
  | deposit n =>
      cases h
      rfl
  | openChannel c ch =>
      simp only [Prim.run, bind_eq_ok, require_eq_ok, exists_unit, pure_eq_ok] at h
      obtain ⟨-, rfl⟩ := h
      rfl
  | consume c =>
      simp only [Prim.run, bind_eq_ok, require_eq_ok, exists_unit, pure_eq_ok] at h
      obtain ⟨-, -, rfl⟩ := h
      rfl
  | emit event =>
      cases h
      rw [streamLog_append s (e := event s) rfl, hp event rfl s]
      simp

/-- Quiet primitives log nothing. -/
theorem runPrims_quiet {ps : List Prim} (hps : ∀ p ∈ ps, p.Quiet) (h : runPrims E ps s = .ok s') :
    streamLog s' = streamLog s := by
  induction ps generalizing s with
  | nil =>
      cases h
      rfl
  | cons p ps ih =>
      obtain ⟨s₁, h1, h2⟩ := (runPrims_cons E).1 h
      rw [ih (fun q hq => hps q (by simp [hq])) h2, Prim.run_quiet (hps p (by simp)) h1]

/-- Quiet primitives and one announcement. -/
theorem runPrims_announce {ps : List Prim} {e : Event} (hps : ∀ p ∈ ps, p.Quiet)
    (he : e.channel.isSome) (h : runPrims E (ps ++ [.emit fun _ => e]) s = .ok s') :
    streamLog s' = streamLog s ++ [e] := by
  obtain ⟨s₁, h1, h2⟩ := (runPrims_append E).1 h
  obtain ⟨_, h3, h4⟩ := (runPrims_cons E).1 h2
  cases h3
  cases h4
  rw [streamLog_append s₁ (e := e) rfl, if_pos he, runPrims_quiet hps h1]

/-- An insertion for a channel is quiet. -/
theorem streamPrims_quiet {a c : ℕ} {d : ℤ} : ∀ p ∈ streamPrims a c d, p.Quiet := by
  intro p hp event he
  subst he
  unfold streamPrims at hp
  split at hp <;> simp at hp

/-- A settlement logs one event. -/
theorem settlePrims_streamLog {pub : StreamSettlePub ℕ}
    (h : runPrims E (settlePrims pub) s = .ok s') : streamLog s' = streamLog s ++
      [.channelSettled pub.channelId pub.cumulative pub.payeeCommitment pub.refundCommitment] := by
  rw [settlePrims, ← List.cons_append] at h
  refine runPrims_announce (fun p hp => ?_) rfl h
  rcases List.mem_cons.1 hp with rfl | hp
  · intro event he
    cases he
  · rcases List.mem_append.1 hp with hp | hp
    · exact streamPrims_quiet p hp
    · exact streamPrims_quiet p hp

/-- **One call** appends what it announces to the log. -/
theorem Call.announces {x : Address} {call : Call}
    (h : runPrims E (call.prims E x s) s = .ok s') :
    streamLog s' = streamLog s ++ call.streamEvents s := by
  have hquiet : call.streamEvents s = [] → (∀ p ∈ call.prims E x s, p.Quiet) →
      streamLog s' = streamLog s ++ call.streamEvents s := by
    intro hnil hps
    rw [hnil, List.append_nil, runPrims_quiet hps h]
  cases call with
  | «open» proof pub =>
      refine runPrims_announce (fun p hp => ?_) rfl h
      rcases List.mem_append.1 hp with hp | hp
      · rcases List.mem_pair.1 hp with rfl | rfl
        · intro event he
          cases he
        · intro event he
          cases he
      · exact streamPrims_quiet p hp
  | settle proof pub => exact settlePrims_streamLog h
  | settleBatch proofs pubs =>
      simp only [Call.prims, Call.streamEvents] at h ⊢
      clear hquiet
      induction pubs generalizing s with
      | nil =>
          cases h
          simp
      | cons pub pubs ih =>
          rw [List.flatMap_cons, runPrims_append] at h
          obtain ⟨s₁, h1, h2⟩ := h
          rw [ih h2, settlePrims_streamLog h1, List.map_cons, List.append_assoc]
          rfl
  | reclaim c =>
      rw [Call.prims, ← List.cons_append] at h
      refine runPrims_announce (fun p hp => ?_) rfl h
      rcases List.mem_cons.1 hp with rfl | hp
      · intro event he
        cases he
      · exact streamPrims_quiet p hp
  | streamInsert a c d => exact hquiet rfl streamPrims_quiet
  | _ =>
      refine hquiet rfl fun p hp event he s => ?_
      subst he
      simp only [Call.prims, pairPrims, List.mem_cons, reduceCtorEq, Prim.emit.injEq,
        List.not_mem_nil, or_false, false_or] at hp <;>
      · subst hp
        rfl

/-- A debit, with an event that is none of the escrow's. -/
theorem debit_quiet {a : ℕ} {d : ℤ} {event : State → Event} (he : ∀ s, (event s).channel = none) :
    ∀ p ∈ [Prim.adjust a d, .emit event], p.Quiet := by
  intro p hp event' heq s
  rcases List.mem_pair.1 hp with rfl | rfl
  · cases heq
  · cases heq
    exact he s

/-- Going on after an external call announces nothing about a channel. -/
theorem Suspended.quiet {call : Call} {pre : State} {ks : List Kont} {k : Kont}
    (h : Suspended call pre ks k) : ∀ p ∈ k.prims, p.Quiet := by
  have hkont : ∀ k₀, call.kont pre = some k₀ → (∀ p ∈ k₀.prims, p.Quiet) ∧
      ∀ s k₁, k₀.next s = some k₁ → ∀ p ∈ k₁.prims, p.Quiet := by
    intro k₀ hk₀
    cases call with
    | withdraw =>
        cases hk₀
        refine ⟨by simp [Kont.prims], fun s k₁ hk₁ => ?_⟩
        cases hk₁
        exact debit_quiet fun _ => rfl
    | rfqSettle =>
        cases hk₀
        refine ⟨by simp [Kont.prims], fun s k₁ hk₁ => ?_⟩
        cases hk₁
        exact debit_quiet fun _ => rfl
    | withdrawCctp =>
        cases hk₀
        refine ⟨by simp [Kont.prims], fun s k₁ hk₁ => ?_⟩
        cases hk₁
        exact debit_quiet fun _ => rfl
    | _ => cases hk₀
  cases h with
  | first hk => exact (hkont k hk).1
  | next hk hn => exact (hkont _ hk).2 _ k hn

/-- A call that suspends announces nothing. -/
theorem Suspended.streamEvents {call : Call} {pre : State} {ks : List Kont} {k : Kont}
    (h : Suspended call pre ks k) : call.streamEvents pre = [] := by
  have hk : call.kont pre ≠ none := h.kont_ne
  cases call with
  | withdraw => rfl
  | rfqSettle => rfl
  | withdrawCctp => rfl
  | _ => exact absurd rfl hk

/-- A call that goes on logs nothing. -/
theorem Suspended.resume_streamLog {call : Call} {pre s s' : State} {ks : List Kont} {k : Kont}
    (h : Suspended call pre ks k) (hrun : runPrims E k.prims (k.tokens E s) = .ok s') :
    streamLog s' = streamLog s := by
  have htokens : streamLog (k.tokens E s) = streamLog s := by cases k <;> rfl
  rw [runPrims_quiet h.quiet hrun, htokens]

/-- Nor does configuring the contracts. -/
theorem configure_quiet {sender : Address} {call : AdminCall} (h : s.configure sender call = .ok s') :
    streamLog s' = streamLog s := by
  have haccess : ∀ (a : Access) (t : Target), streamLog (s.setAccess a t) = streamLog s := by
    intro a t
    cases t <;> rfl
  cases call with
  | grantRole t r a =>
      simp only [State.configure, bind_eq_ok, exists_unit, pure_eq_ok] at h
      obtain ⟨-, rfl⟩ := h
      exact haccess _ _
  | revokeRole t r a =>
      simp only [State.configure, bind_eq_ok, exists_unit, pure_eq_ok] at h
      obtain ⟨-, rfl⟩ := h
      exact haccess _ _
  | renounceRole t r =>
      cases h
      exact haccess _ _
  | pause t =>
      simp only [State.configure, bind_eq_ok, exists_unit, pure_eq_ok] at h
      obtain ⟨-, -, rfl⟩ := h
      exact haccess _ _
  | unpause t =>
      simp only [State.configure, bind_eq_ok, exists_unit, pure_eq_ok] at h
      obtain ⟨-, -, rfl⟩ := h
      exact haccess _ _
  | setAuthorizedSpender a allowed =>
      simp only [State.configure, bind_eq_ok, exists_unit, pure_eq_ok] at h
      obtain ⟨-, rfl⟩ := h
      exact (streamLog_append s rfl).trans (List.append_nil _)
  | registerAsset a t =>
      simp only [State.configure, State.registerAsset, bind_eq_ok, require_eq_ok, exists_unit,
        pure_eq_ok] at h
      obtain ⟨-, -, rfl⟩ := h
      exact (streamLog_append s rfl).trans (List.append_nil _)
  | setAssociationRoot r =>
      simp only [State.configure, State.setPool, bind_eq_ok, exists_unit, pure_eq_ok] at h
      obtain ⟨_, ⟨-, rfl⟩, rfl⟩ := h
      exact (streamLog_append s rfl).trans (List.append_nil _)
  | setCommittee pks =>
      simp only [State.configure, State.setPool, bind_eq_ok, exists_unit, pure_eq_ok] at h
      obtain ⟨_, ⟨-, rfl⟩, rfl⟩ := h
      exact (streamLog_append s rfl).trans (List.append_nil _)
  | setAuthorizedStreamContract a allowed =>
      simp only [State.configure, State.setPool, bind_eq_ok, exists_unit, pure_eq_ok] at h
      obtain ⟨_, ⟨-, rfl⟩, rfl⟩ := h
      exact (streamLog_append s rfl).trans (List.append_nil _)
  | _ =>
      simp only [State.configure, State.setPool, State.setEscrow, bind_eq_ok, exists_unit,
        pure_eq_ok] at h
      obtain ⟨-, rfl⟩ := h
      rfl

/-- Nor anything else outside of the contracts. -/
theorem act_quiet {K : List (Pending State (Entry E) Kont)} {a : Action} (h : act E K a s = some s') :
    streamLog s' = streamLog s := by
  cases a with
  | mint token holder amount =>
      cases h
      rfl
  | configure sender call =>
      simp only [act, Option.ite_none_right_eq_some] at h
      exact configure_quiet (toOption_eq_some.1 h.2)
  | _ =>
      simp only [act, Option.ite_none_right_eq_some, Option.some.injEq] at h
      obtain ⟨-, rfl⟩ := h
      rfl

/-! ## Runs -/

variable {s₀ : State} {K : List (Pending State (Entry E) Kont)} {w : World State (Entry E) Kont}

/-- There is no event at the start. -/
theorem Deployed.events {s₀ : State} (h : Deployed E s₀) : s₀.events = [] := by
  obtain ⟨r, p, e, b, n, h⟩ := h
  rw [construct, bind_eq_ok] at h
  obtain ⟨t, -, h⟩ := h
  cases h
  rfl

/-- **The log over runs** is what the finished calls announced, in order. -/
theorem streamLog_reach (hd : Deployed E s₀) (h : Reachable E s₀ K w) :
    streamLog w.1 = w.2.flatMap fun f => f.entry.call.streamEvents f.pre := by
  induction h with
  | refl => simp [streamLog, hd.events]
  | enter_done hr he ih =>
      obtain ⟨-, hrun, -⟩ := machine_enter he
      rw [Call.announces hrun, ih, List.flatMap_append]
      simp
  | enter hr he ih =>
      obtain ⟨-, hrun, hk⟩ := machine_enter he
      rw [Call.announces hrun, ih, (Suspended.first hk.symm).streamEvents, List.append_nil]
  | resume_done hr hres ih =>
      rename_i K₁ p s tr s'
      have hsus := ((framesOk_reachable hr).pending p (by simp)).2.2
      rw [hsus.resume_streamLog (machine_resume hres).1, ih, List.flatMap_append]
      simp [Pending.finish, hsus.streamEvents]
  | resume hr hres ih =>
      rename_i K₁ p s tr s' k
      have hsus := ((framesOk_reachable hr).pending p (by simp)).2.2
      rw [hsus.resume_streamLog (machine_resume hres).1, ih]
  | act hr ha ih => rw [act_quiet ha, ih]

/-- A call announces its operations on a channel, in order. -/
theorem Call.announced (call : Call) (s : State) (c : ℕ) :
    List.Forall₂ (Announces c) (onChannel c (call.channelOps s))
      ((call.streamEvents s).filter fun e => e.channel = some c) := by
  have hsingle : ∀ {k : ℕ} {op : ChannelOp} {e : Event}, e.channel = some k →
      (k = c → Announces c op e) →
      List.Forall₂ (Announces c) (onChannel c [(k, op)]) ([e].filter fun e => e.channel = some c) := by
    intro k op e he hop
    by_cases hk : k = c
    · simpa [onChannel, he, hk] using hop hk
    · simp [onChannel, he, hk]
  cases call with
  | «open» proof pub =>
      refine hsingle rfl ?_
      rintro rfl
      exact .opened (openedChannel pub) _
  | settle proof pub =>
      refine hsingle rfl ?_
      rintro rfl
      exact .settled pub rfl
  | settleBatch proofs pubs =>
      induction pubs with
      | nil => exact .nil
      | cons pub pubs ih =>
          have hhead := @hsingle pub.channelId (.settled pub) (.channelSettled pub.channelId
            pub.cumulative pub.payeeCommitment pub.refundCommitment) rfl fun h => by
              subst h
              exact .settled pub rfl
          change List.Forall₂ _ (onChannel c ([_] ++ pubs.map _)) (([_] ++ pubs.map _).filter _)
          rw [onChannel_append, List.filter_append]
          exact List.rel_append hhead ih
  | reclaim k =>
      refine hsingle rfl ?_
      rintro rfl
      exact .reclaimed _ _
  | _ => exact .nil

/-- **The events about a channel** announce the operations on it, in order. -/
theorem announced_reach (hd : Deployed E s₀) (h : Reachable E s₀ K w) (c : ℕ) :
    List.Forall₂ (Announces c) (opsOf c w.2) (w.1.events.filter fun e => e.channel = some c) := by
  have hlog : w.1.events.filter (fun e => e.channel = some c) =
      (streamLog w.1).filter fun e => e.channel = some c := by
    rw [streamLog, List.filter_filter]
    refine List.filter_congr fun e _ => ?_
    cases e.channel <;> simp
  rw [hlog, streamLog_reach hd h, opsOf]
  generalize w.2 = tr
  induction tr with
  | nil => exact .nil
  | cons f tr ih =>
      rw [List.flatMap_cons, List.flatMap_cons, List.filter_append]
      exact List.rel_append (f.entry.call.announced f.pre c) ih

/-- **What consuming a channel inserts.** -/
theorem closes_leaves (hd : Deployed E s₀) (h : Reachable E s₀ K w)
    {f : Frame State (Entry E) Kont} (hf : f ∈ w.2) (hcl : f.entry.call.closes = true) :
    f.post.pool.tree.leaves = f.pre.pool.tree.leaves ++
      (f.entry.call.channelOps f.pre).flatMap fun o => o.2.inserted := by
  have hI : TreeInv E f.pre :=
    ((preserves_treeInv.within fun _ => True).pre.univ.reach ⟨hd.spec.1, by simp, by simp⟩ h).2.1 f hf
  obtain ⟨-, -, hfin⟩ := (framesOk_reachable h).finished f hf
  have hkont : f.entry.call.kont f.pre = none := by
    cases hcall : f.entry.call with
    | settle | settleBatch | reclaim => rfl
    | _ => simp [hcall, Call.closes] at hcl
  rcases hfin with ⟨-, -, hrun⟩ | ⟨ks, k, s, -, -, hsus, -⟩
  · rw [runPrims_leaves hI hrun]
    congr 1
    cases hcall : f.entry.call with
    | settle proof pub =>
        simp [Call.prims, settlePrims_leaves, Call.channelOps, ChannelOp.inserted]
    | settleBatch proofs pubs =>
        simp [Call.prims, List.flatMap_assoc, settlePrims_leaves, Call.channelOps, ChannelOp.inserted,
          List.flatMap_map]
    | reclaim c =>
        simp [Call.prims, streamPrims_leaves, Call.channelOps, ChannelOp.inserted, Prim.leaves]
    | _ => simp [hcall, Call.closes] at hcl
  · exact absurd hkont hsus.kont_ne

end

end ShadePay.Evm
