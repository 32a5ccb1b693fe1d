import ShadePay.Stellar.Quorum
import ShadePay.Stellar.Scenario

/-!
# What a guardian quorum can do

Three laws of the guardian over all its runs. An upgrade executes once, never after a cancellation,
and only when the delay has passed since a call at which distinct guardians had reached the threshold
(`upgrade_timelock`). Whoever counts towards an executed proposal was a guardian when it approved
(`quorum_of_guardians`). And a quorum for a proposal about the pool takes effect exactly when the
proposal is an unpause (`pause_quorum_iff`): the guardian passes the reason hash to `pause`, and the
pool's `pause` takes no argument.
-/

namespace ShadePay.Stellar.Guardian

open Guard

variable {σ : Type} {H : Host σ}

/-! ## A configured guardian -/

/-- A chain on which the guardian is account 50, the pool account 100, and every other contract
accepts every call. -/
def sampleHost : Host Unit where
  env := ⟨fun _ => 0, fun _ => word 0, fun _ _ _ => true, fun _ _ _ _ => true, acct 100⟩
  self := acct 50
  self_ne_pool := by decide
  uploaded := fun _ => true
  contracts := fun _ _ _ _ => some ()

/-- The guardian before `initialize`, beside a pool it administers. -/
def sampleWorld : World Unit where
  guardian := .empty
  pool := construct (acct 50) (acct 1) (acct 0) 12 0 0 (fun _ _ => 0) 7
  wasm := none
  others := ()

/-- A call with every signature it asks for. -/
def signed (call : Call) : Step Unit := .invoke (fun _ => true) call

/-- Guardians 1, 2 and 3 with a threshold of two and a delay of one ledger. -/
def sampleInit : Step Unit := signed (.guardianInitialize (acct 0) [acct 1, acct 2, acct 3] 2 1)

/-! ## Upgrades -/

/-- **Timelocked upgrades.** In every run, a proposal that executes was neither cancelled nor
executed before and is not executed again; and an earlier call `l`, at least the delay before, found
approvals of this proposal and of no other by as many distinct guardians as the threshold asked. -/
theorem upgrade_timelock (ts : List (Step σ)) {w : World σ} (hw : w.guardian = .empty)
    {js ks : List (Invocation σ)} {i : Invocation σ} {id : ℕ}
    (hlog : (run H ts w).2 = js ++ i :: ks) (hcall : i.call = .executeUpgrade id) :
    (∀ j ∈ js, j.call ≠ .executeUpgrade id ∧ ∀ g, j.call ≠ .cancelUpgrade g id) ∧
      (∀ k ∈ ks, k.call ≠ .executeUpgrade id) ∧
      ∃ ls l ms, ∃ as : List Address, js = ls ++ l :: ms ∧ as.Nodup ∧ l.pre.guardian.threshold ≤ as.length ∧
        (∀ a ∈ as, ∃ j ∈ ls ++ [l], j.Approves (.upgrade id) a ∧
          ∀ P a', j.Approves P a' → P = .upgrade id) ∧
        l.pre.pool.ledger + i.pre.guardian.upgradeDelay ≤ i.pre.pool.ledger := by
  have hrun := (history_run (H := H) ts hw).2
  have hbefore : ∀ js i ks, (run H ts w).2 = js ++ i :: ks → i.call = .executeUpgrade id →
      ∀ j ∈ js, j.call ≠ .executeUpgrade id ∧ ∀ g, j.call ≠ .cancelUpgrade g id := by
    intro js i ks hlog hcall j hj
    obtain ⟨h, he⟩ := hrun js i ks hlog
    rw [hcall] at he
    generalize i.post.guardian = s' at he
    cases he with
    | executeUpgrade ev hp hexec hcancel hq hle =>
        refine ⟨fun hj' => ?_, fun g hj' => ?_⟩
        · obtain ⟨p', hp', hexec'⟩ := h.executed hj hj'
          cases hp.symm.trans hp'
          rw [hexec] at hexec'
          cases hexec'
        · obtain ⟨p', hp', hcancel'⟩ := h.cancelled hj hj'
          cases hp.symm.trans hp'
          rw [hcancel] at hcancel'
          cases hcancel'
  refine ⟨hbefore js i ks hlog hcall, fun k hk hk' => ?_, ?_⟩
  · obtain ⟨ks₁, ks₂, rfl⟩ := List.append_of_mem hk
    exact (hbefore (js ++ i :: ks₁) k ks₂ (by simpa using hlog) hk' i (by simp)).1 hcall
  · obtain ⟨h, he⟩ := hrun js i ks hlog
    rw [hcall] at he
    generalize i.post.guardian = s' at he
    cases he with
    | executeUpgrade ev hp hexec hcancel hq hle =>
        obtain ⟨ls, l, ms, as, rfl, rfl, ⟨hnodup, happ⟩, hthr, -⟩ := h.latched hp hq
        refine ⟨ls, l, ms, as, rfl, hnodup, hthr, fun a ha => ?_, hle⟩
        obtain ⟨ns, j, os, hj, hja, -⟩ := happ a ha
        exact ⟨j, by rw [hj]; simp, hja, fun P a' => hja.proposal_unique⟩

/-- Propose, approve, wait a ledger, execute. -/
def upgradeRun : List (Step Unit) :=
  [sampleInit, signed (.proposeUpgrade (acct 1) (acct 9) (word 5)),
    signed (.approveUpgrade (acct 2) 0), .close, signed (.executeUpgrade 0)]

/-- The run executes an upgrade. -/
theorem upgradeRun_executes :
    ∃ i ∈ (run sampleHost upgradeRun sampleWorld).2, i.call = .executeUpgrade 0 := by
  decide

/-- The upgrade of the run waited for its delay. -/
theorem upgrade_timelock_upgradeRun : ∃ js i ks ls l ms,
    (run sampleHost upgradeRun sampleWorld).2 = js ++ i :: ks ∧ i.call = .executeUpgrade 0 ∧
      js = ls ++ l :: ms ∧
      l.pre.pool.ledger + i.pre.guardian.upgradeDelay ≤ i.pre.pool.ledger := by
  obtain ⟨i, hi, hcall⟩ := upgradeRun_executes
  obtain ⟨js, ks, hlog⟩ := List.append_of_mem hi
  obtain ⟨-, -, ls, l, ms, -, hjs, -, -, -, hle⟩ := upgrade_timelock upgradeRun rfl hlog hcall
  exact ⟨js, i, ks, ls, l, ms, hlog, hcall, hjs, hle⟩

/-! ## Whose approvals count -/

/-- A call that executes the pause proposal `id`. -/
def Invocation.ExecutesPause (i : Invocation σ) (id : ℕ) : Prop :=
  (∃ p, i.post.guardian.pauseProposal id = some p ∧ p.executed = true) ∧
    ∀ p, i.pre.guardian.pauseProposal id = some p → p.executed = false

/-- A pause executes when its approvals have reached the threshold. -/
theorem Effect.executesPause {ledger : ℕ} {s s' : Storage} {call : Call} {id : ℕ}
    (he : Effect ledger s call s') {p : PauseProposal} (hp : s'.pauseProposal id = some p)
    (hexec : p.executed = true) (hpre : ∀ p, s.pauseProposal id = some p → p.executed = false) :
    s'.threshold ≤ p.approvals.length := by
  have hold : s.pauseProposal id = some p → s'.threshold ≤ p.approvals.length := by
    intro h
    rw [hpre p h] at hexec
    cases hexec
  cases he with
  | proposePause ev hmem hid =>
      rcases update_some_cases hp with ⟨rfl, rfl⟩ | ⟨-, hp⟩
      · simpa using hexec
      · exact hold hp
  | approvePause ev hmem hp' hexec' hnew =>
      rcases update_some_cases hp with ⟨rfl, rfl⟩ | ⟨-, hp⟩
      · simpa using hexec
      · exact hold hp
  | _ => exact hold hp

/-- **Quorums of guardians.** In every run, an initialized guardian has at least as many members as
its threshold, and no member twice if it was initialized so. When a pause executes, as many distinct
accounts as the threshold of the moment have approved it, each while it was a guardian, and each is
one still unless it was removed after its approval. When an upgrade executes, the same holds with the
threshold at the call that latched its quorum, which is the threshold of the moment unless
`set_threshold` was called in between. -/
theorem quorum_of_guardians (ts : List (Step σ)) {w : World σ} (hw : w.guardian = .empty) :
    ((run H ts w).1.guardian.admin ≠ none → 1 ≤ (run H ts w).1.guardian.threshold ∧
      (run H ts w).1.guardian.threshold ≤ (run H ts w).1.guardian.guardians.length) ∧
    ((∀ i ∈ (run H ts w).2, ∀ a gs t d, i.call = .guardianInitialize a gs t d → gs.Nodup) →
      (run H ts w).1.guardian.guardians.Nodup) ∧
    ∀ js i ks, (run H ts w).2 = js ++ i :: ks →
      (∀ id, i.ExecutesPause id → ∃ as, Approved i.post.guardian (js ++ [i]) [] (.pause id) as ∧
        i.post.guardian.threshold ≤ as.length) ∧
      ∀ id, i.call = .executeUpgrade id → ∃ q, Latched i.pre.guardian js id q := by
  obtain ⟨hend, hrun⟩ := history_run (H := H) ts hw
  refine ⟨hend.configured.members, hend.nodup, fun js i ks hlog => ⟨fun id hi => ?_, fun id hi => ?_⟩⟩
  · obtain ⟨h, he⟩ := hrun js i ks hlog
    obtain ⟨⟨p, hp, hexec⟩, hpre⟩ := hi
    exact ⟨p.approvals, (h.step he).pauses hp, he.executesPause hp hexec hpre⟩
  · obtain ⟨h, he⟩ := hrun js i ks hlog
    rw [hi] at he
    generalize i.post.guardian = s' at he
    cases he with
    | @executeUpgrade _ p q ev hp hexec hcancel hq hle => exact ⟨q, h.latched hp hq⟩

/-- The upgrade of the run had its quorum. -/
theorem quorum_of_guardians_upgradeRun : ∃ js i ks q,
    (run sampleHost upgradeRun sampleWorld).2 = js ++ i :: ks ∧ i.call = .executeUpgrade 0 ∧
      Latched i.pre.guardian js 0 q := by
  obtain ⟨i, hi, hcall⟩ := upgradeRun_executes
  obtain ⟨js, ks, hlog⟩ := List.append_of_mem hi
  obtain ⟨q, hq⟩ := ((quorum_of_guardians upgradeRun rfl).2.2 js i ks hlog).2 0 hcall
  exact ⟨js, i, ks, q, hlog, hcall, hq⟩

/-- Guardian 1 proposes a pause and is removed before guardian 2 approves it. -/
def removalRun : List (Step Unit) :=
  [sampleInit, signed (.proposePause (acct 1) (acct 9) (word 5) false),
    signed (.removeGuardian (acct 1)), signed (.approvePause (acct 2) 0)]

/-- The pause executes with a threshold of two and one approval by an account that is a guardian at
that moment. -/
theorem removed_guardian_counts : ∃ i ∈ (run sampleHost removalRun sampleWorld).2,
    i.call = .approvePause (acct 2) 0 ∧
      (i.post.guardian.pauseProposal 0).map (·.executed) = some true ∧
      ((i.post.guardian.pauseProposal 0).map fun p =>
        (p.approvals.toFinset ∩ i.post.guardian.guardians.toFinset).card) = some 1 ∧
      i.post.guardian.threshold = 2 := by
  decide

/-! ## Pausing the pool -/

/-- The voter of a pause vote, its proposal's number, and the proposal with the vote counted. -/
def Call.ballot (s : Storage) : Call → Option (Address × ℕ × PauseProposal)
  | .proposePause g c r u => some (g, s.nextProposalId, ⟨c, r, u, [g], false⟩)
  | .approvePause g id =>
      (s.pauseProposal id).map fun p => (g, id, { p with approvals := p.approvals ++ [g] })
  | _ => none

/-- A vote by which a proposal about the pool has the approvals of `threshold` distinct guardians,
while the pool runs its own code under the guardian's administration. -/
structure PauseQuorum (H : Host σ) (auth : Address → Bool) (w : World σ) (call : Call) (g : Address)
    (id : ℕ) (p : PauseProposal) : Prop where
  ballot : call.ballot w.guardian = some (g, id, p)
  voter : g ∈ w.guardian.guardians
  authorized : auth g = true
  pending : p.executed = false
  distinct : p.approvals.Nodup
  quorum : w.guardian.threshold ≤ (p.approvals.toFinset ∩ w.guardian.guardians.toFinset).card
  target : p.contractId = H.env.pool
  code : w.wasm = none
  admin : w.pool.admin = H.self

section
variable {auth : Address → Bool} {w : World σ} {call : Call} {g : Address} {id : ℕ}
  {p : PauseProposal}

/-- The vote takes effect: the call succeeds, the pool's flag is set, the proposal is executed. -/
def Effective (H : Host σ) (auth : Address → Bool) (w : World σ) (call : Call) (id : ℕ)
    (p : PauseProposal) : Prop :=
  ∃ w', call.invoke H auth w = .ok w' ∧ w'.pool.paused = !p.unpause ∧
    w'.guardian.pauseProposal id = some { p with executed := true }

/-- The approvals of a proposal with a quorum reach the threshold. -/
theorem PauseQuorum.reached (h : PauseQuorum H auth w call g id p) :
    w.guardian.threshold ≤ p.approvals.length := by
  calc w.guardian.threshold
      ≤ (p.approvals.toFinset ∩ w.guardian.guardians.toFinset).card := h.quorum
    _ ≤ p.approvals.toFinset.card := Finset.card_le_card Finset.inter_subset_left
    _ ≤ p.approvals.length := List.toFinset_card_le _

/-- The call out of `try_execute_pause`, once the threshold is reached. -/
theorem World.tryExecutePause_pool (hthr : w.guardian.threshold ≤ p.approvals.length)
    (htarget : p.contractId = H.env.pool) (hcode : w.wasm = none) (hadmin : w.pool.admin = H.self) :
    w.tryExecutePause H auth id p = if p.unpause = true then
        .ok ((World.setPause id { p with executed := true }
          { w with pool := { w.pool with paused := false } }).publish
          (.pause id p.contractId p.unpause))
      else .error .host := by
  have hself : p.contractId ≠ H.self := fun h => H.self_ne_pool (h.symm.trans htarget)
  have hauth : H.calleeAuth auth w.pool.admin = true := by simp [Host.calleeAuth, hadmin]
  rw [World.tryExecutePause, if_neg (not_lt.2 hthr)]
  simp only [invokeContract, if_neg hself, if_pos (And.intro htarget hcode)]
  cases hu : p.unpause with
  | false => rfl
  | true =>
      simp [invokePool, configurePool, AdminCall.invoke, State.asAdmin, State.requireAuth, require,
        hauth, pure, Except.pure, bind, Except.bind]

/-- From the stored proposal on, the vote takes effect exactly when it is an unpause. -/
theorem World.tryExecutePause_effective (hthr : w.guardian.threshold ≤ p.approvals.length)
    (htarget : p.contractId = H.env.pool) (hcode : w.wasm = none) (hadmin : w.pool.admin = H.self) :
    (∃ w', w.tryExecutePause H auth id p = .ok w' ∧ w'.pool.paused = !p.unpause ∧
      w'.guardian.pauseProposal id = some { p with executed := true }) ↔ p.unpause = true := by
  rw [World.tryExecutePause_pool hthr htarget hcode hadmin]
  cases hu : p.unpause with
  | false => simp
  | true => simp [World.publish, World.setPause]

/-- **A quorum takes effect exactly for an unpause.** In every state of a run, a vote that brings a
proposal about the pool to `threshold` distinct guardians takes effect if and only if the proposal is
an unpause and its number leaves the counter within 32 bits. -/
theorem pause_quorum_iff (ts : List (Step σ)) {w₀ : World σ} (hw₀ : w₀.guardian = .empty)
    (h : PauseQuorum H auth (run H ts w₀).1 call g id p) :
    Effective H auth (run H ts w₀).1 call id p ↔ p.unpause = true ∧ id + 1 < 2 ^ 32 := by
  have hcfg := (history_run (H := H) ts hw₀).1.configured
  generalize (run H ts w₀).1 = w at h hcfg
  have hthr := h.reached
  obtain ⟨hballot, hvoter, hauth, hpending, hdistinct, -, htarget, hcode, hadmin⟩ := h
  have hguard : w.requireGuardian auth g = .ok () := by simp [hvoter, hauth]
  cases call with
  | proposePause g' c r u =>
      obtain ⟨rfl, rfl, rfl⟩ : g' = g ∧ w.guardian.nextProposalId = id ∧ _ = p := by
        simpa [Call.ballot] using hballot
      simp only [Effective, Call.invoke, World.proposePause, hguard, ok_bind, World.nextId,
        World.checkU32]
      by_cases hid : w.guardian.nextProposalId + 1 < 2 ^ 32
      · simp only [pure, Except.pure, hid, and_true]
        exact World.tryExecutePause_effective hthr htarget hcode hadmin
      · refine iff_of_false ?_ fun h => hid h.2
        rintro ⟨w', h, -⟩
        simp only [bind_eq_ok, exists_unit, require_eq_ok] at h
        obtain ⟨_, ⟨_, ⟨hlt, -⟩, -⟩, -⟩ := h
        exact hid hlt
  | approvePause g' id' =>
      obtain ⟨q, hq, rfl, rfl, rfl⟩ : ∃ q, w.guardian.pauseProposal id' = some q ∧ g' = g ∧ id' = id ∧
          { q with approvals := q.approvals ++ [g'] } = p := by
        simpa [Call.ballot] using hballot
      have hid : id' + 1 < 2 ^ 32 := lt_of_le_of_lt (hcfg.pauseId hq) hcfg.counter
      have hnew : g' ∉ q.approvals := by
        intro hmem
        exact (List.nodup_append.1 hdistinct).2.2 g' hmem g' (by simp) rfl
      simp only [Effective, Call.invoke, World.approvePause, hguard, ok_bind, hq, World.find,
        require_of hpending, require_of hnew, hid, and_true]
      exact World.tryExecutePause_effective (by simpa [World.setPause] using hthr) htarget hcode
        hadmin
  | _ => simp [Call.ballot] at hballot

/-- Guardians 1 and 2 vote on the pool: unpause, or pause. -/
def voteRun (unpause : Bool) : List (Step Unit) :=
  [sampleInit, signed (.proposePause (acct 1) (acct 100) (word 5) unpause)]

/-- The second approval of the run completes the quorum. -/
theorem voteRun_quorum (unpause : Bool) :
    PauseQuorum sampleHost (fun _ => true) (run sampleHost (voteRun unpause) sampleWorld).1
      (.approvePause (acct 2) 0) (acct 2) 0
      ⟨acct 100, word 5, unpause, [acct 1, acct 2], false⟩ := by
  cases unpause with
  | false => exact ⟨by decide, by decide, rfl, rfl, by decide, by decide, rfl,
      rfl, rfl⟩
  | true => exact ⟨by decide, by decide, rfl, rfl, by decide, by decide, rfl,
      rfl, rfl⟩

/-- A proposal to unpause takes effect. -/
theorem pause_quorum_iff_unpause :
    Effective sampleHost (fun _ => true) (run sampleHost (voteRun true) sampleWorld).1
      (.approvePause (acct 2) 0) 0 ⟨acct 100, word 5, true, [acct 1, acct 2], false⟩ :=
  (pause_quorum_iff (voteRun true) rfl (voteRun_quorum true)).2 ⟨rfl, by norm_num⟩

/-- Two of three guardians vote to pause the pool: the second vote traps, the pool stays unpaused and
the vote is not recorded. -/
theorem pause_quorum_traps :
    PauseQuorum sampleHost (fun _ => true) (run sampleHost (voteRun false) sampleWorld).1
        (.approvePause (acct 2) 0) (acct 2) 0
        ⟨acct 100, word 5, false, [acct 1, acct 2], false⟩ ∧
      ¬ Effective sampleHost (fun _ => true) (run sampleHost (voteRun false) sampleWorld).1
        (.approvePause (acct 2) 0) 0 ⟨acct 100, word 5, false, [acct 1, acct 2], false⟩ := by
  refine ⟨voteRun_quorum false, ?_⟩
  rintro ⟨w', h, -⟩
  have : ((Call.approvePause (acct 2) 0).invoke sampleHost (fun _ => true)
      (run sampleHost (voteRun false) sampleWorld).1).isOk = false := by decide
  rw [h] at this
  cases this

end

end ShadePay.Stellar.Guardian
