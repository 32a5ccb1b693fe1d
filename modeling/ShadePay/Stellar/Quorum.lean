import ShadePay.Stellar.Guardian

/-!
# Quorums of the governance guardian

What a successful call does to the guardian's storage (`Call.effect`), and what the log of calls says
about it in every state of a run (`History`, `history_run`): approvals are distinct, each was given
by an account that was a guardian then, and a latched ledger is the ledger of a call at which the
approvals had reached the threshold.
-/

namespace ShadePay.Stellar.Guardian

open Guard

variable {σ : Type} {H : Host σ}

/-! ## Effects of the calls -/

/-- What a call leaves of the guardian's storage. The log of events is arbitrary here. -/
inductive Effect (ledger : ℕ) (s : Storage) : Call → Storage → Prop where
  | guardianInitialize {a gs t d} (hadmin : s.admin = none) (hpos : t ≠ 0) (hle : t ≤ gs.length) :
      Effect ledger s (.guardianInitialize a gs t d) { s with
        admin := some a, guardians := gs, threshold := t, upgradeDelay := d, nextProposalId := 0 }
  | addKnown {g} (hmem : g ∈ s.guardians) : Effect ledger s (.addGuardian g) s
  | addGuardian {g} (hadmin : s.admin ≠ none) (hmem : g ∉ s.guardians) :
      Effect ledger s (.addGuardian g) { s with guardians := s.guardians ++ [g] }
  | removeGuardian {g} (hadmin : s.admin ≠ none)
      (hle : s.threshold ≤ (s.guardians.filter (· ≠ g)).length) :
      Effect ledger s (.removeGuardian g) { s with guardians := s.guardians.filter (· ≠ g) }
  | setThreshold {t} (hadmin : s.admin ≠ none) (hpos : t ≠ 0) (hle : t ≤ s.guardians.length) :
      Effect ledger s (.setThreshold t) { s with threshold := t }
  | proposePause {g c r u} (ev : List Event) (hmem : g ∈ s.guardians)
      (hid : s.nextProposalId + 1 < 2 ^ 32) :
      Effect ledger s (.proposePause g c r u) { s with
        nextProposalId := s.nextProposalId + 1
        pauseProposal := Function.update s.pauseProposal s.nextProposalId
          (some ⟨c, r, u, [g], decide (s.threshold ≤ 1)⟩)
        events := ev }
  | approvePause {g id p} (ev : List Event) (hmem : g ∈ s.guardians)
      (hp : s.pauseProposal id = some p) (hexec : p.executed = false) (hnew : g ∉ p.approvals) :
      Effect ledger s (.approvePause g id) { s with
        pauseProposal := Function.update s.pauseProposal id (some { p with
          approvals := p.approvals ++ [g]
          executed := decide (s.threshold ≤ p.approvals.length + 1) })
        events := ev }
  | proposeUpgrade {g c h} (ev : List Event) (hmem : g ∈ s.guardians)
      (hid : s.nextProposalId + 1 < 2 ^ 32) :
      Effect ledger s (.proposeUpgrade g c h) { s with
        nextProposalId := s.nextProposalId + 1
        upgradeProposal := Function.update s.upgradeProposal s.nextProposalId
          (some ⟨c, h, [g], if s.threshold ≤ 1 then some ledger else none, false, false⟩)
        events := ev }
  | approveUpgrade {g id p} (ev : List Event) (hmem : g ∈ s.guardians)
      (hp : s.upgradeProposal id = some p) (hexec : p.executed = false)
      (hcancel : p.cancelled = false) (hnew : g ∉ p.approvals) :
      Effect ledger s (.approveUpgrade g id) { s with
        upgradeProposal := Function.update s.upgradeProposal id (some { p with
          approvals := p.approvals ++ [g]
          quorumAtLedger := if p.quorumAtLedger = none ∧ s.threshold ≤ p.approvals.length + 1
            then some ledger else p.quorumAtLedger })
        events := ev }
  | cancelUpgrade {g id p} (ev : List Event) (hmem : g ∈ s.guardians)
      (hp : s.upgradeProposal id = some p) (hexec : p.executed = false) :
      Effect ledger s (.cancelUpgrade g id) { s with
        upgradeProposal := Function.update s.upgradeProposal id (some { p with cancelled := true })
        events := ev }
  | executeUpgrade {id p q} (ev : List Event) (hp : s.upgradeProposal id = some p)
      (hexec : p.executed = false) (hcancel : p.cancelled = false)
      (hq : p.quorumAtLedger = some q) (hle : q + s.upgradeDelay ≤ ledger) :
      Effect ledger s (.executeUpgrade id) { s with
        upgradeProposal := Function.update s.upgradeProposal id (some { p with executed := true })
        events := ev }

section
variable {auth : Address → Bool} {w w' : World σ}

/-- An entry that must be there. -/
@[simp] theorem World.find_eq_ok {α : Type} {x : Option α} {a : α} :
    World.find x = .ok a ↔ x = some a := by
  cases x <;> simp [World.find]

/-- Only an initialized guardian contract has an admin. -/
theorem World.requireAdmin_eq_ok {u : Unit} (h : w.requireAdmin auth = .ok u) :
    w.guardian.admin ≠ none := by
  intro hn
  simp [World.requireAdmin, hn] at h

/-- The check passes for a guardian who authorized the call. -/
@[simp] theorem World.requireGuardian_eq_ok {g : Address} {u : Unit} :
    w.requireGuardian auth g = .ok u ↔ g ∈ w.guardian.guardians ∧ auth g = true := by
  simp [World.requireGuardian]

/-- A counter passes below `2 ^ 32`. -/
@[simp] theorem World.checkU32_eq_ok {x y : ℕ} :
    World.checkU32 x = .ok y ↔ x < 2 ^ 32 ∧ x = y := by
  simp only [World.checkU32, bind_eq_ok, exists_unit, require_eq_ok, pure_eq_ok]

/-- The pool's own setters leave the guardian contract alone. -/
theorem configurePool_guardian {c : AdminCall} (h : configurePool auth c w = .ok w') :
    w'.guardian = w.guardian := by
  unfold configurePool at h
  split at h
  · cases h
    rfl
  · cases h

/-- A call out of the guardian leaves its storage alone. -/
theorem invokeContract_guardian {c : Address} {m : Method} {args : List Bytes32}
    (h : invokeContract H auth c m args w = .ok w') : w'.guardian = w.guardian := by
  unfold invokeContract at h
  split at h
  · cases h
  split at h
  · unfold invokePool at h
    split at h
    · exact configurePool_guardian h
    · exact configurePool_guardian h
    · simp only [upgradePool, bind_eq_ok, exists_unit, pure_eq_ok] at h
      obtain ⟨-, -, rfl⟩ := h
      rfl
    · cases h
  · split at h
    · cases h
      rfl
    · cases h

/-- `try_execute_pause` marks the proposal when its approvals have reached the threshold. -/
theorem World.tryExecutePause_guardian {id : ℕ} {p : PauseProposal} {s : Storage}
    (hw : w.guardian = { s with pauseProposal := Function.update s.pauseProposal id (some p) })
    (hexec : p.executed = false) (h : w.tryExecutePause H auth id p = .ok w') :
    ∃ ev, w'.guardian = { s with
      pauseProposal := Function.update s.pauseProposal id (some { p with
        executed := decide (s.threshold ≤ p.approvals.length) })
      events := ev } := by
  have hthr : w.guardian.threshold = s.threshold := by rw [hw]
  unfold World.tryExecutePause at h
  split at h
  case isTrue hlt =>
    cases h
    have hdec : decide (s.threshold ≤ p.approvals.length) = p.executed := by
      rw [hexec, decide_eq_false_iff_not, not_le, ← hthr]
      exact hlt
    exact ⟨s.events, by rw [hw, hdec]⟩
  case isFalse hlt =>
    simp only [bind_eq_ok, pure_eq_ok] at h
    obtain ⟨w₁, h₁, rfl⟩ := h
    have hdec : decide (s.threshold ≤ p.approvals.length) = true := by
      rw [decide_eq_true_iff, ← hthr]
      exact not_lt.1 hlt
    refine ⟨w₁.guardian.events ++ [.pause id p.contractId p.unpause], ?_⟩
    simp only [World.publish, World.setPause, invokeContract_guardian h₁, hw, hdec,
      Function.update_idem]

/-- `check_upgrade_quorum` latches the ledger when the approvals first reach the threshold. -/
theorem World.checkUpgradeQuorum_guardian {id : ℕ} {p : UpgradeProposal} {s : Storage}
    (hw : w.guardian = { s with upgradeProposal := Function.update s.upgradeProposal id (some p) }) :
    ∃ ev, (w.checkUpgradeQuorum id p).guardian = { s with
      upgradeProposal := Function.update s.upgradeProposal id (some { p with
        quorumAtLedger := if p.quorumAtLedger = none ∧ s.threshold ≤ p.approvals.length
          then some w.pool.ledger else p.quorumAtLedger })
      events := ev } := by
  have hthr : w.guardian.threshold = s.threshold := by rw [hw]
  unfold World.checkUpgradeQuorum
  rw [hthr]
  by_cases hq : p.quorumAtLedger = none ∧ s.threshold ≤ p.approvals.length
  · refine ⟨s.events ++ [.upquorum id p.contractId], ?_⟩
    simp only [if_pos hq, World.publish, World.setUpgrade, hw, Function.update_idem]
  · refine ⟨s.events, ?_⟩
    simp only [if_neg hq, hw]

/-- **The effect of a call.** -/
theorem Call.effect {call : Call} (h : call.invoke H auth w = .ok w') :
    Effect w.pool.ledger w.guardian call w'.guardian := by
  cases call with
  | guardianInitialize a gs t d =>
      simp only [Call.invoke, World.guardianInitialize, bind_eq_ok, exists_unit, require_eq_ok,
        pure_eq_ok] at h
      obtain ⟨hadmin, -, ⟨hpos, hle⟩, rfl⟩ := h
      exact .guardianInitialize hadmin hpos hle
  | addGuardian g =>
      simp only [Call.invoke, World.addGuardian, bind_eq_ok, exists_unit] at h
      obtain ⟨hadmin, h⟩ := h
      split at h
      case isTrue hmem =>
        cases h
        exact .addKnown hmem
      case isFalse hmem =>
        cases h
        exact .addGuardian (World.requireAdmin_eq_ok hadmin) hmem
  | removeGuardian g =>
      simp only [Call.invoke, World.removeGuardian, bind_eq_ok, exists_unit, require_eq_ok,
        pure_eq_ok] at h
      obtain ⟨hadmin, hle, rfl⟩ := h
      exact .removeGuardian (World.requireAdmin_eq_ok hadmin) hle
  | setThreshold t =>
      simp only [Call.invoke, World.setThreshold, bind_eq_ok, exists_unit, require_eq_ok,
        pure_eq_ok] at h
      obtain ⟨hadmin, ⟨hpos, hle⟩, rfl⟩ := h
      exact .setThreshold (World.requireAdmin_eq_ok hadmin) hpos hle
  | proposePause g c r u =>
      simp only [Call.invoke, World.proposePause, World.nextId, bind_eq_ok, exists_unit,
        World.requireGuardian_eq_ok, World.checkU32_eq_ok, pure_eq_ok, Prod.exists,
        Prod.mk.injEq] at h
      obtain ⟨⟨hmem, -⟩, _, _, ⟨_, ⟨hid, rfl⟩, rfl, rfl⟩, h⟩ := h
      obtain ⟨ev, hw⟩ := World.tryExecutePause_guardian
        (s := { w.guardian with nextProposalId := w.guardian.nextProposalId + 1 }) rfl rfl h
      rw [hw]
      exact .proposePause ev hmem hid
  | approvePause g id =>
      simp only [Call.invoke, World.approvePause, bind_eq_ok, exists_unit,
        World.requireGuardian_eq_ok, World.find_eq_ok, require_eq_ok] at h
      obtain ⟨⟨hmem, -⟩, p, hp, hexec, hnew, h⟩ := h
      obtain ⟨ev, hw⟩ := World.tryExecutePause_guardian (s := w.guardian)
        (p := { p with approvals := p.approvals ++ [g] }) rfl hexec h
      rw [hw]
      simpa using Effect.approvePause ev hmem hp hexec hnew
  | proposeUpgrade g c hash =>
      simp only [Call.invoke, World.proposeUpgrade, World.nextId, bind_eq_ok, exists_unit,
        World.requireGuardian_eq_ok, World.checkU32_eq_ok, pure_eq_ok, Prod.exists,
        Prod.mk.injEq] at h
      obtain ⟨⟨hmem, -⟩, _, _, ⟨_, ⟨hid, rfl⟩, rfl, rfl⟩, rfl⟩ := h
      obtain ⟨ev, hw⟩ := World.checkUpgradeQuorum_guardian
        (s := { w.guardian with nextProposalId := w.guardian.nextProposalId + 1 })
        (p := ⟨c, hash, [g], none, false, false⟩)
        (w := World.setUpgrade w.guardian.nextProposalId ⟨c, hash, [g], none, false, false⟩
          { w with guardian := { w.guardian with
            nextProposalId := w.guardian.nextProposalId + 1 } }) rfl
      rw [hw]
      simpa [World.setUpgrade] using Effect.proposeUpgrade ev hmem hid
  | approveUpgrade g id =>
      simp only [Call.invoke, World.approveUpgrade, bind_eq_ok, exists_unit,
        World.requireGuardian_eq_ok, World.find_eq_ok, require_eq_ok, pure_eq_ok] at h
      obtain ⟨⟨hmem, -⟩, p, hp, ⟨hexec, hcancel⟩, hnew, rfl⟩ := h
      obtain ⟨ev, hw⟩ := World.checkUpgradeQuorum_guardian (s := w.guardian)
        (p := { p with approvals := p.approvals ++ [g] })
        (w := w.setUpgrade id { p with approvals := p.approvals ++ [g] }) rfl
      rw [hw]
      simpa [World.setUpgrade] using Effect.approveUpgrade ev hmem hp hexec hcancel hnew
  | cancelUpgrade g id =>
      simp only [Call.invoke, World.cancelUpgrade, bind_eq_ok, exists_unit,
        World.requireGuardian_eq_ok, World.find_eq_ok, require_eq_ok, pure_eq_ok] at h
      obtain ⟨⟨hmem, -⟩, p, hp, hexec, rfl⟩ := h
      exact .cancelUpgrade _ hmem hp hexec
  | executeUpgrade id =>
      simp only [Call.invoke, World.executeUpgrade, bind_eq_ok, exists_unit, World.find_eq_ok,
        require_eq_ok] at h
      obtain ⟨p, hp, ⟨hexec, hcancel⟩, h⟩ := h
      split at h
      case h_1 => cases h
      case h_2 q hq =>
        simp only [bind_eq_ok, exists_unit, World.checkU32_eq_ok, require_eq_ok, pure_eq_ok] at h
        obtain ⟨_, ⟨-, rfl⟩, hle, w₁, h₁, rfl⟩ := h
        have hg := invokeContract_guardian h₁
        simp only [World.publish, World.setUpgrade, hg]
        exact .executeUpgrade _ hp hexec hcancel hq hle

end

/-! ## Approvals in the log -/

/-- The two kinds of proposals, which share one counter. -/
inductive Proposal where
  | pause (id : ℕ)
  | upgrade (id : ℕ)
deriving DecidableEq

/-- A call by which a guardian of the moment approves a proposal. -/
def Invocation.Approves (i : Invocation σ) : Proposal → Address → Prop
  | .pause id, a => a ∈ i.pre.guardian.guardians ∧ (i.call = .approvePause a id ∨
      ∃ c r u, i.call = .proposePause a c r u ∧ i.pre.guardian.nextProposalId = id)
  | .upgrade id, a => a ∈ i.pre.guardian.guardians ∧ (i.call = .approveUpgrade a id ∨
      ∃ c h, i.call = .proposeUpgrade a c h ∧ i.pre.guardian.nextProposalId = id)

/-- An approval counts for one proposal. -/
theorem Invocation.Approves.proposal_unique {i : Invocation σ} {P P' : Proposal} {a a' : Address}
    (h : i.Approves P a) (h' : i.Approves P' a') : P' = P := by
  cases P with
  | pause id =>
      cases P' with
      | pause id' =>
          obtain ⟨-, h | ⟨_, _, _, h, rfl⟩⟩ := h <;> obtain ⟨-, h' | ⟨_, _, _, h', rfl⟩⟩ := h' <;>
            simp_all
      | upgrade id' =>
          obtain ⟨-, h | ⟨_, _, _, h, rfl⟩⟩ := h <;> obtain ⟨-, h' | ⟨_, _, h', rfl⟩⟩ := h' <;>
            simp_all
  | upgrade id =>
      cases P' with
      | pause id' =>
          obtain ⟨-, h | ⟨_, _, h, rfl⟩⟩ := h <;> obtain ⟨-, h' | ⟨_, _, _, h', rfl⟩⟩ := h' <;>
            simp_all
      | upgrade id' =>
          obtain ⟨-, h | ⟨_, _, h, rfl⟩⟩ := h <;> obtain ⟨-, h' | ⟨_, _, h', rfl⟩⟩ := h' <;>
            simp_all

/-- `a` approved `P` in the log `is`, and is still a guardian unless it was removed since, in the
rest of `is` or in `ks`. -/
def Stands (s : Storage) (is ks : List (Invocation σ)) (P : Proposal) (a : Address) : Prop :=
  ∃ ls i ms, is = ls ++ i :: ms ∧ i.Approves P a ∧
    (a ∈ s.guardians ∨ ∃ m ∈ ms ++ ks, m.call = .removeGuardian a)

/-- Distinct accounts whose approvals of `P` stand. -/
def Approved (s : Storage) (is ks : List (Invocation σ)) (P : Proposal) (as : List Address) : Prop :=
  as.Nodup ∧ ∀ a ∈ as, Stands s is ks P a

/-- The storage of a guardian that was not yet initialized, and the bounds of one that was. -/
structure Configured (s : Storage) : Prop where
  blank : s.admin = none → s.guardians = [] ∧ s.nextProposalId = 0 ∧
    (∀ id, s.pauseProposal id = none) ∧ ∀ id, s.upgradeProposal id = none
  members : s.admin ≠ none → 1 ≤ s.threshold ∧ s.threshold ≤ s.guardians.length
  counter : s.nextProposalId < 2 ^ 32
  pauseId : ∀ {id p}, s.pauseProposal id = some p → id < s.nextProposalId
  upgradeId : ∀ {id p}, s.upgradeProposal id = some p → id < s.nextProposalId

section
variable {ledger : ℕ} {s s' : Storage} {call : Call}

/-- A contract with a guardian has an admin. -/
theorem Configured.admin_of_mem (h : Configured s) {g : Address} (hg : g ∈ s.guardians) :
    s.admin ≠ none := by
  intro hn
  rw [(h.blank hn).1] at hg
  cases hg

/-- The ids in use stay below the next one. -/
theorem lt_of_update_some {α : Type} {f : ℕ → Option α} {n k id : ℕ} {x p : α}
    (hf : ∀ {id p}, f id = some p → id < n) (hk : k < n)
    (h : Function.update f k (some x) id = some p) : id < n := by
  by_cases hid : id = k
  · rwa [hid]
  · rw [Function.update_of_ne hid] at h
    exact hf h

/-- No call takes the admin away. -/
theorem Configured.effect (h : Configured s) (he : Effect ledger s call s') : Configured s' := by
  have hsucc : ∀ {α : Type} {f : ℕ → Option α}, (∀ {id p}, f id = some p → id < s.nextProposalId) →
      ∀ {id p}, f id = some p → id < s.nextProposalId + 1 := fun hf _ _ hp =>
    Nat.lt_succ_of_lt (hf hp)
  cases he with
  | guardianInitialize hadmin hpos hle =>
      obtain ⟨-, -, hpause, hupgrade⟩ := h.blank hadmin
      refine ⟨fun hn => ?_, fun _ => ⟨Nat.one_le_iff_ne_zero.2 hpos, hle⟩,
        Nat.two_pow_pos 32, ?_, ?_⟩
      · cases hn
      · intro id p hp
        rw [hpause id] at hp
        cases hp
      · intro id p hp
        rw [hupgrade id] at hp
        cases hp
  | addKnown hmem => exact h
  | addGuardian hadmin hmem =>
      refine ⟨fun hn => absurd hn hadmin, fun _ => ?_, h.counter, h.pauseId, h.upgradeId⟩
      have := h.members hadmin
      simp only [List.length_append]
      omega
  | removeGuardian hadmin hle =>
      exact ⟨fun hn => absurd hn hadmin, fun _ => ⟨(h.members hadmin).1, hle⟩, h.counter,
        h.pauseId, h.upgradeId⟩
  | setThreshold hadmin hpos hle =>
      exact ⟨fun hn => absurd hn hadmin, fun _ => ⟨Nat.one_le_iff_ne_zero.2 hpos, hle⟩, h.counter,
        h.pauseId, h.upgradeId⟩
  | proposePause ev hmem hid =>
      exact ⟨fun hn => absurd hn (h.admin_of_mem hmem), h.members, hid,
        lt_of_update_some (hsucc h.pauseId) (Nat.lt_succ_self _), hsucc h.upgradeId⟩
  | approvePause ev hmem hp hexec hnew =>
      exact ⟨fun hn => absurd hn (h.admin_of_mem hmem), h.members, h.counter,
        lt_of_update_some h.pauseId (h.pauseId hp), h.upgradeId⟩
  | proposeUpgrade ev hmem hid =>
      exact ⟨fun hn => absurd hn (h.admin_of_mem hmem), h.members, hid, hsucc h.pauseId,
        lt_of_update_some (hsucc h.upgradeId) (Nat.lt_succ_self _)⟩
  | approveUpgrade ev hmem hp hexec hcancel hnew =>
      exact ⟨fun hn => absurd hn (h.admin_of_mem hmem), h.members, h.counter, h.pauseId,
        lt_of_update_some h.upgradeId (h.upgradeId hp)⟩
  | cancelUpgrade ev hmem hp hexec =>
      exact ⟨fun hn => absurd hn (h.admin_of_mem hmem), h.members, h.counter, h.pauseId,
        lt_of_update_some h.upgradeId (h.upgradeId hp)⟩
  | @executeUpgrade id p q ev hp hexec hcancel hq hle =>
      refine ⟨fun hn => ?_, h.members, h.counter, h.pauseId,
        lt_of_update_some h.upgradeId (h.upgradeId hp)⟩
      rw [(h.blank hn).2.2.2 id] at hp
      cases hp

/-- Only a removal ends an account's membership. -/
theorem Effect.mem_guardians (he : Effect ledger s call s') (hs : Configured s) {a : Address}
    (ha : a ∈ s.guardians) : a ∈ s'.guardians ∨ call = .removeGuardian a := by
  cases he with
  | guardianInitialize hadmin hpos hle => exact absurd hadmin (hs.admin_of_mem ha)
  | addGuardian hadmin hmem => exact .inl (List.mem_append_left _ ha)
  | @removeGuardian g hadmin hle =>
      by_cases hag : a = g
      · exact .inr (by rw [hag])
      · exact .inl (List.mem_filter.2 ⟨ha, by simpa using hag⟩)
  | _ => exact .inl ha

/-- Only `set_threshold` changes the threshold of an initialized guardian. -/
theorem Effect.threshold_eq (he : Effect ledger s call s') (hadmin : s.admin ≠ none) :
    s'.threshold = s.threshold ∨ ∃ t, call = .setThreshold t := by
  cases he with
  | guardianInitialize hn hpos hle => exact absurd hn hadmin
  | @setThreshold t _ hpos hle => exact .inr ⟨t, rfl⟩
  | _ => exact .inl rfl

variable {is ks : List (Invocation σ)} {i : Invocation σ} {P : Proposal} {a : Address}

/-- An approval stands after another call, which is logged behind it. -/
theorem Stands.effect (h : Stands s is ks P a) (hs : Configured s)
    (he : Effect ledger s i.call s') : Stands s' is (ks ++ [i]) P a := by
  obtain ⟨ls, k, ms, rfl, happ, ha⟩ := h
  refine ⟨ls, k, ms, rfl, happ, ?_⟩
  rcases ha with ha | ⟨m, hm, hcall⟩
  · rcases he.mem_guardians hs ha with ha' | hrem
    · exact .inl ha'
    · exact .inr ⟨i, by simp, hrem⟩
  · refine .inr ⟨m, ?_, hcall⟩
    rw [← List.append_assoc]
    exact List.mem_append_left _ hm

/-- The log may end after the removals that are looked for. -/
theorem Stands.shift (h : Stands s is (i :: ks) P a) : Stands s (is ++ [i]) ks P a := by
  obtain ⟨ls, k, ms, rfl, happ, ha⟩ := h
  refine ⟨ls, k, ms ++ [i], by simp, happ, ?_⟩
  simpa using ha

/-- An approval stands when the log ends with another call. -/
theorem Stands.step (h : Stands s is [] P a) (hs : Configured s)
    (he : Effect ledger s i.call s') : Stands s' (is ++ [i]) [] P a :=
  (h.effect hs he).shift

theorem Stands.last (h : i.Approves P a) (ha : a ∈ s.guardians) : Stands s (is ++ [i]) [] P a :=
  ⟨is, i, [], rfl, h, .inl ha⟩

variable {as : List Address}

/-- The approvals of a proposal stand when the log ends with another call. -/
theorem Approved.step (h : Approved s is [] P as) (hs : Configured s)
    (he : Effect ledger s i.call s') : Approved s' (is ++ [i]) [] P as :=
  ⟨h.1, fun a ha => (h.2 a ha).step hs he⟩

/-- One more approval. -/
theorem Approved.concat (h : Approved s is [] P as) (ha : Stands s is [] P a) (hnew : a ∉ as) :
    Approved s is [] P (as ++ [a]) := by
  have hne : ∀ b ∈ as, b ≠ a := fun b hb hba => hnew (hba ▸ hb)
  refine ⟨List.nodup_append.2 ⟨h.1, by simp, by simpa using hne⟩, fun b hb => ?_⟩
  · rcases List.mem_append.1 hb with hb | hb
    · exact h.2 b hb
    · obtain rfl := List.mem_singleton.1 hb
      exact ha

theorem Approved.singleton (ha : Stands s is [] P a) : Approved s is [] P [a] :=
  ⟨by simp, by simpa using ha⟩

end

/-! ## Runs -/

/-- The ledger `q` is that of a call `l` at which the approvals of the upgrade `id` had reached the
threshold; the threshold is still that one unless `set_threshold` was called since. -/
def Latched (s : Storage) (is : List (Invocation σ)) (id q : ℕ) : Prop :=
  ∃ js l ks as, is = js ++ l :: ks ∧ l.pre.pool.ledger = q ∧
    Approved s (js ++ [l]) ks (.upgrade id) as ∧ l.pre.guardian.threshold ≤ as.length ∧
    (s.threshold = l.pre.guardian.threshold ∨ ∃ k ∈ ks, ∃ t, k.call = .setThreshold t)

/-- What the log says about the storage. -/
structure History (s : Storage) (is : List (Invocation σ)) : Prop where
  configured : Configured s
  nodup : (∀ i ∈ is, ∀ a gs t d, i.call = .guardianInitialize a gs t d → gs.Nodup) →
    s.guardians.Nodup
  pauses : ∀ {id p}, s.pauseProposal id = some p → Approved s is [] (.pause id) p.approvals
  upgrades : ∀ {id p}, s.upgradeProposal id = some p → Approved s is [] (.upgrade id) p.approvals
  latched : ∀ {id p q}, s.upgradeProposal id = some p → p.quorumAtLedger = some q →
    Latched s is id q
  executed : ∀ {i id}, i ∈ is → i.call = .executeUpgrade id →
    ∃ p, s.upgradeProposal id = some p ∧ p.executed = true
  cancelled : ∀ {i g id}, i ∈ is → i.call = .cancelUpgrade g id →
    ∃ p, s.upgradeProposal id = some p ∧ p.cancelled = true

section
variable {s s' : Storage} {is : List (Invocation σ)} {i : Invocation σ} {id q : ℕ} {ledger : ℕ}

/-- The ledger of a quorum stays that of the same call. -/
theorem Latched.step (h : Latched s is id q) (hs : Configured s) (hadmin : s.admin ≠ none)
    (he : Effect ledger s i.call s') : Latched s' (is ++ [i]) id q := by
  obtain ⟨js, l, ks, as, rfl, hq, happ, hle, hthr⟩ := h
  refine ⟨js, l, ks ++ [i], as, by simp, hq, ⟨happ.1, fun a ha => (happ.2 a ha).effect hs he⟩,
    hle, ?_⟩
  rcases hthr with hthr | ⟨k, hk, hcall⟩
  · rcases he.threshold_eq hadmin with h | hset
    · exact .inl (h.trans hthr)
    · exact .inr ⟨i, by simp, hset⟩
  · exact .inr ⟨k, List.mem_append_left _ hk, hcall⟩

/-- The call at which the threshold is reached. -/
theorem Latched.now {as : List Address} (happ : Approved s' (is ++ [i]) [] (.upgrade id) as)
    (hle : i.pre.guardian.threshold ≤ as.length) (hthr : s'.threshold = i.pre.guardian.threshold) :
    Latched s' (is ++ [i]) id i.pre.pool.ledger :=
  ⟨is, i, [], as, rfl, rfl, happ, hle, .inl hthr⟩

/-- A stored proposal is the one just written or an older one. -/
theorem update_some_cases {α : Type} {f : ℕ → Option α} {k n : ℕ} {x p : α}
    (h : Function.update f k (some x) n = some p) : (n = k ∧ p = x) ∨ (n ≠ k ∧ f n = some p) := by
  by_cases hn : n = k
  · subst hn
    exact .inl ⟨rfl, by simpa using h.symm⟩
  · exact .inr ⟨hn, by rwa [Function.update_of_ne hn] at h⟩

section
variable {w w' : World σ} {call : Call}

/-- The approvals of an upgrade after a call. -/
theorem History.upgrade_step (h : History w.guardian is)
    (he : Effect w.pool.ledger w.guardian call w'.guardian) {p : UpgradeProposal}
    (hp : w'.guardian.upgradeProposal id = some p) :
    Approved w'.guardian (is ++ [⟨call, w, w'⟩]) [] (.upgrade id) p.approvals ∧
      ∀ q, p.quorumAtLedger = some q → Latched w'.guardian (is ++ [⟨call, w, w'⟩]) id q := by
  -- what the log says about a proposal that was there before
  have hold : ∀ {id p}, w.guardian.upgradeProposal id = some p →
      Approved w'.guardian (is ++ [⟨call, w, w'⟩]) [] (.upgrade id) p.approvals ∧
        ∀ q, p.quorumAtLedger = some q → Latched w'.guardian (is ++ [⟨call, w, w'⟩]) id q := by
    intro id p hp
    have hadmin : w.guardian.admin ≠ none := by
      intro hn
      rw [(h.configured.blank hn).2.2.2 id] at hp
      cases hp
    exact ⟨(h.upgrades hp).step h.configured he,
      fun q hq => (h.latched hp hq).step h.configured hadmin he⟩
  generalize hs' : w'.guardian = s' at he hp hold ⊢
  cases he with
  | @proposeUpgrade g c hash ev hmem hid =>
      rcases update_some_cases hp with ⟨rfl, rfl⟩ | ⟨-, hp⟩
      · have hmem' : g ∈ w'.guardian.guardians := by rwa [hs']
        have happ := Approved.singleton (@Stands.last σ w'.guardian is
          ⟨.proposeUpgrade g c hash, w, w'⟩ (.upgrade w.guardian.nextProposalId) g
          ⟨hmem, .inr ⟨c, hash, rfl, rfl⟩⟩ hmem')
        rw [hs'] at happ
        refine ⟨happ, fun q hq => ?_⟩
        simp only [Option.ite_none_right_eq_some, Option.some.injEq] at hq
        obtain ⟨hle, rfl⟩ := hq
        exact .now happ hle rfl
      · exact hold hp
  | @approveUpgrade g id' p' ev hmem hp' hexec hcancel hnew =>
      rcases update_some_cases hp with ⟨rfl, rfl⟩ | ⟨-, hp⟩
      · have happ := (hold hp').1.concat (a := g) (.last ⟨hmem, .inl rfl⟩ hmem) hnew
        refine ⟨happ, fun q hq => ?_⟩
        simp only at hq
        split at hq
        case isTrue hlatch =>
          obtain rfl := Option.some.inj hq
          exact .now happ (by simpa using hlatch.2) rfl
        case isFalse => exact (hold hp').2 q hq
      · exact hold hp
  | cancelUpgrade ev hmem hp' hexec =>
      rcases update_some_cases hp with ⟨rfl, rfl⟩ | ⟨-, hp⟩
      · exact ⟨(hold hp').1, (hold hp').2⟩
      · exact hold hp
  | executeUpgrade ev hp' hexec hcancel hq hle =>
      rcases update_some_cases hp with ⟨rfl, rfl⟩ | ⟨-, hp⟩
      · exact ⟨(hold hp').1, (hold hp').2⟩
      · exact hold hp
  | _ => exact hold hp

/-- The approvals of a pause after a call. -/
theorem History.pause_step (h : History w.guardian is)
    (he : Effect w.pool.ledger w.guardian call w'.guardian) {p : PauseProposal}
    (hp : w'.guardian.pauseProposal id = some p) :
    Approved w'.guardian (is ++ [⟨call, w, w'⟩]) [] (.pause id) p.approvals := by
  have hold : ∀ {id p}, w.guardian.pauseProposal id = some p →
      Approved w'.guardian (is ++ [⟨call, w, w'⟩]) [] (.pause id) p.approvals :=
    fun hp => (h.pauses hp).step h.configured he
  generalize hs' : w'.guardian = s' at he hp hold ⊢
  cases he with
  | proposePause ev hmem hid =>
      rcases update_some_cases hp with ⟨rfl, rfl⟩ | ⟨-, hp⟩
      · exact .singleton (.last ⟨hmem, .inr ⟨_, _, _, rfl, rfl⟩⟩ hmem)
      · exact hold hp
  | @approvePause g id' p' ev hmem hp' hexec hnew =>
      rcases update_some_cases hp with ⟨rfl, rfl⟩ | ⟨-, hp⟩
      · exact (hold hp').concat (a := g) (.last ⟨hmem, .inl rfl⟩ hmem) hnew
      · exact hold hp
  | _ => exact hold hp

/-- A stored upgrade stays stored; executed and cancelled are final. -/
theorem Effect.upgrade_mono (hs : Configured s) (he : Effect ledger s call s')
    {p : UpgradeProposal} (hp : s.upgradeProposal id = some p) :
    ∃ p', s'.upgradeProposal id = some p' ∧ (p.executed = true → p'.executed = true) ∧
      (p.cancelled = true → p'.cancelled = true) := by
  -- a write under another number leaves this one
  have hwrite : ∀ {k : ℕ} {x : UpgradeProposal},
      (id = k → (p.executed = true → x.executed = true) ∧ (p.cancelled = true → x.cancelled = true)) →
      ∃ p', Function.update s.upgradeProposal k (some x) id = some p' ∧
        (p.executed = true → p'.executed = true) ∧ (p.cancelled = true → p'.cancelled = true) := by
    intro k x hx
    by_cases hk : id = k
    · exact ⟨x, by rw [hk, Function.update_self], hx hk⟩
    · exact ⟨p, by rw [Function.update_of_ne hk, hp], fun h => h, fun h => h⟩
  cases he with
  | proposeUpgrade ev hmem hid =>
      refine hwrite fun hk => ?_
      have := hs.upgradeId hp
      omega
  | approveUpgrade ev hmem hp' hexec hcancel hnew =>
      refine hwrite fun hk => ?_
      subst hk
      cases hp.symm.trans hp'
      exact ⟨fun h => h, fun h => h⟩
  | cancelUpgrade ev hmem hp' hexec =>
      refine hwrite fun hk => ?_
      subst hk
      cases hp.symm.trans hp'
      exact ⟨fun h => h, fun _ => rfl⟩
  | executeUpgrade ev hp' hexec hcancel hq hle =>
      refine hwrite fun hk => ?_
      subst hk
      cases hp.symm.trans hp'
      exact ⟨fun _ => rfl, fun h => h⟩
  | _ => exact ⟨p, hp, fun h => h, fun h => h⟩

/-- The guardians stay distinct. -/
theorem Effect.nodup_guardians (he : Effect ledger s call s')
    (hinit : ∀ a gs t d, call = .guardianInitialize a gs t d → gs.Nodup) (h : s.guardians.Nodup) :
    s'.guardians.Nodup := by
  cases he with
  | guardianInitialize hadmin hpos hle => exact hinit _ _ _ _ rfl
  | @addGuardian g hadmin hmem =>
      have hne : ∀ b ∈ s.guardians, b ≠ g := fun b hb hbg => hmem (hbg ▸ hb)
      exact List.nodup_append.2 ⟨h, by simp, by simpa using hne⟩
  | removeGuardian hadmin hle => exact h.filter _
  | _ => exact h

/-- **The step lemma.** -/
theorem History.step (h : History w.guardian is)
    (he : Effect w.pool.ledger w.guardian call w'.guardian) :
    History w'.guardian (is ++ [⟨call, w, w'⟩]) where
  configured := h.configured.effect he
  nodup hinit := he.nodup_guardians (hinit ⟨call, w, w'⟩ (by simp))
    (h.nodup fun i hi => hinit i (List.mem_append_left _ hi))
  pauses := h.pause_step he
  upgrades hp := (h.upgrade_step he hp).1
  latched hp hq := (h.upgrade_step he hp).2 _ hq
  executed := by
    intro i id hi hcall
    rcases List.mem_append.1 hi with hi | hi
    · obtain ⟨p, hp, hexec⟩ := h.executed hi hcall
      obtain ⟨p', hp', hmono, -⟩ := he.upgrade_mono h.configured hp
      exact ⟨p', hp', hmono hexec⟩
    · obtain rfl := List.mem_singleton.1 hi
      obtain rfl : call = .executeUpgrade id := hcall
      generalize w'.guardian = s' at he ⊢
      cases he with
      | executeUpgrade ev hp hexec hcancel hq hle => exact ⟨_, Function.update_self .., rfl⟩
  cancelled := by
    intro i g id hi hcall
    rcases List.mem_append.1 hi with hi | hi
    · obtain ⟨p, hp, hcancel⟩ := h.cancelled hi hcall
      obtain ⟨p', hp', -, hmono⟩ := he.upgrade_mono h.configured hp
      exact ⟨p', hp', hmono hcancel⟩
    · obtain rfl := List.mem_singleton.1 hi
      obtain rfl : call = .cancelUpgrade g id := hcall
      generalize w'.guardian = s' at he ⊢
      cases he with
      | cancelUpgrade ev hmem hp hexec => exact ⟨_, Function.update_self .., rfl⟩

end

/-- The storage before `initialize`, with an empty log. -/
theorem History.empty : History (σ := σ) Storage.empty [] where
  configured := ⟨fun _ => ⟨rfl, rfl, fun _ => rfl, fun _ => rfl⟩, fun h => absurd rfl h,
    Nat.two_pow_pos 32, (nomatch ·), (nomatch ·)⟩
  nodup _ := List.nodup_nil
  pauses h := nomatch h
  upgrades h := nomatch h
  latched h := nomatch h
  executed h := nomatch h
  cancelled h := nomatch h

/-- The log so far with the state, and every call in it with the log before it. -/
def Logged (s : Storage) (is : List (Invocation σ)) : Prop :=
  History s is ∧ ∀ js i ks, is = js ++ i :: ks → History i.pre.guardian js ∧
    Effect i.pre.pool.ledger i.pre.guardian i.call i.post.guardian

/-- The log of a call. -/
theorem Logged.step {w w' : World σ} {call : Call} (h : Logged w.guardian is)
    (he : Effect w.pool.ledger w.guardian call w'.guardian) :
    Logged w'.guardian (is ++ [⟨call, w, w'⟩]) := by
  refine ⟨h.1.step he, fun js i ks heq => ?_⟩
  rcases List.eq_nil_or_concat ks with rfl | ⟨ks, k, rfl⟩
  · obtain ⟨rfl, hi⟩ := List.append_inj' heq rfl
    obtain rfl : _ = i := by simpa using hi
    exact ⟨h.1, he⟩
  · rw [List.concat_eq_append, ← List.cons_append, ← List.append_assoc] at heq
    obtain ⟨rfl, -⟩ := List.append_inj' heq rfl
    exact h.2 js i ks rfl

/-- The log of a run. -/
theorem Logged.run (ts : List (Step σ)) {w : World σ} (h : Logged w.guardian is) :
    Logged (run H ts w).1.guardian (is ++ (run H ts w).2) := by
  induction ts generalizing w is with
  | nil => simpa [Guardian.run] using h
  | cons t ts ih =>
      simp only [Guardian.run]
      rw [← List.append_assoc]
      apply ih
      cases t with
      | invoke auth call =>
          cases hc : call.invoke H auth w with
          | error e => simpa [Step.run, hc] using h
          | ok w' => simpa [Step.run, hc] using h.step (Call.effect hc)
      | pool auth call =>
          simp only [Step.run]
          split
          · split
            · simpa using h
            · simpa using h
          · simpa using h
      | close => simpa [Step.run] using h
      | others f => simpa [Step.run] using h

/-- **What the log says, in every run.** -/
theorem history_run (ts : List (Step σ)) {w : World σ} (hw : w.guardian = .empty) :
    Logged (run H ts w).1.guardian (run H ts w).2 := by
  have h₀ : Logged w.guardian ([] : List (Invocation σ)) :=
    ⟨hw ▸ .empty, fun js i ks h => by cases js <;> cases h⟩
  exact h₀.run ts

end

end ShadePay.Stellar.Guardian
