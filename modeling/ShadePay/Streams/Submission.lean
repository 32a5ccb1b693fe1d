import ShadePay.Evm.Batches
import ShadePay.Streams.Relayer

/-!
# Submitting the selected batches

`submitSettlementBatch` sends a batch through the escrow's `settleBatch`. Ready settlements that the
escrow accepts one by one go through together exactly when no two of them are for the same channel
(`submitBatches_iff`): neither the selection nor the submission looks at the channels, and the escrow
consumes each channel once.
-/

namespace ShadePay.Streams

open Guard Evm Number

/-- `submitSettlementBatch`, up to the transaction. -/
def submitSettlementBatch (E : Env) (batch : List PendingSettlement) (s : State) :
    Except Error State :=
  s.settleBatch E (batch.map (·.proof)) (batch.map (·.publicSignals))

/-- Submit batches one after another, as long as none reverts. -/
def submitBatches (E : Env) : List (List PendingSettlement) → State → Except Error State
  | [], s => .ok s
  | batch :: rest, s => do
      let s' ← submitSettlementBatch E batch s
      submitBatches E rest s'

/-- The settlement that a pending one submits. -/
def PendingSettlement.call (p : PendingSettlement) : Groth16Proof × StreamSettlePub ℕ :=
  (p.proof, p.publicSignals)

/-- The escrow accepts the settlement in the state. -/
def Accepts (E : Env) (s : State) (p : PendingSettlement) : Prop :=
  ∃ s', s.settle E p.proof p.publicSignals = .ok s'

/-- The reserves and the tree suffice for a list of settlements. -/
structure Suffices (E : Env) (s : State) (ps : List PendingSettlement) : Prop where
  reserves : ∀ a, (ps.map fun p => settleDelta a p.publicSignals).sum ≠ 0 →
    Affords E s a (ps.map fun p => settleDelta a p.publicSignals).sum
  leaves : s.pool.tree.nextLeafIndex + 2 * ps.length ≤ 2 ^ E.levels

section
variable {E : Env} {s s' : State} {p : PendingSettlement} {ps : List PendingSettlement}

/-- What the escrow's acceptance of a settlement says. -/
theorem Accepts.checks (h : Accepts E s p) : s.escrow.access.paused = false ∧
    SettleChecks E s p.proof p.publicSignals ∧ s.pool.access.paused = false ∧
      Low s p.publicSignals := by
  obtain ⟨s', h⟩ := h
  simp only [State.settle, bind_eq_ok, Access.whenNotPaused_eq_ok, exists_unit] at h
  obtain ⟨hp, h⟩ := h
  obtain ⟨hc, hp', h1, h2, -⟩ := State.settleOne_ok_iff.1 ⟨_, h⟩
  exact ⟨hp, hc, hp', fun hne => (h1 hne).2.2.1, fun hne => (h2 hne).2.2.1⟩

/-- A batch that is submitted runs the loop of the escrow. -/
theorem submitSettlementBatch_eq (hp : s.escrow.access.paused = false) :
    submitSettlementBatch E ps s = State.settleLoop E (ps.map (·.call)) s := by
  have hzip : (ps.map (·.proof)).zip (ps.map (·.publicSignals)) = ps.map (·.call) := by
    rw [List.zip_map']
    rfl
  rw [submitSettlementBatch, State.settleBatch, Access.whenNotPaused, require, if_pos hp, require,
    if_pos (by rw [List.length_map, List.length_map]), hzip]
  rfl

/-- Two lists of settlements one after the other. -/
theorem settleLoop_append (qs qs' : List (Groth16Proof × StreamSettlePub ℕ)) (s : State) :
    State.settleLoop E (qs ++ qs') s = State.settleLoop E qs s >>= State.settleLoop E qs' := by
  induction qs generalizing s with
  | nil => rfl
  | cons q qs ih =>
      rw [List.cons_append, State.settleLoop, State.settleLoop]
      cases h : s.settleOne E q.1 q.2 with
      | error e => rfl
      | ok s₁ => exact ih s₁

/-- Batches one after another settle what they hold together. -/
theorem submitBatches_eq (hp : s.escrow.access.paused = false)
    (batches : List (List PendingSettlement)) :
    submitBatches E batches s = State.settleLoop E (batches.flatten.map (·.call)) s := by
  induction batches generalizing s with
  | nil => rfl
  | cons batch rest ih =>
      rw [submitBatches, submitSettlementBatch_eq hp, List.flatten_cons, List.map_append,
        settleLoop_append]
      cases h : State.settleLoop E (batch.map (·.call)) s with
      | error e => rfl
      | ok s₁ =>
          refine ih ?_
          rw [(State.settleLoop_settled h).config.escrow]
          exact hp

/-- **Settlements that are accepted one by one** go through together when their channels differ. -/
theorem settleable_iff (hacc : ∀ p ∈ ps, Accepts E s p) (hroom : Suffices E s ps) :
    Settleable E s (ps.map (·.call)) ↔ (ps.map (·.publicSignals.channelId)).Nodup := by
  constructor
  · intro h
    simpa [PendingSettlement.call, Function.comp_def] using h.nodup
  · intro hnodup
    refine ⟨by simpa [PendingSettlement.call, Function.comp_def] using hnodup, fun q hq => ?_,
      fun hne => ?_, ?_, fun j hj => ?_⟩
    · obtain ⟨p, hp, rfl⟩ := List.mem_map.1 hq
      exact (hacc p hp).checks.2.1
    · obtain ⟨p, hp⟩ := List.exists_mem_of_ne_nil ps (by simpa using hne)
      exact (hacc p hp).checks.2.2.1
    · simpa only [List.map_map, PendingSettlement.call, Function.comp_def] using hroom.reserves
    · have := hroom.leaves
      rw [List.length_map] at hj
      omega

/-- **Selected batches.** Each pending settlement is accepted on its own, and there is room for all
that are ready. The batches that the relayer selects go through one after another, and settle the
channel of each ready settlement, exactly when no two of these are for the same channel. -/
theorem submitBatches_iff {pending : List PendingSettlement} {currentBlock : ℤ} {policy : BatchPolicy}
    {x : Double} {b : ℕ} (hlen : pending.length < 2 ^ 32) (hsize : policy.maxBatchSize = .finite x)
    (hx : x.val = b) (hb : 0 < b) (hacc : ∀ p ∈ pending, Accepts E s p)
    (hroom : Suffices E s (pending.filter (isReady currentBlock policy))) :
    ∃ fuel batches, selectSettlementBatches fuel pending currentBlock policy = some batches ∧
      ((∃ s', submitBatches E batches s = .ok s' ∧
          ∀ p ∈ pending.filter (isReady currentBlock policy),
            (s'.escrow.channels p.publicSignals.channelId).consumed = true) ↔
        ((pending.filter (isReady currentBlock policy)).map
          (·.publicSignals.channelId)).Nodup) := by
  have hlen' := List.length_filter_le (isReady currentBlock policy) pending
  have hn : (sortedReady pending currentBlock policy).length ≤ 2 ^ 53 := by
    rw [(sortedReady_perm pending currentBlock policy).length_eq]
    omega
  obtain ⟨fuel, batches, hrun, hsel⟩ :=
    selectSettlementBatches_of_splits hn (hsize ▸ splits_natCast hx hb hn)
  refine ⟨fuel, batches, hrun, ?_⟩
  have hacc' : ∀ p ∈ pending.filter (isReady currentBlock policy), Accepts E s p :=
    fun p hp => hacc p (List.mem_of_mem_filter hp)
  have hperm := hsel.lossless.map (·.call)
  rw [← settleable_iff hacc' hroom]
  rcases hready : pending.filter (isReady currentBlock policy) with _ | ⟨p₀, rest⟩
  · -- nothing is ready, and there is no batch
    obtain rfl : batches = [] := by
      cases batches with
      | nil => rfl
      | cons b bs =>
          have hnil : (b :: bs).flatten = [] := (hready ▸ hsel.lossless).eq_nil
          rw [List.flatten_cons, List.append_eq_nil_iff] at hnil
          exact absurd hnil.1 (hsel.sized b List.mem_cons_self).1
    exact ⟨fun _ => ⟨by simp, by simp, by simp, by simp, by simp⟩, fun _ => ⟨s, rfl, by simp⟩⟩
  · have hp : s.escrow.access.paused = false :=
      (hacc' p₀ (hready ▸ List.mem_cons_self)).checks.1
    have hlow : ∀ q ∈ batches.flatten.map (·.call), Low s q.2 := fun q hq => by
      obtain ⟨p, hp, rfl⟩ := List.mem_map.1 (hperm.mem_iff.1 hq)
      exact (hacc' p hp).checks.2.2.2
    rw [← hready]
    rw [submitBatches_eq hp]
    constructor
    · rintro ⟨s', hs', -⟩
      exact ((State.settleLoop_ok_iff hlow).1 ⟨s', hs'⟩).perm hperm
    · intro h
      obtain ⟨s', hs'⟩ := (State.settleLoop_ok_iff hlow).2 (h.perm hperm.symm)
      refine ⟨s', hs', fun p hp => ?_⟩
      have hmem : p.publicSignals.channelId ∈
          ((batches.flatten.map (·.call)).map (·.2)).map (·.channelId) := by
        rw [List.map_map, List.map_map]
        exact List.mem_map_of_mem (hsel.lossless.mem_iff.2 hp)
      rw [(State.settleLoop_settled hs').closed _ hmem]

end

/-! ## Two channels -/

/-- A pending settlement of `pairedSettle`. -/
def pendingPaired (channelId cap cumulative : ℕ) : PendingSettlement :=
  ⟨channelId, someProof, pairedSettle channelId cap cumulative, 5, cumulative⟩

/-- The escrow of the run accepts the settlements one by one. -/
theorem accepts_paired : ∀ p ∈ [pendingPaired 3 3 1, pendingPaired 3 3 2, pendingPaired 4 10 6],
    Accepts (sampleEnv pairedAccepted) (paired 20) p := by
  have hsome : ∀ p ∈ [pendingPaired 3 3 1, pendingPaired 3 3 2, pendingPaired 4 10 6],
      ((paired 20).settle (sampleEnv pairedAccepted) p.proof p.publicSignals).toOption.isSome =
        true := by
    decide
  intro p hp
  obtain ⟨s', hs'⟩ := Option.isSome_iff_exists.1 (hsome p hp)
  exact ⟨s', toOption_eq_some.1 hs'⟩

/-- The room of the run suffices for what it settles. -/
theorem suffices_paired {ps : List PendingSettlement} (hasset : ∀ p ∈ ps, p.publicSignals.assetId = 11)
    (hsum : (ps.map fun p => settleDelta 11 p.publicSignals).sum ≤ 80) (hlen : ps.length ≤ 4) :
    Suffices (sampleEnv pairedAccepted) (paired 20) ps := by
  have htoken : (paired 20).pool.assetToken 11 ≠ 0 := by decide
  have hsupply : (paired 20).pool.noteSupplyOf 11 = 20 := by decide
  have hbalance : (paired 20).poolBalance (sampleEnv pairedAccepted)
      ((paired 20).pool.assetToken 11) = 100 := by decide
  have hnext : (paired 20).pool.tree.nextLeafIndex = 0 := by decide
  refine ⟨fun a hne => ?_, ?_⟩
  · obtain rfl : a = 11 := by
      by_contra ha
      refine hne (List.sum_eq_zero fun d hd => ?_)
      obtain ⟨p, hp, rfl⟩ := List.mem_map.1 hd
      rw [settleDelta, hasset p hp, if_neg (Ne.symm ha)]
    refine ⟨htoken, ?_, ?_⟩
    · rw [hsupply]
      exact lt_of_le_of_lt (by linarith) (by norm_num : (100 : ℤ) < 2 ^ 255)
    · rw [hsupply, hbalance]
      push_cast
      linarith
  · have hlevels : (2 : ℕ) ^ (sampleEnv pairedAccepted).levels = 8 := rfl
    rw [hnext, hlevels]
    omega

/-- A batch for each of two channels. -/
theorem submitBatches_iff_paired :
    ∃ fuel batches, selectSettlementBatches fuel [pendingPaired 3 3 1, pendingPaired 4 10 6] 10
        ⟨0, 0, ofRat (1 : ℕ)⟩ = some batches ∧
      ∃ s', submitBatches (sampleEnv pairedAccepted) batches (paired 20) = .ok s' ∧
        ∀ p ∈ [pendingPaired 3 3 1, pendingPaired 4 10 6],
          (s'.escrow.channels p.publicSignals.channelId).consumed = true := by
  obtain ⟨x, hx, hx1⟩ := ofRat_natCast (n := 1) (by norm_num)
  have hready : [pendingPaired 3 3 1, pendingPaired 4 10 6].filter
      (isReady 10 ⟨0, 0, ofRat (1 : ℕ)⟩) = [pendingPaired 3 3 1, pendingPaired 4 10 6] := rfl
  have hacc : ∀ p ∈ [pendingPaired 3 3 1, pendingPaired 4 10 6],
      Accepts (sampleEnv pairedAccepted) (paired 20) p := fun p hp =>
    accepts_paired p (by
      rcases List.mem_pair.1 hp with rfl | rfl <;> simp)
  have hroom : Suffices (sampleEnv pairedAccepted) (paired 20)
      [pendingPaired 3 3 1, pendingPaired 4 10 6] :=
    suffices_paired (by decide) (by decide) (by decide)
  obtain ⟨fuel, batches, hrun, hiff⟩ := @submitBatches_iff (sampleEnv pairedAccepted) (paired 20)
    [pendingPaired 3 3 1, pendingPaired 4 10 6] 10 ⟨0, 0, ofRat (1 : ℕ)⟩ x 1 (by decide) hx hx1
    one_pos hacc (hready ▸ hroom)
  rw [hready] at hiff
  exact ⟨fuel, batches, hrun, hiff.2 (by decide)⟩

/-- Two vouchers for channel 3 and one for channel 4: the escrow accepts each alone, and the batch of
the three reverts. -/
theorem submitBatches_reverts :
    let pending := [pendingPaired 3 3 1, pendingPaired 3 3 2, pendingPaired 4 10 6]
    (∀ p ∈ pending, Accepts (sampleEnv pairedAccepted) (paired 20) p) ∧
      Suffices (sampleEnv pairedAccepted) (paired 20) pending ∧
      selectSettlementBatches 2 pending 10 ⟨0, 0, ofRat (3 : ℕ)⟩ = some [pending] ∧
      ¬ ∃ s', submitBatches (sampleEnv pairedAccepted) [pending] (paired 20) = .ok s' := by
  refine ⟨accepts_paired, suffices_paired (by decide) (by decide) (by decide), ?_, ?_⟩
  · have hsorted : sortedReady [pendingPaired 3 3 1, pendingPaired 3 3 2, pendingPaired 4 10 6] 10
        ⟨0, 0, ofRat (3 : ℕ)⟩ = [pendingPaired 3 3 1, pendingPaired 3 3 2, pendingPaired 4 10 6] :=
      List.mergeSort_of_pairwise (by decide)
    rw [selectSettlementBatches, hsorted]
    decide +kernel
  · rintro ⟨s', h⟩
    have hnone : (submitBatches (sampleEnv pairedAccepted)
        [[pendingPaired 3 3 1, pendingPaired 3 3 2, pendingPaired 4 10 6]]
        (paired 20)).toOption.isSome = false := by
      decide +kernel
    rw [h] at hnone
    cases hnone

end ShadePay.Streams
