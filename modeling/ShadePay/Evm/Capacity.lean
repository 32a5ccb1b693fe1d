import ShadePay.Evm.Vouchers

/-!
# Room in the tree for open channels

Closing a channel inserts up to two leaves into a tree of bounded depth that every other operation
inserts into as well. `Room` says that two leaves are free for each open channel. The contracts do not
keep it: `tree_fills_up` is a run in which deposits take the last leaves and a channel cannot be
closed any more. `closings_have_room` is the run-level statement of when it is kept: when each call
that inserts leaves of its own leaves that much free.
-/

namespace ShadePay.Evm

open Guard Reentrancy

/-! ## Room -/

/-- The channels that are open and not consumed. -/
def openChannels (s : State) : Set ℕ :=
  {c | (s.escrow.channels c).opened = true ∧ (s.escrow.channels c).consumed = false}

/-- There are two free leaves for each open channel. -/
structure Room (E : Env) (s : State) : Prop where
  finite : (openChannels s).Finite
  leaves : s.pool.tree.nextLeafIndex + 2 * (openChannels s).ncard ≤ 2 ^ E.levels

/-- The leaves a call inserts other than in closing a channel. -/
def Call.newLeaves : Call → ℕ
  | .receiveDeposit .. => 1
  | .privateTransferSettle .. => 1
  | .mpcSettle .. => 2
  | .mpcSettlePriced .. => 2
  | .streamInsert .. => 1
  | .open .. => 1
  | _ => 0

/-- The channels a call opens. -/
def Call.newChannels : Call → ℕ
  | .open .. => 1
  | _ => 0

/-- A call that inserts leaves of its own finds, besides these, two free ones for each channel that is
open after it. -/
def SparesRoom (E : Env) (e : Entry E) (s : State) : Prop :=
  e.call.newLeaves ≠ 0 → s.pool.tree.nextLeafIndex + e.call.newLeaves +
    2 * ((openChannels s).ncard + e.call.newChannels) ≤ 2 ^ E.levels

/-! ## What the primitives do to it -/

def Prim.isInsert : Prim → Bool
  | .insert _ => true
  | _ => false

def Prim.isOpen : Prim → Bool
  | .openChannel .. => true
  | _ => false

def Prim.isConsume : Prim → Bool
  | .consume _ => true
  | _ => false

section
variable {E : Env} {s s' : State}

/-- The open channels are read off the channels. -/
theorem openChannels_congr (h : s'.escrow.channels = s.escrow.channels) :
    openChannels s' = openChannels s := by
  rw [openChannels, h, openChannels]

/-- A consumed channel is open no more. -/
theorem openChannels_consume (c : ℕ) :
    openChannels (s.setChannel c { s.escrow.channels c with consumed := true }) =
      openChannels s \ {c} := by
  ext k
  by_cases hk : k = c
  · subst hk
    simp [openChannels, State.setChannel]
  · simp [openChannels, State.setChannel, hk]

/-- An insertion takes one leaf. -/
theorem IncrementalMerkleTree.insert_next {h : ℕ → ℕ → ℕ} {d leaf i : ℕ}
    {t t' : IncrementalMerkleTree} (hins : t.insert h d leaf = .ok (i, t')) :
    t'.nextLeafIndex = t.nextLeafIndex + 1 := by
  simp only [IncrementalMerkleTree.insert, bind_eq_ok, require_eq_ok, exists_unit, pure_eq_ok,
    Prod.mk.injEq] at hins
  obtain ⟨-, -, -, rfl⟩ := hins
  rfl

/-- An insertion takes a leaf, an opening adds an open channel, and a consumption takes one away. -/
theorem Prim.run_room {p : Prim} (h : p.run E s = .ok s') (hfin : (openChannels s).Finite)
    (hfresh : ∀ c ch, p = .openChannel c ch → ch.opened = true ∧ ch.consumed = false) :
    (openChannels s').Finite ∧
      s'.pool.tree.nextLeafIndex = s.pool.tree.nextLeafIndex + p.isInsert.toNat ∧
      (openChannels s').ncard + p.isConsume.toNat = (openChannels s).ncard + p.isOpen.toNat := by
  cases p with
  | spend x n =>
      obtain ⟨-, rfl⟩ := State.spend_eq_ok.1 h
      exact ⟨hfin, rfl, rfl⟩
  | insert leaf =>
      simp only [Prim.run, bind_eq_ok, Prod.exists, pure_eq_ok] at h
      obtain ⟨i, _, h, rfl⟩ := h
      obtain ⟨t, ht, rfl⟩ := State.insert_eq_ok.1 h
      exact ⟨hfin, IncrementalMerkleTree.insert_next ht, rfl⟩
  | adjust a d =>
      obtain ⟨-, rfl⟩ := State.adjustNoteSupply_eq_ok.1 h
      exact ⟨hfin, rfl, rfl⟩
  | deposit n =>
      cases h
      exact ⟨hfin, rfl, rfl⟩
  | emit e =>
      cases h
      exact ⟨hfin, rfl, rfl⟩
  | openChannel c ch =>
      simp only [Prim.run, bind_eq_ok, require_eq_ok, exists_unit, pure_eq_ok] at h
      obtain ⟨hnew, rfl⟩ := h
      have hset : openChannels (s.setChannel c ch) = Insert.insert c (openChannels s) := by
        ext k
        by_cases hk : k = c
        · subst hk
          simpa [openChannels, State.setChannel] using hfresh k ch rfl
        · simp [openChannels, State.setChannel, hk]
      have hnot : c ∉ openChannels s := fun hc => by
        rw [hc.1] at hnew
        cases hnew
      rw [hset]
      exact ⟨hfin.insert c, rfl, Set.ncard_insert_of_notMem hnot hfin⟩
  | consume c =>
      simp only [Prim.run, bind_eq_ok, require_eq_ok, exists_unit, pure_eq_ok] at h
      obtain ⟨hop, hcon, rfl⟩ := h
      rw [openChannels_consume]
      exact ⟨hfin.sdiff, rfl, Set.ncard_sdiff_singleton_add_one ⟨hop, hcon⟩ hfin⟩

/-- A list of primitives, by its counts. -/
theorem runPrims_room {ps : List Prim} (h : runPrims E ps s = .ok s') (hfin : (openChannels s).Finite)
    (hfresh : ∀ c ch, .openChannel c ch ∈ ps → ch.opened = true ∧ ch.consumed = false) :
    (openChannels s').Finite ∧
      s'.pool.tree.nextLeafIndex = s.pool.tree.nextLeafIndex + ps.countP Prim.isInsert ∧
      (openChannels s').ncard + ps.countP Prim.isConsume =
        (openChannels s).ncard + ps.countP Prim.isOpen := by
  induction ps generalizing s with
  | nil =>
      cases h
      exact ⟨hfin, rfl, rfl⟩
  | cons p ps ih =>
      obtain ⟨s₁, h1, h2⟩ := (runPrims_cons E).1 h
      obtain ⟨hfin₁, hn, hc⟩ := Prim.run_room h1 hfin fun c ch hp => hfresh c ch (by simp [hp])
      obtain ⟨hfin', hn', hc'⟩ := ih h2 hfin₁ fun c ch hp => hfresh c ch (by simp [hp])
      have hcount : ∀ f : Prim → Bool, (p :: ps).countP f = (f p).toNat + ps.countP f := by
        intro f
        cases hf : f p <;> simp [hf, Nat.add_comm]
      rw [hcount, hcount, hcount]
      exact ⟨hfin', by omega, by omega⟩

/-! ## Runs -/

/-- An insertion for a channel takes one leaf. -/
theorem streamPrims_counts (a c : ℕ) (d : ℤ) : (streamPrims a c d).countP Prim.isInsert = 1 ∧
    (streamPrims a c d).countP Prim.isConsume = 0 ∧ (streamPrims a c d).countP Prim.isOpen = 0 := by
  unfold streamPrims
  split <;> exact ⟨rfl, rfl, rfl⟩

/-- A settlement consumes a channel and takes two leaves. -/
theorem settlePrims_counts (pub : StreamSettlePub ℕ) : (settlePrims pub).countP Prim.isInsert = 2 ∧
    (settlePrims pub).countP Prim.isConsume = 1 ∧ (settlePrims pub).countP Prim.isOpen = 0 := by
  obtain ⟨h1, h2, h3⟩ := streamPrims_counts pub.assetId pub.payeeCommitment (int256 pub.cumulative)
  obtain ⟨h4, h5, h6⟩ := streamPrims_counts pub.assetId pub.refundCommitment
    (int256 (pub.cap - pub.cumulative))
  simp [settlePrims, List.countP_append, List.countP_cons, h1, h2, h3, h4, h5, h6, Prim.isInsert, Prim.isConsume,
    Prim.isOpen]

/-- A batch of settlements takes two leaves for each channel it consumes. -/
theorem settles_counts (pubs : List (StreamSettlePub ℕ)) :
    (pubs.flatMap settlePrims).countP Prim.isInsert =
      2 * (pubs.flatMap settlePrims).countP Prim.isConsume ∧
    (pubs.flatMap settlePrims).countP Prim.isOpen = 0 := by
  induction pubs with
  | nil => exact ⟨rfl, rfl⟩
  | cons pub pubs ih =>
      obtain ⟨h1, h2, h3⟩ := settlePrims_counts pub
      rw [List.flatMap_cons, List.countP_append, List.countP_append, List.countP_append]
      omega

/-- A call takes no more leaves than its own and two for each channel it consumes. -/
theorem Call.prims_counts (x : Address) (call : Call) :
    (call.prims E x s).countP Prim.isInsert ≤
      call.newLeaves + 2 * (call.prims E x s).countP Prim.isConsume ∧
    (call.prims E x s).countP Prim.isOpen = call.newChannels := by
  cases call with
  | settle proof pub =>
      obtain ⟨h1, h2, h3⟩ := settlePrims_counts pub
      exact ⟨by rw [Call.prims, h1, h2]; simp [Call.newLeaves], h3⟩
  | settleBatch proofs pubs =>
      obtain ⟨h1, h2⟩ := settles_counts pubs
      exact ⟨by rw [Call.prims, h1]; simp [Call.newLeaves], h2⟩
  | reclaim c =>
      obtain ⟨h1, h2, h3⟩ := streamPrims_counts (s.escrow.channels c).assetId
        (s.escrow.channels c).reclaimCommitment (int256 (s.escrow.channels c).cap)
      simp [Call.prims, List.countP_append, List.countP_cons, h1, h2, h3, Prim.isInsert,
        Prim.isConsume, Prim.isOpen, Call.newLeaves, Call.newChannels]
  | streamInsert a c d =>
      obtain ⟨h1, h2, h3⟩ := streamPrims_counts a c d
      simp [Call.prims, h1, h2, h3, Call.newLeaves, Call.newChannels]
  | «open» proof pub =>
      obtain ⟨h1, h2, h3⟩ := streamPrims_counts pub.assetId pub.changeCommitment (-int256 pub.cap)
      simp [Call.prims, List.countP_append, List.countP_cons, h1, h2, h3, Prim.isInsert,
        Prim.isConsume, Prim.isOpen, Call.newLeaves, Call.newChannels]
  | _ =>
      simp [Call.prims, pairPrims, List.countP_cons, Prim.isInsert, Prim.isConsume, Prim.isOpen,
        Call.newLeaves, Call.newChannels]

/-- **One call** that spares the room. -/
theorem Room.call {e : Entry E} (hR : Room E s) (hG : SparesRoom E e s)
    (h : runPrims E (e.call.prims E e.sender s) s = .ok s') : Room E s' := by
  have hfresh : ∀ c ch, .openChannel c ch ∈ e.call.prims E e.sender s →
      ch.opened = true ∧ ch.consumed = false := by
    intro c ch hp
    obtain ⟨proof, pub, -, -, rfl⟩ := Call.eq_open hp
    exact ⟨rfl, rfl⟩
  obtain ⟨hfin, hn, hc⟩ := runPrims_room h hR.finite hfresh
  obtain ⟨hle, hopen⟩ := @Call.prims_counts E s e.sender e.call
  refine ⟨hfin, ?_⟩
  have := hR.leaves
  by_cases h0 : e.call.newLeaves = 0
  · have hch : e.call.newChannels = 0 := by
      revert h0
      cases e.call <;> simp [Call.newLeaves, Call.newChannels]
    omega
  · have := hG h0
    omega

/-- Going on after an external call touches neither the tree nor the channels. -/
theorem Room.resume {k : Kont} (hR : Room E s) (h : runPrims E k.prims (k.tokens E s) = .ok s') :
    Room E s' := by
  have htree : s'.pool.tree.nextLeafIndex = s.pool.tree.nextLeafIndex := by
    have hnone : k.prims.countP Prim.isInsert = 0 := by cases k <;> rfl
    have hfin : (openChannels (k.tokens E s)).Finite := by cases k <;> exact hR.finite
    have hn := (runPrims_room h hfin (by cases k <;> simp [Kont.prims])).2.1
    rw [hn, hnone]
    cases k <;> rfl
  have hch := openChannels_congr (resume_channels h)
  exact ⟨hch ▸ hR.finite, by rw [htree, hch]; exact hR.leaves⟩

/-- Calls that spare the room leave it. -/
theorem preserves_room : Preserves ((machine E).admitting (SparesRoom E) fun _ _ => True)
    fun _ w => Room E w.1 := by
  have henter : ∀ {e : Entry E} {s s' : State} {ko : Option Kont}, Room E s →
      ((machine E).admitting (SparesRoom E) fun _ _ => True).enter e s = some (s', ko) →
      Room E s' := by
    intro e s s' ko hR h
    obtain ⟨hG, h⟩ := admitting_enter.1 h
    exact hR.call hG (machine_enter h).2.1
  have hresume : ∀ {k : Kont} {s s' : State} {ko : Option Kont}, Room E s →
      ((machine E).admitting (SparesRoom E) fun _ _ => True).resume k s = some (s', ko) →
      Room E s' := by
    intro k s s' ko hR h
    exact hR.resume (machine_resume (admitting_resume.1 h).2).1
  refine ⟨henter, henter, hresume, hresume, fun hR h => ?_⟩
  rcases act_inv h with ⟨b, al, n, rfl, -⟩ | ⟨-, hc⟩
  · exact ⟨hR.finite, hR.leaves⟩
  · have hch := openChannels_congr hc.channels
    exact ⟨hch ▸ hR.finite, by rw [hc.tree, hch]; exact hR.leaves⟩

end

/-! ## Closing channels -/

/-- What closes channels, and the passing of time between closings. -/
inductive Closing where
  | settle (proof : Groth16Proof) (pub : StreamSettlePub ℕ)
  | settleBatch (proofs : List Groth16Proof) (pubs : List (StreamSettlePub ℕ))
  | reclaim (channelId : ℕ)
  | mine (blocks : ℕ)

def State.close (E : Env) (s : State) : Closing → Except Error State
  | .settle proof pub => s.settle E proof pub
  | .settleBatch proofs pubs => s.settleBatch E proofs pubs
  | .reclaim c => s.reclaim E c
  | .mine blocks => .ok { s with block := s.block + blocks }

/-- Close channels one after another, up to the first failure. -/
def State.closeAll (E : Env) : List Closing → State → Except Error State
  | [], s => .ok s
  | c :: cs, s => do
      let s' ← s.close E c
      closeAll E cs s'

section
variable {E : Env} {s s' : State}

/-- Adjusting the supply never fails for a full tree. -/
theorem State.adjustNoteSupply_ne_full {a : ℕ} {d : ℤ} :
    s.adjustNoteSupply E a d ≠ .error .merkleTreeFull := by
  simp only [State.adjustNoteSupply, ne_eq, bind_eq_error, require_eq_error, require_eq_ok, exists_unit,
    reduceCtorEq, and_false, pure_ne_error, or_false, not_false_eq_true]

/-- An insertion fails for a full tree only if the tree is full. -/
theorem State.insert_full {c : ℕ} (h : s.insert E c = .error .merkleTreeFull) :
    s.pool.tree.nextLeafIndex = 2 ^ E.levels := by
  simp only [State.insert, IncrementalMerkleTree.insert, bind_eq_error, require_eq_error, require_eq_ok,
    exists_unit, reduceCtorEq, and_false, false_or, pure_ne_error, or_false, exists_false,
    not_not] at h
  exact h.2.1

/-- `streamInsert` finds the tree full only when it is. -/
theorem State.streamInsert_full {x : Address} {a c : ℕ} {d : ℤ}
    (h : s.streamInsert E x a c d = .error .merkleTreeFull) :
    s.pool.tree.nextLeafIndex = 2 ^ E.levels := by
  simp only [State.streamInsert, Access.whenNotPaused, bind_eq_error, require_eq_error, require_eq_ok,
    exists_unit, reduceCtorEq, and_false, false_or] at h
  obtain ⟨-, -, h⟩ := h
  split at h
  · simp only [bind_eq_error, pure_ne_error, and_false, exists_false, or_false] at h
    rcases h with h | ⟨s₁, h1, h⟩
    · exact absurd h State.adjustNoteSupply_ne_full
    · obtain ⟨-, rfl⟩ := State.adjustNoteSupply_eq_ok.1 h1
      have hfull := State.insert_full h
      exact hfull
  · simp only [ok_bind, bind_eq_error, pure_ne_error, and_false, exists_false, or_false] at h
    exact State.insert_full h

/-- `streamInsert` takes one leaf. -/
theorem State.streamInsert_next {x : Address} {a c : ℕ} {d : ℤ} (hfin : (openChannels s).Finite)
    (h : s.streamInsert E x a c d = .ok s') :
    s'.pool.tree.nextLeafIndex = s.pool.tree.nextLeafIndex + 1 := by
  have hrun := (runPrims_room (State.streamInsert_inv h).2 hfin fun k ch hp =>
    absurd rfl (streamPrims_ne_openChannel hp k ch)).2.1
  rwa [(streamPrims_counts a c d).1] at hrun

/-- A settlement that fails for a full tree finds one leaf at most. -/
theorem State.settleOne_full {proof : Groth16Proof} {pub : StreamSettlePub ℕ}
    (hfin : (openChannels s).Finite) (h : s.settleOne E proof pub = .error .merkleTreeFull) :
    pub.channelId ∈ openChannels s ∧ 2 ^ E.levels ≤ s.pool.tree.nextLeafIndex + 1 := by
  simp only [State.settleOne, bind_eq_error, require_eq_error, require_eq_ok, exists_unit,
    reduceCtorEq, and_false, false_or, pure_ne_error, or_false, exists_false] at h
  obtain ⟨hop, hcon, -, -, -, -, h⟩ := h
  refine ⟨⟨hop, hcon⟩, ?_⟩
  rcases h with h | ⟨s₂, h1, -, h⟩
  · have := State.streamInsert_full h
    exact Nat.le_succ_of_le this.ge
  · have hfin' : (openChannels (s.setChannel pub.channelId
        { s.escrow.channels pub.channelId with consumed := true })).Finite := by
      rw [openChannels_consume]
      exact hfin.sdiff
    have hnext := State.streamInsert_next hfin' h1
    rw [State.streamInsert_full h] at hnext
    exact hnext.le

/-- An open channel leaves no way to find the tree full in settling it. -/
theorem Room.settleOne_ne_full (hR : Room E s) {proof : Groth16Proof} {pub : StreamSettlePub ℕ} :
    s.settleOne E proof pub ≠ .error .merkleTreeFull := by
  intro h
  obtain ⟨hop, hfull⟩ := State.settleOne_full hR.finite h
  have hpos : 0 < (openChannels s).ncard := (Set.ncard_pos hR.finite).2 ⟨_, hop⟩
  have := hR.leaves
  omega

/-- Primitives that close channels keep the room. -/
theorem Room.closes {ps : List Prim} (hR : Room E s) (h : runPrims E ps s = .ok s')
    (hins : ps.countP Prim.isInsert ≤ 2 * ps.countP Prim.isConsume)
    (hopen : ∀ c ch, .openChannel c ch ∉ ps) : Room E s' := by
  obtain ⟨hfin, hn, hc⟩ := runPrims_room h hR.finite fun c ch hp => absurd hp (hopen c ch)
  have hnone : ps.countP Prim.isOpen = 0 := by
    refine List.countP_eq_zero.2 fun p hp hpo => ?_
    cases p with
    | openChannel c ch => exact hopen c ch hp
    | _ => cases hpo
  have := hR.leaves
  exact ⟨hfin, by omega⟩

/-- A settlement leaves the room for the others. -/
theorem Room.settleOne (hR : Room E s) {proof : Groth16Proof} {pub : StreamSettlePub ℕ}
    (h : s.settleOne E proof pub = .ok s') : Room E s' := by
  obtain ⟨h1, h2, -⟩ := settlePrims_counts pub
  exact hR.closes (State.settleOne_inv h).2 (by omega) fun c ch hp =>
    settlePrims_ne_openChannel hp c ch rfl

/-- A batch of settlements does not fail for a full tree. -/
theorem Room.settleLoop {qs : List (Groth16Proof × StreamSettlePub ℕ)} (hR : Room E s) :
    State.settleLoop E qs s ≠ .error .merkleTreeFull := by
  induction qs generalizing s with
  | nil => simp [State.settleLoop]
  | cons q qs ih =>
      intro h
      rcases bind_eq_error.1 h with h | ⟨s₁, h1, h⟩
      · exact hR.settleOne_ne_full h
      · exact ih (hR.settleOne h1) h

/-- **One closing** never finds the tree full, and keeps the room for the others. -/
theorem Room.close (hR : Room E s) (c : Closing) :
    s.close E c ≠ .error .merkleTreeFull ∧ ∀ s', s.close E c = .ok s' → Room E s' := by
  cases c with
  | settle proof pub =>
      refine ⟨fun h => ?_, fun s' h => ?_⟩
      · simp only [State.close, State.settle, Access.whenNotPaused, bind_eq_error, require_eq_error,
          reduceCtorEq, and_false, false_or] at h
        obtain ⟨_, -, h⟩ := h
        exact hR.settleOne_ne_full h
      · simp only [State.close, State.settle, bind_eq_ok] at h
        obtain ⟨_, -, h⟩ := h
        exact hR.settleOne h
  | settleBatch proofs pubs =>
      refine ⟨fun h => ?_, fun s' h => ?_⟩
      · simp only [State.close, State.settleBatch, Access.whenNotPaused, bind_eq_error,
          require_eq_error, reduceCtorEq, and_false, false_or] at h
        obtain ⟨_, -, _, -, h⟩ := h
        exact hR.settleLoop h
      · obtain ⟨-, hrun⟩ := State.settleBatch_inv 0 h
        refine hR.closes hrun (settles_counts pubs).1.le fun c ch hp => ?_
        obtain ⟨pub, -, hp⟩ := List.mem_flatMap.1 hp
        exact settlePrims_ne_openChannel hp c ch rfl
  | reclaim k =>
      refine ⟨fun h => ?_, fun s' h => ?_⟩
      · simp only [State.close, State.reclaim, Access.whenNotPaused, bind_eq_error, require_eq_error,
          require_eq_ok, exists_unit, reduceCtorEq, and_false, false_or, pure_ne_error, or_false,
          exists_false] at h
        obtain ⟨-, hop, hcon, -, -, h⟩ := h
        have hfull := State.streamInsert_full h
        have hpos : 0 < (openChannels s).ncard := (Set.ncard_pos hR.finite).2 ⟨k, hop, hcon⟩
        have hleaves := hR.leaves
        have hfull' : s.pool.tree.nextLeafIndex = 2 ^ E.levels := hfull
        omega
      · obtain ⟨-, hrun⟩ := State.reclaim_inv 0 h
        obtain ⟨hins, hopen⟩ := @Call.prims_counts E s 0 (.reclaim k)
        refine hR.closes hrun (by simpa [Call.newLeaves] using hins) fun c ch hp => ?_
        obtain ⟨proof, pub, hcall, -⟩ := Call.eq_open hp
        cases hcall
  | mine blocks =>
      refine ⟨fun h => ?_, fun s' h => ?_⟩ <;> cases h
      exact ⟨hR.finite, hR.leaves⟩

/-- A sequence of closings does not fail for a full tree. -/
theorem Room.closeAll (hR : Room E s) (cs : List Closing) :
    State.closeAll E cs s ≠ .error .merkleTreeFull := by
  induction cs generalizing s with
  | nil => simp [State.closeAll]
  | cons c cs ih =>
      intro h
      rcases bind_eq_error.1 h with h | ⟨s₁, h1, h⟩
      · exact (hR.close c).1 h
      · exact ih ((hR.close c).2 s₁ h1) h

/-- A deployed pool has room. -/
theorem Deployed.room {s₀ : State} (hd : Deployed E s₀) : Room E s₀ := by
  obtain ⟨htree, hnil, -, -, hzero⟩ := hd.spec
  have hnone : openChannels s₀ = ∅ := by
    ext c
    simp [openChannels, hzero c, Channel.zero]
  have hnext : s₀.pool.tree.nextLeafIndex = 0 := by rw [htree.count, hnil, List.length_nil]
  exact ⟨hnone ▸ Set.finite_empty, by rw [hnext, hnone, Set.ncard_empty]; exact Nat.zero_le _⟩

/-- **Closing with room.** In every run in which each call that inserts leaves of its own finds, besides
these, two free leaves for each channel that is open after it, no sequence of settlements, batches and
reclaims finds the tree full, in whatever order and after whatever time. -/
theorem closings_have_room {s₀ : State} {K : List (Pending State (Entry E) Kont)}
    {w : World State (Entry E) Kont} (hd : Deployed E s₀)
    (h : Reach ((machine E).admitting (SparesRoom E) fun _ _ => True) [] (s₀, []) K w)
    (cs : List Closing) : State.closeAll E cs w.1 ≠ .error .merkleTreeFull :=
  (preserves_room.reach hd.room h).closeAll cs

end

/-! ## A run with room, and one without -/

/-- Only channel 3 is ever opened. -/
theorem preserves_openChannels_three : Preserves (machine (deployment 1))
    fun _ w => openChannels w.1 ⊆ {3} := by
  have hprims : ∀ {ps : List Prim} {s s' : State}, openChannels s ⊆ {3} →
      runPrims (deployment 1) ps s = .ok s' → (∀ c ch, .openChannel c ch ∈ ps → c = 3) →
      openChannels s' ⊆ {3} := by
    intro ps s s' hs hrun hps
    refine runPrims_induct (I := fun t => openChannels t ⊆ {3}) (fun p hp t t' ht h => ?_) hrun hs
    intro c hc
    by_cases hop : ∃ k ch, p = .openChannel k ch
    · obtain ⟨k, ch, rfl⟩ := hop
      simp only [Prim.run, bind_eq_ok, require_eq_ok, exists_unit, pure_eq_ok] at h
      obtain ⟨-, rfl⟩ := h
      by_cases hck : c = k
      · exact hck.trans (hps k ch hp)
      · exact ht (by simpa [openChannels, State.setChannel, hck] using hc)
    · push Not at hop
      rcases Prim.run_channels hop h c with h1 | h1
      · exact ht (by simpa [openChannels, h1] using hc)
      · simp [openChannels, h1] at hc
  have henter : ∀ {e : Entry (deployment 1)} {s s' : State} {ko : Option Kont},
      openChannels s ⊆ {3} → (machine (deployment 1)).enter e s = some (s', ko) →
      openChannels s' ⊆ {3} := by
    intro e s s' ko hs h
    obtain ⟨hc, hrun, -⟩ := machine_enter h
    refine hprims hs hrun fun c ch hp => ?_
    obtain ⟨proof, pub, hcall, rfl, -⟩ := Call.eq_open hp
    rw [hcall] at hc
    have hg := (deployment 1).groth16_of_verifyProof hc.2.2.2.2.1
    rw [deployment, Bool.or_eq_true] at hg
    rcases hg with hg | hg
    · have hof := Accepted.of_signals (of_decide_eq_true hg)
      simp only [StreamOpenPub.length_toList, Nat.reduceEqDiff, true_and, false_and, or_false,
        false_or] at hof
      obtain ⟨y, hy, hyx⟩ := hof
      obtain rfl := StreamOpenPub.toList_injective hyx
      obtain rfl := List.mem_singleton.1 hy
      rfl
    · cases hg
  have hresume : ∀ {k : Kont} {s s' : State} {ko : Option Kont},
      openChannels s ⊆ {3} → (machine (deployment 1)).resume k s = some (s', ko) →
      openChannels s' ⊆ {3} := by
    intro k s s' ko hs h
    rw [openChannels_congr (resume_channels (machine_resume h).1)]
    exact hs
  refine ⟨henter, henter, hresume, hresume, fun hs h => ?_⟩
  rcases act_inv h with ⟨b, al, n, rfl, -⟩ | ⟨-, hc⟩
  · exact hs
  · rw [openChannels_congr hc.channels]
    exact hs

/-- At most two leaves are taken. -/
def earlyTree (s : State) : Bool := decide (s.pool.tree.nextLeafIndex ≤ 2)

/-- The opening of channel 3, as a run in which every call spares the room. -/
theorem reach_opening : Reach ((machine (deployment 1)).admitting (SparesRoom (deployment 1))
    fun _ _ => True) [] (freshAt 1, []) []
    (execAll ((machine (deployment 1)).filter earlyTree) (openingAt 1) [] (freshAt 1, [])) := by
  have hnone : openChannels (freshAt 1) = ∅ := by
    ext c
    simp [openChannels, (@deployed_freshAt 1).spec.2.2.2.2 c, Channel.zero]
  have hI := preserves_openChannels_three.filter earlyTree
  refine Reach.admitting_of (filter_sub _ _) hI (fun {K w e r} h _ => ?_) (fun _ _ => trivial)
    ⟨by simp [hnone], by decide⟩ (reach_execAll _ (openingAt 1) .refl)
  have hcard : (openChannels w.1).ncard ≤ 1 :=
    (Set.ncard_le_ncard h.1 (Set.finite_singleton 3)).trans_eq (Set.ncard_singleton 3)
  have hearly : w.1.pool.tree.nextLeafIndex ≤ 2 := of_decide_eq_true h.2
  have hleaves : e.call.newLeaves ≤ 2 := by cases e.call <;> simp [Call.newLeaves]
  have hchannels : e.call.newChannels ≤ 1 := by cases e.call <;> simp [Call.newChannels]
  have hlevels : (deployment 1).levels = 3 := rfl
  intro _
  rw [hlevels]
  omega

/-- Channel 3 is open after it, and the theorem says that the tree has room to close it. -/
theorem closings_have_room_opening :
    ((execAll ((machine (deployment 1)).filter earlyTree) (openingAt 1) []
      (freshAt 1, [])).1.escrow.channels 3).opened = true ∧
    State.closeAll (deployment 1) [.settle someProof (settleAt 1), .mine 100, .reclaim 3]
      (execAll ((machine (deployment 1)).filter earlyTree) (openingAt 1) [] (freshAt 1, [])).1 ≠
      .error .merkleTreeFull :=
  ⟨by decide, closings_have_room deployed_freshAt reach_opening _⟩

/-- The signals of a run on channel 3 with seven deposits. -/
def crowded : Accepted := { streaming with
  deposits := (List.range 7).map fun i => depositOf (usdcNote 100 7 (i + 1)) (i + 1) }

/-- Channel 3 is opened, and deposits take the other six leaves of the tree. -/
def crowdedRun : List (Tx (Entry (sampleEnv crowded)) Action) :=
  [depositTx _ note₁ 1, callTx _ (.open someProof
      (openOf note₁ (usdcNote 0 7 11) (usdcNote 100 7 12) [leafOf note₁] [7] 100 4)),
    .act (.mint usdc 1 1000)] ++
  (List.range 6).map fun i => depositTx _ (usdcNote 100 7 (i + 2)) (i + 2)

/-- The error of a call. -/
def errorOf (x : Except Error State) : Option Error :=
  match x with
  | .error e => some e
  | .ok _ => none

/-- The error of a call that failed. -/
theorem eq_error_of {x : Except Error State} {e : Error} (h : errorOf x = some e) : x = .error e := by
  cases x with
  | error e' => exact congrArg _ (Option.some.inj h)
  | ok s => cases h

/-- The tree is full, and the channel cannot be settled. -/
theorem tree_fills_up : ¬ ∀ (E : Env) (s₀ : State) (K : List (Pending State (Entry E) Kont))
    (w : World State (Entry E) Kont) (c : ℕ), Deployed E s₀ → Reachable E s₀ K w →
    c ∈ openChannels w.1 → ∀ proof (pub : StreamSettlePub ℕ), pub.channelId = c →
      w.1.settle E proof pub ≠ .error .merkleTreeFull ∧
      ∀ n, State.closeAll E [.mine n, .reclaim c] w.1 ≠ .error .merkleTreeFull := by
  intro h
  have hrun := (@reach_run crowded (fun _ => True) (fun _ _ => trivial) crowdedRun).of_within
  have hop : 3 ∈ openChannels (runFrom crowded crowdedRun).1 := by
    constructor
    · decide +kernel
    · decide +kernel
  refine (h (sampleEnv crowded) (fresh crowded) [] _ 3 deployed_fresh hrun hop someProof
    (settleOf (usdcNote 10 7 15) (usdcNote 90 7 16) [7] 100 10 4) rfl).1 (eq_error_of ?_)
  decide +kernel

end ShadePay.Evm
