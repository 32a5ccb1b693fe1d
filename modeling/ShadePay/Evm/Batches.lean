import ShadePay.Evm.Capacity
import ShadePay.Evm.Scenario

/-!
# Batches of settlements

`settleBatch` against the settlements it consists of. What one settlement needs of the state is
`settleOne_ok_iff`, and what it changes is `Settled`; a list of settlements goes through exactly when
its channels are distinct, each settlement passes its checks at the start, and the supplies and the
tree have room for all of them (`settleLoop_ok_iff`). None of these conditions looks at the order of
the list.
-/

namespace ShadePay.Evm

open Guard Reentrancy

/-! ## One insertion -/

section
variable {E : Env} {s s' : State}

/-- An insertion needs a field element and a free leaf. -/
theorem State.insert_ok_iff {leaf : ℕ} : (∃ r, s.insert E leaf = .ok r) ↔
    leaf < bn254 ∧ s.pool.tree.nextLeafIndex ≠ 2 ^ E.levels := by
  simp only [State.insert, IncrementalMerkleTree.insert, bind_eq_ok, require_eq_ok, exists_unit,
    pure_eq_ok, Prod.exists, Prod.mk.injEq]
  constructor
  · rintro ⟨_, _, _, _, ⟨h1, h2, -⟩, -⟩
    exact ⟨h1, h2⟩
  · rintro ⟨h1, h2⟩
    exact ⟨_, _, _, _, ⟨h1, h2, rfl, rfl⟩, rfl, rfl⟩

/-- What an insertion leaves: one leaf more, and all but the tree as it was. -/
theorem State.insert_effect {leaf i : ℕ} (h : s.insert E leaf = .ok (i, s')) :
    s'.pool.tree.nextLeafIndex = s.pool.tree.nextLeafIndex + 1 ∧
      s'.pool.tree.leaves = s.pool.tree.leaves ++ [leaf] ∧
      s' = { s with pool := { s.pool with tree := s'.pool.tree } } := by
  obtain ⟨t, ht, rfl⟩ := State.insert_eq_ok.1 h
  simp only [IncrementalMerkleTree.insert, bind_eq_ok, require_eq_ok, exists_unit, pure_eq_ok,
    Prod.mk.injEq] at ht
  obtain ⟨-, -, -, rfl⟩ := ht
  exact ⟨rfl, rfl, rfl⟩

/-- What a nonzero change of a supply needs. -/
def Adjustable (E : Env) (s : State) (a : ℕ) (d : ℤ) : Prop :=
  s.pool.assetToken a ≠ 0 ∧ s.pool.noteSupplyOf a + d < 2 ^ 255 ∧ 0 ≤ s.pool.noteSupplyOf a + d ∧
    s.pool.noteSupplyOf a + d ≤ s.poolBalance E (s.pool.assetToken a)

/-- What `streamInsert` needs. -/
theorem State.streamInsert_ok_iff {x : Address} {a c : ℕ} {d : ℤ} :
    (∃ s', s.streamInsert E x a c d = .ok s') ↔ s.pool.access.paused = false ∧
      s.pool.authorizedStreamContract x = true ∧ (d ≠ 0 → Adjustable E s a d) ∧ c < bn254 ∧
      s.pool.tree.nextLeafIndex ≠ 2 ^ E.levels := by
  by_cases hd : d = 0
  · simp only [State.streamInsert, hd, ne_eq, not_true_eq_false, if_false, bind_eq_ok,
      Access.whenNotPaused_eq_ok, require_eq_ok, exists_unit, ok_bind, Prod.exists, pure_eq_ok]
    constructor
    · rintro ⟨s', h1, h2, i, s₂, hins, rfl⟩
      exact ⟨h1, h2, False.elim, State.insert_ok_iff.1 ⟨_, hins⟩⟩
    · rintro ⟨h1, h2, -, h3⟩
      obtain ⟨⟨i, s₂⟩, hins⟩ := State.insert_ok_iff.2 h3
      exact ⟨s₂, h1, h2, i, s₂, hins, rfl⟩
  · simp only [State.streamInsert, hd, ne_eq, not_false_eq_true, if_true, bind_eq_ok,
      Access.whenNotPaused_eq_ok, require_eq_ok, exists_unit, Prod.exists, pure_eq_ok]
    constructor
    · rintro ⟨s', h1, h2, s₁, hadj, i, s₂, hins, rfl⟩
      obtain ⟨hneed, rfl⟩ := State.adjustNoteSupply_eq_ok.1 hadj
      have hroom := State.insert_ok_iff.1 ⟨_, hins⟩
      exact ⟨h1, h2, fun _ => hneed, hroom⟩
    · rintro ⟨h1, h2, h3, h4⟩
      obtain ⟨s₁, hadj⟩ : ∃ s₁, s.adjustNoteSupply E a d = .ok s₁ :=
        ⟨_, State.adjustNoteSupply_eq_ok.2 ⟨h3 trivial, rfl⟩⟩
      have htree : s₁.pool.tree = s.pool.tree := by
        obtain ⟨-, rfl⟩ := State.adjustNoteSupply_eq_ok.1 hadj
        rfl
      obtain ⟨⟨i, s₂⟩, hins⟩ := State.insert_ok_iff.2 (htree.symm ▸ h4)
      exact ⟨s₂, h1, h2, s₁, hadj, i, s₂, hins, rfl⟩

/-- What `streamInsert` leaves. -/
theorem State.streamInsert_effect {x : Address} {a c : ℕ} {d : ℤ}
    (h : s.streamInsert E x a c d = .ok s') : SameConfig s s' ∧ s'.escrow = s.escrow ∧
      (∀ b, s'.pool.noteSupplyOf b = s.pool.noteSupplyOf b + if a = b then d else 0) ∧
      s'.pool.tree.nextLeafIndex = s.pool.tree.nextLeafIndex + 1 ∧
      s'.pool.tree.leaves = s.pool.tree.leaves ++ [c] := by
  have hcfg := runPrims_config (State.streamInsert_inv h).2
  by_cases hd : d = 0
  · simp only [State.streamInsert, hd, ne_eq, not_true_eq_false, if_false, bind_eq_ok,
      Access.whenNotPaused_eq_ok, require_eq_ok, exists_unit, ok_bind, Prod.exists,
      pure_eq_ok] at h
    obtain ⟨-, -, i, _, hins, rfl⟩ := h
    obtain ⟨hnext, hleaves, hs⟩ := State.insert_effect hins
    refine ⟨hcfg, by rw [hs], fun b => ?_, hnext, hleaves⟩
    rw [hs, hd]
    simp
  · simp only [State.streamInsert, hd, ne_eq, not_false_eq_true, if_true, bind_eq_ok,
      Access.whenNotPaused_eq_ok, require_eq_ok, exists_unit, Prod.exists, pure_eq_ok] at h
    obtain ⟨-, -, s₁, hadj, i, _, hins, rfl⟩ := h
    obtain ⟨-, rfl⟩ := State.adjustNoteSupply_eq_ok.1 hadj
    obtain ⟨hnext, hleaves, hs⟩ := State.insert_effect hins
    refine ⟨hcfg, by rw [hs], fun b => ?_, hnext, hleaves⟩
    rw [hs]
    by_cases hab : a = b
    · subst hab
      simp
    · simp [Function.update_of_ne (Ne.symm hab), hab]

/-- The supply that `streamInsert` leaves is adjusted as if both changes were one. -/
theorem State.streamInsert_adjustable {x : Address} {a c : ℕ} {d d' : ℤ}
    (h : s.streamInsert E x a c d = .ok s') :
    Adjustable E s' a d' ↔ Adjustable E s a (d + d') := by
  obtain ⟨hcfg, -, hsup, -, -⟩ := State.streamInsert_effect h
  rw [Adjustable, Adjustable, hsup, if_pos rfl, State.poolBalance, hcfg.balance, hcfg.pool,
    add_assoc]
  rfl

end

/-! ## One settlement -/

/-- What a list of settlements does to the state. -/
structure Settled (s s' : State) (pubs : List (StreamSettlePub ℕ)) : Prop where
  config : SameConfig s s'
  closed : ∀ c ∈ pubs.map (·.channelId),
    s'.escrow.channels c = { s.escrow.channels c with consumed := true }
  kept : ∀ c ∉ pubs.map (·.channelId), s'.escrow.channels c = s.escrow.channels c
  supply : ∀ a, s'.pool.noteSupplyOf a = s.pool.noteSupplyOf a + (pubs.map (settleDelta a)).sum
  next : s'.pool.tree.nextLeafIndex = s.pool.tree.nextLeafIndex + 2 * pubs.length
  leaves : s'.pool.tree.leaves = s.pool.tree.leaves ++
    pubs.flatMap fun pub => [pub.payeeCommitment, pub.refundCommitment]

/-- Nothing is settled. -/
theorem Settled.nil (s : State) : Settled s s [] :=
  ⟨.refl s, fun _ h => absurd h List.not_mem_nil, fun _ _ => rfl, fun _ => by simp, by simp,
    by simp⟩

/-- Two batches one after the other. -/
theorem Settled.append {s s₁ s' : State} {pubs pubs' : List (StreamSettlePub ℕ)}
    (h : Settled s s₁ pubs) (h' : Settled s₁ s' pubs') : Settled s s' (pubs ++ pubs') := by
  refine ⟨h.config.trans h'.config, fun c hc => ?_, fun c hc => ?_, fun a => ?_, ?_, ?_⟩
  · have hch : s₁.escrow.channels c = s.escrow.channels c ∨
        s₁.escrow.channels c = { s.escrow.channels c with consumed := true } :=
      (em (c ∈ pubs.map (·.channelId))).symm.imp (h.kept c) (h.closed c)
    rw [List.map_append, List.mem_append] at hc
    rcases em (c ∈ pubs'.map (·.channelId)) with hc' | hc'
    · rw [h'.closed c hc']
      rcases hch with hch | hch <;> rw [hch]
    · rw [h'.kept c hc', h.closed c (hc.resolve_right hc')]
  · rw [List.map_append, List.mem_append, not_or] at hc
    rw [h'.kept c hc.2, h.kept c hc.1]
  · rw [h'.supply, h.supply, List.map_append, List.sum_append, add_assoc]
  · rw [h'.next, h.next, List.length_append]
    omega
  · rw [h'.leaves, h.leaves, List.flatMap_append, List.append_assoc]

/-- A settlement raises the supply of its asset by the cap. -/
theorem settleDelta_self {pub : StreamSettlePub ℕ} (h : pub.cumulative ≤ pub.cap) :
    settleDelta pub.assetId pub = pub.cap := by
  rw [settleDelta, if_pos rfl]
  omega

/-- A settlement lowers no supply. -/
theorem settleDelta_nonneg (a : ℕ) (pub : StreamSettlePub ℕ) : 0 ≤ settleDelta a pub := by
  rw [settleDelta]
  split <;> omega

/-- A batch lowers no supply. -/
theorem settleDeltas_nonneg {α : Type} (a : ℕ) (f : α → StreamSettlePub ℕ) (l : List α) :
    0 ≤ (l.map fun q => settleDelta a (f q)).sum := by
  refine List.sum_nonneg fun d hd => ?_
  obtain ⟨q, -, rfl⟩ := List.mem_map.1 hd
  exact settleDelta_nonneg a (f q)

section
variable {E : Env} {s s' : State} {proof : Groth16Proof} {pub : StreamSettlePub ℕ}

/-- The two insertions of a settlement, one after the other. -/
theorem State.settleOne_eq_ok : s.settleOne E proof pub = .ok s' ↔
    ∃ s₁ s₂, (s.setChannel pub.channelId
        { s.escrow.channels pub.channelId with consumed := true }).streamInsert E E.escrow
          pub.assetId pub.payeeCommitment (int256 pub.cumulative) = .ok s₁ ∧
      s₁.streamInsert E E.escrow pub.assetId pub.refundCommitment
        (int256 (pub.cap - pub.cumulative)) = .ok s₂ ∧
      s' = s₂.emit (.channelSettled pub.channelId pub.cumulative pub.payeeCommitment
        pub.refundCommitment) ∧ SettleChecks E s proof pub := by
  constructor
  · intro h
    have hc := (State.settleOne_inv h).1
    simp only [State.settleOne, bind_eq_ok, require_eq_ok, exists_unit, pure_eq_ok] at h
    obtain ⟨-, -, -, -, -, -, s₁, h1, -, s₂, h2, rfl⟩ := h
    refine ⟨s₁, s₂, ?_, ?_, rfl, hc⟩
    · rw [hc.assetId]
      exact h1
    · rw [hc.assetId, hc.cap]
      exact h2
  · rintro ⟨s₁, s₂, h1, h2, rfl, hc⟩
    rw [hc.assetId] at h1
    rw [hc.assetId, hc.cap] at h2
    simp only [State.settleOne, bind_eq_ok, require_eq_ok, exists_unit, pure_eq_ok]
    exact ⟨hc.opened, hc.consumed, ⟨hc.payerAx, hc.payerAy, hc.cap, hc.assetId⟩, hc.domain,
      hc.association, hc.verified, s₁, h1, hc.cap ▸ hc.cumulative, s₂, h2, rfl⟩

/-- The words of a settlement are canonical. -/
theorem SettleChecks.words (h : SettleChecks E s proof pub) :
    pub.payeeCommitment < bn254 ∧ pub.refundCommitment < bn254 ∧
      int256 pub.cumulative = pub.cumulative ∧
      int256 (pub.cap - pub.cumulative) = pub.cap - pub.cumulative := by
  have hlt := E.lt_of_verifyProof h.verified
  have hcap : pub.cap < bn254 := hlt _ (by simp [StreamSettlePub.toList])
  have hle := h.cumulative
  refine ⟨hlt _ (by simp [StreamSettlePub.toList]), hlt _ (by simp [StreamSettlePub.toList]),
    int256_of_lt (by omega), ?_⟩
  rw [int256_of_lt (by omega)]
  omega

/-- What a settlement leaves. -/
theorem State.settleOne_settled (h : s.settleOne E proof pub = .ok s') : Settled s s' [pub] := by
  have hcfg := runPrims_config (State.settleOne_inv h).2
  obtain ⟨s₁, s₂, h1, h2, rfl, hc⟩ := State.settleOne_eq_ok.1 h
  obtain ⟨-, -, hcum, hrem⟩ := hc.words
  obtain ⟨-, hesc₁, hsup₁, hnext₁, hleaves₁⟩ := State.streamInsert_effect h1
  obtain ⟨-, hesc₂, hsup₂, hnext₂, hleaves₂⟩ := State.streamInsert_effect h2
  refine ⟨hcfg, fun c hc => ?_, fun c hc => ?_, fun a => ?_, ?_, ?_⟩
  · obtain rfl : c = pub.channelId := by simpa using hc
    change s₂.escrow.channels _ = _
    rw [hesc₂, hesc₁]
    exact Function.update_self ..
  · change s₂.escrow.channels c = _
    rw [hesc₂, hesc₁]
    exact Function.update_of_ne (by simpa using hc) ..
  · change s₂.pool.noteSupplyOf a = _
    rw [hsup₂, hsup₁, hcum, hrem, List.map_singleton, List.sum_singleton, add_assoc]
    have hle := hc.cumulative
    congr 1
    rw [settleDelta]
    split <;> simp [Nat.cast_sub hle]
  · change s₂.pool.tree.nextLeafIndex = _
    rw [hnext₂, hnext₁]
    rfl
  · change s₂.pool.tree.leaves = _
    rw [hleaves₂, hleaves₁, List.append_assoc]
    rfl

/-- **What a settlement needs**: its checks, a pool that is not paused, a supply that can grow by the
payment and by the cap, and two free leaves. -/
theorem State.settleOne_ok_iff : (∃ s', s.settleOne E proof pub = .ok s') ↔
    SettleChecks E s proof pub ∧ s.pool.access.paused = false ∧
      (pub.cumulative ≠ 0 → Adjustable E s pub.assetId pub.cumulative) ∧
      (pub.cap ≠ 0 → Adjustable E s pub.assetId pub.cap) ∧
      s.pool.tree.nextLeafIndex ≠ 2 ^ E.levels ∧
      s.pool.tree.nextLeafIndex + 1 ≠ 2 ^ E.levels := by
  constructor
  · rintro ⟨s', h⟩
    obtain ⟨s₁, s₂, h1, h2, -, hc⟩ := State.settleOne_eq_ok.1 h
    obtain ⟨-, -, hcum, hrem⟩ := hc.words
    have hle := hc.cumulative
    obtain ⟨-, -, -, hnext, -⟩ := State.streamInsert_effect h1
    obtain ⟨hp, -, hadj₁, -, hfree₁⟩ := State.streamInsert_ok_iff.1 ⟨_, h1⟩
    obtain ⟨-, -, hadj₂, -, hfree₂⟩ := State.streamInsert_ok_iff.1 ⟨_, h2⟩
    rw [hcum, Nat.cast_ne_zero] at hadj₁
    rw [hrem, State.streamInsert_adjustable h1, hcum, add_sub_cancel] at hadj₂
    rw [hnext] at hfree₂
    refine ⟨hc, hp, hadj₁, fun hcap => ?_, hfree₁, hfree₂⟩
    rcases Nat.lt_or_ge pub.cumulative pub.cap with hlt | hge
    · exact hadj₂ (by omega)
    · rw [Nat.le_antisymm hge hle]
      exact hadj₁ (by omega)
  · rintro ⟨hc, hp, hadj₁, hadj₂, hfree₁, hfree₂⟩
    obtain ⟨hpayee, hrefund, hcum, hrem⟩ := hc.words
    have hle := hc.cumulative
    obtain ⟨s₁, h1⟩ : ∃ s₁, (s.setChannel pub.channelId
        { s.escrow.channels pub.channelId with consumed := true }).streamInsert E E.escrow
          pub.assetId pub.payeeCommitment (int256 pub.cumulative) = .ok s₁ := by
      refine State.streamInsert_ok_iff.2 ⟨hp, hc.stream, ?_, hpayee, hfree₁⟩
      rw [hcum, Nat.cast_ne_zero]
      exact hadj₁
    obtain ⟨hcfg, -, -, hnext, -⟩ := State.streamInsert_effect h1
    obtain ⟨s₂, h2⟩ : ∃ s₂, s₁.streamInsert E E.escrow pub.assetId pub.refundCommitment
        (int256 (pub.cap - pub.cumulative)) = .ok s₂ := by
      refine State.streamInsert_ok_iff.2 ⟨?_, ?_, ?_, hrefund, ?_⟩
      · rw [hcfg.pool]
        exact hp
      · rw [hcfg.pool]
        exact hc.stream
      · rw [hrem, State.streamInsert_adjustable h1, hcum, add_sub_cancel]
        exact fun h => hadj₂ (by omega)
      · rw [hnext]
        exact hfree₂
    exact ⟨_, State.settleOne_eq_ok.2 ⟨s₁, s₂, h1, h2, rfl, hc⟩⟩

end

/-! ## A list of settlements -/

/-- The supply is not below zero once it moves. -/
structure Low (s : State) (pub : StreamSettlePub ℕ) : Prop where
  cumulative : pub.cumulative ≠ 0 → 0 ≤ s.pool.noteSupplyOf pub.assetId + pub.cumulative
  cap : pub.cap ≠ 0 → 0 ≤ s.pool.noteSupplyOf pub.assetId + pub.cap

/-- The pool's tokens back `n` more of asset `a`. -/
structure Affords (E : Env) (s : State) (a : ℕ) (n : ℤ) : Prop where
  token : s.pool.assetToken a ≠ 0
  word : s.pool.noteSupplyOf a + n < 2 ^ 255
  reserve : s.pool.noteSupplyOf a + n ≤ s.poolBalance E (s.pool.assetToken a)

/-- What a list of settlements needs of the state it starts in. -/
structure Settleable (E : Env) (s : State) (qs : List (Groth16Proof × StreamSettlePub ℕ)) :
    Prop where
  nodup : (qs.map (·.2.channelId)).Nodup
  checks : ∀ q ∈ qs, SettleChecks E s q.1 q.2
  running : qs ≠ [] → s.pool.access.paused = false
  reserves : ∀ a, (qs.map (settleDelta a ·.2)).sum ≠ 0 →
    Affords E s a (qs.map (settleDelta a ·.2)).sum
  leaves : ∀ j < 2 * qs.length, s.pool.tree.nextLeafIndex + j ≠ 2 ^ E.levels

/-- A supply that is not negative is not too low. -/
theorem Low.of_nonneg {s : State} (h : ∀ a, 0 ≤ s.pool.noteSupplyOf a) (pub : StreamSettlePub ℕ) :
    Low s pub :=
  ⟨fun _ => add_nonneg (h _) (Int.natCast_nonneg _),
    fun _ => add_nonneg (h _) (Int.natCast_nonneg _)⟩

/-- The conditions do not depend on the order of the list. -/
theorem Settleable.perm {E : Env} {s : State} {qs qs' : List (Groth16Proof × StreamSettlePub ℕ)}
    (h : Settleable E s qs) (hp : qs.Perm qs') : Settleable E s qs' where
  nodup := (hp.map _).nodup_iff.1 h.nodup
  checks := fun q hq => h.checks q (hp.mem_iff.2 hq)
  running := fun hne => h.running fun h0 => hne (h0 ▸ hp).nil_eq.symm
  reserves := fun a => (hp.map (settleDelta a ·.2)).sum_eq ▸ h.reserves a
  leaves := hp.length_eq ▸ h.leaves

section
variable {E : Env} {s s' : State} {proof : Groth16Proof} {pub : StreamSettlePub ℕ}

/-- After other settlements the supply is not too low either. -/
theorem Low.settled {pubs : List (StreamSettlePub ℕ)} (h : Low s pub) (hs : Settled s s' pubs) :
    Low s' pub := by
  have hnn : 0 ≤ (pubs.map (settleDelta pub.assetId)).sum := settleDeltas_nonneg _ id pubs
  refine ⟨fun hne => ?_, fun hne => ?_⟩
  · rw [hs.supply]
    linarith [h.cumulative hne]
  · rw [hs.supply]
    linarith [h.cap hne]

/-- What can be afforded after a batch is what could be afforded with it. -/
theorem Settled.affords {pubs : List (StreamSettlePub ℕ)} (hs : Settled s s' pubs) (a : ℕ) (n : ℤ) :
    Affords E s' a n ↔ Affords E s a ((pubs.map (settleDelta a)).sum + n) := by
  have htok : s'.pool.assetToken = s.pool.assetToken := by rw [hs.config.pool]
  have hbal : s'.poolBalance E = s.poolBalance E := by
    funext t
    rw [State.poolBalance, hs.config.balance, State.poolBalance]
  constructor
  · rintro ⟨h1, h2, h3⟩
    rw [htok] at h1
    rw [hs.supply, add_assoc] at h2
    rw [hs.supply, htok, hbal, add_assoc] at h3
    exact ⟨h1, h2, h3⟩
  · rintro ⟨h1, h2, h3⟩
    refine ⟨?_, ?_, ?_⟩
    · rwa [htok]
    · rwa [hs.supply, add_assoc]
    · rwa [hs.supply, htok, hbal, add_assoc]

/-- A channel settled before fails its checks; any other one's are as before. -/
theorem Settled.checks {pubs : List (StreamSettlePub ℕ)} (hs : Settled s s' pubs) :
    SettleChecks E s' proof pub ↔
      SettleChecks E s proof pub ∧ pub.channelId ∉ pubs.map (·.channelId) := by
  have hesc : s'.escrow.settleVerifier = s.escrow.settleVerifier := by rw [hs.config.escrow]
  have hassoc : s'.pool.associationRoot = s.pool.associationRoot := by rw [hs.config.pool]
  have hauth : s'.pool.authorizedStreamContract = s.pool.authorizedStreamContract := by
    rw [hs.config.pool]
  by_cases hmem : pub.channelId ∈ pubs.map (·.channelId)
  · refine ⟨fun h => ?_, fun h => absurd hmem h.2⟩
    have := h.consumed
    rw [hs.closed _ hmem] at this
    cases this
  · have hch := hs.kept _ hmem
    constructor
    · rintro ⟨h1, h2, h3, h4, h5, h6, h7, h8, h9, h10, h11⟩
      rw [hch] at h1 h2 h3 h4 h5 h6
      rw [hassoc] at h8
      rw [hesc] at h9
      rw [hauth] at h11
      exact ⟨⟨h1, h2, h3, h4, h5, h6, h7, h8, h9, h10, h11⟩, hmem⟩
    · rintro ⟨⟨h1, h2, h3, h4, h5, h6, h7, h8, h9, h10, h11⟩, -⟩
      rw [← hch] at h1 h2 h3 h4 h5 h6
      rw [← hassoc] at h8
      rw [← hesc] at h9
      rw [← hauth] at h11
      exact ⟨h1, h2, h3, h4, h5, h6, h7, h8, h9, h10, h11⟩

theorem Adjustable.affords {a : ℕ} {n : ℤ} (h : Adjustable E s a n) : Affords E s a n :=
  ⟨h.1, h.2.1, h.2.2.2⟩

/-- A smaller adjustment than one that is afforded goes through. -/
theorem Affords.adjustable {a : ℕ} {m n : ℤ} (h : Affords E s a n) (hm : m ≤ n)
    (hlow : 0 ≤ s.pool.noteSupplyOf a + m) : Adjustable E s a m :=
  ⟨h.token, by linarith [h.word], hlow, by linarith [h.reserve]⟩

/-- A settlement on its own. -/
theorem State.settleOne_ok_iff_settleable (hlow : Low s pub) :
    (∃ s', s.settleOne E proof pub = .ok s') ↔ Settleable E s [(proof, pub)] := by
  rw [State.settleOne_ok_iff]
  constructor
  · rintro ⟨hc, hp, -, hadj, hfree₁, hfree₂⟩
    refine ⟨by simp, by simpa using hc, fun _ => hp, fun a => ?_, fun j hj => ?_⟩
    · simp only [List.map_cons, List.map_nil, List.sum_singleton]
      by_cases ha : pub.assetId = a
      · subst ha
        rw [settleDelta_self hc.cumulative, Nat.cast_ne_zero]
        exact fun hcap => (hadj hcap).affords
      · rw [settleDelta, if_neg ha]
        exact fun h => absurd rfl h
    · obtain rfl | rfl : j = 0 ∨ j = 1 := by
        simp only [List.length_singleton] at hj
        omega
      exacts [hfree₁, hfree₂]
  · rintro ⟨-, hc, hp, hback, hfree⟩
    have hc : SettleChecks E s proof pub := hc _ List.mem_cons_self
    have hle := hc.cumulative
    have hback : pub.cap ≠ 0 → Affords E s pub.assetId pub.cap := by
      have := hback pub.assetId
      simpa only [List.map_cons, List.map_nil, List.sum_singleton, settleDelta_self hle, ne_eq,
        Nat.cast_eq_zero] using this
    refine ⟨hc, hp (List.cons_ne_nil _ _), fun hcum => ?_, fun hcap => ?_, ?_, ?_⟩
    · exact (hback (by omega)).adjustable (by omega) (hlow.cumulative hcum)
    · exact (hback hcap).adjustable le_rfl (hlow.cap hcap)
    · exact hfree 0 (by simp)
    · exact hfree 1 (by simp)

/-- A settlement and then a list of them. -/
theorem Settled.settleable_cons {q : Groth16Proof × StreamSettlePub ℕ}
    {qs : List (Groth16Proof × StreamSettlePub ℕ)} (hs : Settled s s' [q.2])
    (hq : Settleable E s [q]) : Settleable E s' qs ↔ Settleable E s (q :: qs) := by
  have hnn : ∀ a, 0 ≤ settleDelta a q.2 ∧ 0 ≤ (qs.map (settleDelta a ·.2)).sum := fun a =>
    ⟨settleDelta_nonneg _ _, settleDeltas_nonneg a Prod.snd qs⟩
  have hpaused : s'.pool.access = s.pool.access := by rw [hs.config.pool]
  have haff : ∀ a n, Affords E s' a n ↔ Affords E s a (settleDelta a q.2 + n) := fun a n => by
    rw [hs.affords, List.map_singleton, List.sum_singleton]
  have hnext : s'.pool.tree.nextLeafIndex = s.pool.tree.nextLeafIndex + 2 := hs.next
  constructor
  · intro h
    refine ⟨?_, ?_, fun _ => hq.running (List.cons_ne_nil _ _), fun a => ?_, fun j hj => ?_⟩
    · rw [List.map_cons, List.nodup_cons]
      refine ⟨fun hmem => ?_, h.nodup⟩
      obtain ⟨q', hq', heq⟩ := List.mem_map.1 hmem
      exact (hs.checks.1 (h.checks q' hq')).2 (List.mem_singleton.2 heq)
    · intro q' hq'
      rcases List.mem_cons.1 hq' with rfl | hq'
      · exact hq.checks _ List.mem_cons_self
      · exact (hs.checks.1 (h.checks q' hq')).1
    · rw [List.map_cons, List.sum_cons]
      intro hne
      by_cases htail : (qs.map (settleDelta a ·.2)).sum = 0
      · have := hq.reserves a
        simp only [List.map_cons, List.map_nil, List.sum_singleton] at this
        rw [htail, add_zero] at hne ⊢
        exact this hne
      · exact (haff a _).1 (h.reserves a htail)
    · rw [List.length_cons] at hj
      by_cases hj2 : j < 2
      · exact hq.leaves j (by simpa using hj2)
      · have := h.leaves (j - 2) (by omega)
        rwa [hnext, show s.pool.tree.nextLeafIndex + 2 + (j - 2) =
          s.pool.tree.nextLeafIndex + j by omega] at this
  · intro h
    have hnodup := h.nodup
    rw [List.map_cons, List.nodup_cons] at hnodup
    refine ⟨hnodup.2, fun q' hq' => ?_, fun _ => ?_, fun a hne => ?_, fun j hj => ?_⟩
    · refine hs.checks.2 ⟨h.checks q' (List.mem_cons_of_mem _ hq'), fun hmem => ?_⟩
      exact hnodup.1 (List.mem_map.2 ⟨q', hq', List.mem_singleton.1 hmem⟩)
    · rw [hpaused]
      exact hq.running (List.cons_ne_nil _ _)
    · rw [haff]
      have := h.reserves a
      rw [List.map_cons, List.sum_cons] at this
      exact this (by have := hnn a; omega)
    · rw [hnext, show s.pool.tree.nextLeafIndex + 2 + j =
        s.pool.tree.nextLeafIndex + (j + 2) by omega]
      exact h.leaves _ (by simp only [List.length_cons]; omega)

/-- A part of a batch that can be settled can be settled. -/
theorem Settleable.sublist {qs qs' : List (Groth16Proof × StreamSettlePub ℕ)}
    (h : Settleable E s qs) (hsub : qs'.Sublist qs) : Settleable E s qs' := by
  have hsum : ∀ a, (qs'.map (settleDelta a ·.2)).sum ≤ (qs.map (settleDelta a ·.2)).sum := fun a => by
    refine (hsub.map _).sum_le_sum fun d hd => ?_
    obtain ⟨q, -, rfl⟩ := List.mem_map.1 hd
    exact settleDelta_nonneg _ _
  have hnn : ∀ a, 0 ≤ (qs'.map (settleDelta a ·.2)).sum := fun a =>
    settleDeltas_nonneg a Prod.snd qs'
  refine ⟨h.nodup.sublist (hsub.map _), fun q hq => h.checks q (hsub.subset hq), fun hne => ?_,
    fun a hne => ?_, fun j hj => h.leaves j ?_⟩
  · exact h.running fun h0 => hne (List.sublist_nil.1 (h0 ▸ hsub))
  · have haff := h.reserves a (by have := hsum a; have := hnn a; omega)
    exact ⟨haff.token, by linarith [haff.word, hsum a], by linarith [haff.reserve, hsum a]⟩
  · have := hsub.length_le
    omega

end

section
variable {E : Env} {s s' : State} {qs qs' : List (Groth16Proof × StreamSettlePub ℕ)}

/-- **What a list of settlements needs** of the state it starts in. -/
theorem State.settleLoop_ok_iff (hlow : ∀ q ∈ qs, Low s q.2) :
    (∃ s', State.settleLoop E qs s = .ok s') ↔ Settleable E s qs := by
  induction qs generalizing s with
  | nil => exact ⟨fun _ => ⟨by simp, by simp, by simp, by simp, by simp⟩, fun _ => ⟨s, rfl⟩⟩
  | cons q qs ih =>
      have hq : (∃ s', s.settleOne E q.1 q.2 = .ok s') ↔ Settleable E s [q] :=
        State.settleOne_ok_iff_settleable (hlow q List.mem_cons_self)
      have htail : ∀ {s₁}, s.settleOne E q.1 q.2 = .ok s₁ →
          ((∃ s', State.settleLoop E qs s₁ = .ok s') ↔ Settleable E s (q :: qs)) := by
        intro s₁ h1
        have hs := State.settleOne_settled h1
        rw [ih fun q' hq' => (hlow q' (List.mem_cons_of_mem _ hq')).settled hs]
        exact hs.settleable_cons (hq.1 ⟨s₁, h1⟩)
      simp only [State.settleLoop, bind_eq_ok]
      constructor
      · rintro ⟨s', s₁, h1, h2⟩
        exact (htail h1).1 ⟨s', h2⟩
      · intro h
        obtain ⟨s₁, h1⟩ := hq.2 (h.sublist (List.sublist_append_left [q] qs))
        obtain ⟨s', h2⟩ := (htail h1).2 h
        exact ⟨s', s₁, h1, h2⟩

/-- What a list of settlements leaves. -/
theorem State.settleLoop_settled (h : State.settleLoop E qs s = .ok s') :
    Settled s s' (qs.map (·.2)) := by
  induction qs generalizing s with
  | nil =>
      cases h
      exact .nil _
  | cons q qs ih =>
      simp only [State.settleLoop, bind_eq_ok] at h
      obtain ⟨s₁, h1, h2⟩ := h
      exact (State.settleOne_settled h1).append (ih h2)

/-- Lists of the same settlements leave the same channels, supplies and leaves. -/
theorem Settled.perm {pubs pubs' : List (StreamSettlePub ℕ)} {s₁ s₂ : State}
    (h₁ : Settled s s₁ pubs) (h₂ : Settled s s₂ pubs') (hp : pubs.Perm pubs') :
    s₁.escrow.channels = s₂.escrow.channels ∧ s₁.pool.noteSupplyOf = s₂.pool.noteSupplyOf ∧
      s₁.pool.tree.leaves.Perm s₂.pool.tree.leaves := by
  refine ⟨funext fun c => ?_, funext fun a => ?_, ?_⟩
  · have hmem := (hp.map (·.channelId)).mem_iff (a := c)
    by_cases hc : c ∈ pubs.map (·.channelId)
    · rw [h₁.closed c hc, h₂.closed c (hmem.1 hc)]
    · rw [h₁.kept c hc, h₂.kept c fun h => hc (hmem.2 h)]
  · rw [h₁.supply, h₂.supply, (hp.map _).sum_eq]
  · rw [h₁.leaves, h₂.leaves]
    exact (hp.flatMap_right _).append_left _

/-! ## The batch and its settlements -/

/-- One `settle` after the other. -/
def State.settleEach (E : Env) : List (Groth16Proof × StreamSettlePub ℕ) → State →
    Except Error State
  | [], s => .ok s
  | (proof, pub) :: rest, s => do
      let s' ← s.settle E proof pub
      settleEach E rest s'

/-- While the escrow is not paused, `settle` is the body of the loop. -/
theorem State.settleEach_eq_settleLoop (hp : s.escrow.access.paused = false) :
    State.settleEach E qs s = State.settleLoop E qs s := by
  induction qs generalizing s with
  | nil => rfl
  | cons q qs ih =>
      have hq : s.settle E q.1 q.2 = s.settleOne E q.1 q.2 := by
        rw [State.settle, Access.whenNotPaused, require, if_pos hp]
        rfl
      rw [State.settleEach, State.settleLoop, hq]
      cases h1 : s.settleOne E q.1 q.2 with
      | error e => rfl
      | ok s₁ =>
          refine ih ?_
          rw [(State.settleOne_settled h1).config.escrow]
          exact hp

/-- **The batch is its settlements.** -/
theorem State.settleBatch_eq_settleEach {proofs : List Groth16Proof}
    {pubs : List (StreamSettlePub ℕ)} (hlen : proofs.length = pubs.length) (hne : proofs ≠ []) :
    s.settleBatch E proofs pubs = State.settleEach E (proofs.zip pubs) s := by
  cases hp : s.escrow.access.paused with
  | false =>
      rw [State.settleEach_eq_settleLoop hp, State.settleBatch, Access.whenNotPaused, require,
        if_pos hp, require, if_pos hlen]
      rfl
  | true =>
      -- the first settlement fails as the batch does
      have hp' : ¬ s.escrow.access.paused = false := by simp [hp]
      obtain ⟨proof, proofs, rfl⟩ := List.exists_cons_of_ne_nil hne
      obtain ⟨pub, pubs, rfl⟩ : ∃ pub rest, pubs = pub :: rest :=
        List.exists_cons_of_length_pos (by rw [← hlen]; exact Nat.succ_pos _)
      rw [State.settleBatch, List.zip_cons_cons, State.settleEach, State.settle,
        Access.whenNotPaused, require, if_neg hp']
      rfl

/-- What a batch needs. -/
theorem State.settleBatch_ok_iff {proofs : List Groth16Proof} {pubs : List (StreamSettlePub ℕ)}
    (hlen : proofs.length = pubs.length) (hlow : ∀ pub ∈ pubs, Low s pub) :
    (∃ s', s.settleBatch E proofs pubs = .ok s') ↔
      s.escrow.access.paused = false ∧ Settleable E s (proofs.zip pubs) := by
  have hlow' : ∀ q ∈ proofs.zip pubs, Low s q.2 := fun q hq =>
    hlow q.2 (List.of_mem_zip hq).2
  simp only [State.settleBatch, bind_eq_ok, Access.whenNotPaused_eq_ok, require_eq_ok, exists_unit,
    exists_and_left, State.settleLoop_ok_iff hlow', hlen, true_and]

/-- What a batch leaves. -/
theorem State.settleBatch_settled {proofs : List Groth16Proof} {pubs : List (StreamSettlePub ℕ)}
    (h : s.settleBatch E proofs pubs = .ok s') : Settled s s' pubs := by
  simp only [State.settleBatch, bind_eq_ok, Access.whenNotPaused_eq_ok, require_eq_ok,
    exists_unit] at h
  obtain ⟨-, hlen, h⟩ := h
  have hs := State.settleLoop_settled h
  rwa [List.map_snd_zip hlen.ge] at hs

/-- No supply is negative in any configuration. -/
theorem supplies_nonneg {s₀ : State} {K : List (Pending State (Entry E) Kont)}
    {w : World State (Entry E) Kont} (hd : Deployed E s₀) (hr : Reachable E s₀ K w) (a : ℕ) :
    0 ≤ w.1.pool.noteSupplyOf a := by
  have hI : Preserves (machine E) fun _ w => ∀ a, 0 ≤ w.1.pool.noteSupplyOf a := by
    refine preserves_state (I := fun s => ∀ a, 0 ≤ s.pool.noteSupplyOf a)
      (fun {p s s'} hI h => Prim.run_nonneg h hI) (fun _ _ _ hI => hI) fun {s s'} hI hc a => ?_
    rcases hc.assets with ⟨-, h⟩ | ⟨b, t, -, -, h⟩
    · rw [h]
      exact hI a
    · rw [h, Function.update_apply]
      split
      · exact le_rfl
      · exact hI a
  exact hI.reach (hd.reserve.nonneg) hr a

/-- **A batch of settlements.** It is the list of its settlements; an empty one needs an escrow that is
not paused, and changes nothing. A batch that fails leaves no trace. While no supply is negative, the
order of the settlements does not matter for whether the batch succeeds, for the channels and the
supplies, or for which leaves are inserted. -/
theorem settleBatch_refines {proofs : List Groth16Proof} {pubs : List (StreamSettlePub ℕ)}
    (hlen : proofs.length = pubs.length) :
    (proofs ≠ [] → s.settleBatch E proofs pubs = State.settleEach E (proofs.zip pubs) s) ∧
      (proofs = [] → s.settleBatch E proofs pubs =
        if s.escrow.access.paused then .error .enforcedPause else .ok s) ∧
      ((∀ s', s.settleBatch E proofs pubs ≠ .ok s') → ∀ (e : Entry E) is K tr,
        e.call = .settleBatch proofs pubs → exec (machine E) (.call e is) K (s, tr) = (s, tr)) ∧
      ((∀ a, 0 ≤ s.pool.noteSupplyOf a) → ∀ proofs' pubs', proofs'.length = pubs'.length →
        (proofs.zip pubs).Perm (proofs'.zip pubs') →
        ((∃ s', s.settleBatch E proofs pubs = .ok s') ↔
          ∃ s', s.settleBatch E proofs' pubs' = .ok s') ∧
        ∀ s₁ s₂, s.settleBatch E proofs pubs = .ok s₁ → s.settleBatch E proofs' pubs' = .ok s₂ →
          s₁.escrow.channels = s₂.escrow.channels ∧ s₁.pool.noteSupplyOf = s₂.pool.noteSupplyOf ∧
            s₁.pool.tree.leaves.Perm s₂.pool.tree.leaves) := by
  refine ⟨State.settleBatch_eq_settleEach hlen, fun hnil => ?_, fun hfail e is K tr he => ?_,
    fun hnn proofs' pubs' hlen' hp => ⟨?_, fun s₁ s₂ h₁ h₂ => ?_⟩⟩
  · subst hnil
    obtain rfl : pubs = [] := List.length_eq_zero_iff.1 hlen.symm
    cases hp : s.escrow.access.paused <;>
      simp [State.settleBatch, Access.whenNotPaused, require, hp, State.settleLoop, bind, Except.bind]
  · rw [exec_call]
    obtain ⟨x, call, hx, hy⟩ := e
    cases he
    cases hb : s.settleBatch E proofs pubs with
    | ok s' => exact absurd hb (hfail s')
    | error err => simp [call?, machine, enter, hb, bind, Except.bind, Except.toOption]
  · rw [State.settleBatch_ok_iff hlen fun pub _ => .of_nonneg hnn pub,
      State.settleBatch_ok_iff hlen' fun pub _ => .of_nonneg hnn pub]
    exact and_congr_right fun _ => ⟨fun h => h.perm hp, fun h => h.perm hp.symm⟩
  · refine (State.settleBatch_settled h₁).perm (State.settleBatch_settled h₂) ?_
    have := hp.map Prod.snd
    rwa [List.map_snd_zip hlen.ge, List.map_snd_zip hlen'.ge] at this

end

/-! ## Two channels -/

/-- The signals of a settlement of a channel of USDC under the key `(9, 0)`. -/
def pairedSettle (channelId cap cumulative : ℕ) : StreamSettlePub ℕ where
  payeeCommitment := channelId
  refundCommitment := cap
  associationRoot := labelRoot [7]
  poolId := 1
  chainId := 1
  channelId := channelId
  payerAx := 9
  payerAy := 0
  cap := cap
  cumulative := cumulative
  assetId := 11

def pairedAccepted : Accepted :=
  ⟨[], [], [], [], [pairedSettle 3 3 1, pairedSettle 3 3 2, pairedSettle 4 10 6]⟩

/-- Channel 3 with a cap of 3, channel 4 with a cap of 10, and a supply of USDC. -/
def paired (supply : ℤ) : State :=
  let s := ((ready pairedAccepted).setChannel 3 ⟨9, 0, 3, 5, 0, 11, true, false⟩).setChannel 4
    ⟨9, 0, 10, 5, 0, 11, true, false⟩
  { s with pool := { s.pool with noteSupplyOf := Function.update s.pool.noteSupplyOf 11 supply } }

/-- A batch that pays both channels. -/
theorem settleBatch_refines_paired :
    ((paired 20).settleBatch (sampleEnv pairedAccepted) [someProof, someProof]
      [pairedSettle 3 3 1, pairedSettle 4 10 6]).toOption.isSome = true ∧
    (paired 20).settleBatch (sampleEnv pairedAccepted) [someProof, someProof]
      [pairedSettle 3 3 1, pairedSettle 4 10 6] =
    State.settleEach (sampleEnv pairedAccepted)
      ([someProof, someProof].zip [pairedSettle 3 3 1, pairedSettle 4 10 6]) (paired 20) :=
  ⟨by decide, (settleBatch_refines rfl).1 (List.cons_ne_nil _ _)⟩

/-- An escrow that is paused refuses the empty batch, while no settlement is refused; and from a
negative supply the order of the settlements decides. -/
theorem settleBatch_not_refines :
    let E := sampleEnv pairedAccepted
    let stopped := (paired 0).setAccess { (paired 0).escrow.access with paused := true } .escrow
    (stopped.settleBatch E [] []).toOption.isSome = false ∧
      (State.settleEach E ([].zip []) stopped).toOption.isSome = true ∧
      ((paired (-5)).settleBatch E [someProof, someProof]
        [pairedSettle 3 3 1, pairedSettle 4 10 6]).toOption.isSome = false ∧
      ((paired (-5)).settleBatch E [someProof, someProof]
        [pairedSettle 4 10 6, pairedSettle 3 3 1]).toOption.isSome = true := by
  decide

end ShadePay.Evm
