import ShadePay.Evm.Scenario

/-!
# No note is spent twice

The registry is keyed by nullifier hashes, and every spend circuit derives that hash from the note and
from the pool's domain. `Spent` is the invariant: the nullifiers of all successful calls of a run are
distinct, and the registry holds them. `consumed_once` is the consequence for notes, over every mix of
the entry points and for both inputs of one settlement.
-/

namespace ShadePay.Evm

open Guard Reentrancy

/-! ## Nullifiers of primitives and calls -/

/-- The nullifier a primitive spends. -/
def Prim.nullifiers : Prim → List ℕ
  | .spend _ n => [n]
  | _ => []

/-- The nullifiers a call spends. -/
def Call.nullifiers (E : Env) (sender : Address) (s : State) (c : Call) : List ℕ :=
  (c.prims E sender s).flatMap Prim.nullifiers

section
variable {E : Env} {s s' : State}

/-- One primitive spends fresh nullifiers and only those. -/
theorem Prim.run_spent {p : Prim} (h : p.run E s = .ok s') :
    (∀ n ∈ p.nullifiers, s.registry.spent n = false) ∧
      ∀ n, s'.registry.spent n = true ↔ s.registry.spent n = true ∨ n ∈ p.nullifiers := by
  cases p with
  | spend x k =>
      obtain ⟨⟨-, -, hfresh⟩, rfl⟩ := State.spend_eq_ok.1 h
      refine ⟨by simpa [Prim.nullifiers] using hfresh, fun n => ?_⟩
      by_cases hn : n = k
      · simp [Prim.nullifiers, hn]
      · simp [Prim.nullifiers, hn]
  | insert leaf =>
      simp only [Prim.run, bind_eq_ok, Prod.exists, pure_eq_ok] at h
      obtain ⟨i, _, h, rfl⟩ := h
      obtain ⟨t, ht, rfl⟩ := State.insert_eq_ok.1 h
      simp [Prim.nullifiers]
  | adjust a d =>
      obtain ⟨-, rfl⟩ := State.adjustNoteSupply_eq_ok.1 h
      simp [Prim.nullifiers]
  | deposit n =>
      cases h
      simp [Prim.nullifiers]
  | openChannel c ch =>
      simp only [Prim.run, bind_eq_ok, require_eq_ok, exists_unit, pure_eq_ok] at h
      obtain ⟨-, rfl⟩ := h
      simp [Prim.nullifiers, State.setChannel]
  | consume c =>
      simp only [Prim.run, bind_eq_ok, require_eq_ok, exists_unit, pure_eq_ok] at h
      obtain ⟨-, -, rfl⟩ := h
      simp [Prim.nullifiers, State.setChannel]
  | emit e =>
      cases h
      simp [Prim.nullifiers, State.emit]

theorem Prim.nodup_nullifiers (p : Prim) : p.nullifiers.Nodup := by
  cases p <;> simp [Prim.nullifiers]

/-- A list of primitives spends distinct fresh nullifiers and only those. -/
theorem runPrims_spent {ps : List Prim} (h : runPrims E ps s = .ok s') :
    (ps.flatMap Prim.nullifiers).Nodup ∧
      (∀ n ∈ ps.flatMap Prim.nullifiers, s.registry.spent n = false) ∧
      ∀ n, s'.registry.spent n = true ↔
        s.registry.spent n = true ∨ n ∈ ps.flatMap Prim.nullifiers := by
  induction ps generalizing s with
  | nil =>
      cases h
      simp
  | cons p ps ih =>
      obtain ⟨s₁, h1, h2⟩ := (runPrims_cons E).1 h
      obtain ⟨hfresh, hspent⟩ := Prim.run_spent h1
      obtain ⟨hnd, hfresh', hspent'⟩ := ih h2
      -- what the rest spends is fresh after the head, so it differs from what the head spent
      have hnew : ∀ n ∈ ps.flatMap Prim.nullifiers, ¬ (s.registry.spent n = true ∨ n ∈ p.nullifiers) :=
        fun n hn => by
          rw [← hspent, hfresh' n hn]
          simp
      refine ⟨?_, ?_, fun n => ?_⟩
      · rw [List.flatMap_cons, List.nodup_append]
        refine ⟨p.nodup_nullifiers, hnd, ?_⟩
        rintro a ha b hb rfl
        exact hnew a hb (.inr ha)
      · intro n hn
        rw [List.flatMap_cons, List.mem_append] at hn
        rcases hn with hn | hn
        · exact hfresh n hn
        · have := hnew n hn
          push Not at this
          simpa using this.1
      · rw [hspent', hspent, List.flatMap_cons, List.mem_append, or_assoc]

/-- An insertion for a channel spends no note. -/
theorem streamPrims_nullifiers (a c : ℕ) (d : ℤ) :
    (streamPrims a c d).flatMap Prim.nullifiers = [] := by
  unfold streamPrims
  split <;> rfl

/-- The inputs of a call reveal nullifiers it spends. -/
theorem Call.inputs_sublist (sender : Address) (c : Call) :
    ((c.inputs E).map Input.key).Sublist (c.nullifiers E sender s) := by
  cases c with
  | «open» proof pub =>
      simp [Call.nullifiers, Call.inputs, Call.prims, Prim.nullifiers]
  | withdraw => exact List.Sublist.refl _
  | rfqSettle => exact List.Sublist.refl _
  | withdrawCctp => exact List.Sublist.refl _
  | privateTransferSettle => exact List.Sublist.refl _
  | mpcSettle => exact List.Sublist.refl _
  | mpcSettlePriced => exact List.Sublist.refl _
  | _ => exact List.nil_sublist _

end

/-! ## The invariant -/

/-- All successful calls passed their checks in states that meet `C`; their nullifiers are distinct,
and the registry holds them. -/
structure Spent (E : Env) (C : State → Prop) (l : List (Entry E × State)) (s : State) : Prop where
  checks : ∀ q ∈ l, q.1.call.Checks E q.1.sender q.2 ∧ C q.2
  nodup : (l.flatMap fun q => q.1.call.nullifiers E q.1.sender q.2).Nodup
  spent : ∀ n ∈ l.flatMap fun q => q.1.call.nullifiers E q.1.sender q.2,
    s.registry.spent n = true

section
variable {E : Env} {C : State → Prop}

/-- Nothing is unspent again. -/
theorem Spent.mono {l : List (Entry E × State)} {s s' : State} (h : Spent E C l s)
    (hmono : ∀ n, s.registry.spent n = true → s'.registry.spent n = true) : Spent E C l s' :=
  ⟨h.checks, h.nodup, fun n hn => hmono n (h.spent n hn)⟩

/-- One more call. -/
theorem Spent.call {l₁ l₂ : List (Entry E × State)} {e : Entry E} {s s' : State} (hC : C s)
    (h : Spent E C (l₁ ++ l₂) s) (hc : e.call.Checks E e.sender s)
    (hrun : runPrims E (e.call.prims E e.sender s) s = .ok s') :
    Spent E C (l₁ ++ (e, s) :: l₂) s' := by
  obtain ⟨hnd, hfresh, hspent⟩ := runPrims_spent hrun
  have hperm : (l₁ ++ (e, s) :: l₂).Perm ((e, s) :: (l₁ ++ l₂)) := List.perm_middle
  have hflat := hperm.flatMap_right fun q => q.1.call.nullifiers E q.1.sender q.2
  rw [List.flatMap_cons] at hflat
  refine ⟨fun q hq => ?_, ?_, fun n hn => ?_⟩
  · rcases List.mem_cons.1 (hperm.mem_iff.1 hq) with rfl | hq
    · exact ⟨hc, hC⟩
    · exact h.checks q hq
  · rw [hflat.nodup_iff, List.nodup_append]
    refine ⟨hnd, h.nodup, ?_⟩
    rintro a ha b hb rfl
    have h1 := hfresh a ha
    rw [h.spent a hb] at h1
    cases h1
  · rw [hspent]
    rcases List.mem_append.1 (hflat.mem_iff.1 hn) with hn | hn
    · exact .inr hn
    · exact .inl (h.spent n hn)

/-- **Invariant.** The keys of the consumed notes are spent, and distinct. -/
theorem preserves_spent : PreservesIn (machine E) C fun K w => Spent E C (calls K w) w.1 := by
  refine preserves_calls (fun hC h hc hrun => h.call hC hc hrun) (fun {l k s s'} _ h hrun => ?_)
    fun _ h hact => ?_
  · refine h.mono fun n hn => ((runPrims_spent hrun).2.2 n).2 (.inl ?_)
    cases k <;> exact hn
  · rcases act_inv hact with ⟨b, al, n, rfl, -⟩ | ⟨-, hc⟩
    · exact h.mono fun _ hn => hn
    · exact h.mono fun n hn => by rwa [hc.spent]

/-- **Single spend.** In a run whose configured verifiers are sound, every input of every successful
call consumes a note, and no note is consumed by two inputs: neither of two calls, finished or
suspended, nor of one. The calls may have proved against any known root. -/
theorem consumed_once {A : Knowledge} {s₀ : State} {K : List (Pending State (Entry E) Kont)}
    {w : World State (Entry E) Kont} (hs : SoundAt E A s₀)
    (hr : Reach ((machine E).within (SoundAt E A)) [] (s₀, []) K w) :
    (∀ q ∈ calls K w, ∀ i ∈ q.1.call.inputs E, ∃ n, i.opens n) ∧
      ((calls K w).flatMap fun q => q.1.call.inputs E).Pairwise
        fun i j => ∀ n, ¬ (i.opens n ∧ j.opens n) := by
  obtain ⟨-, hI⟩ := preserves_spent.reach hs ⟨by simp [calls], by simp [calls], by simp [calls]⟩ hr
  refine ⟨fun q hq i hi => (hI.checks q hq).1.opens (hI.checks q hq).2 hi, ?_⟩
  have hsub : List.Sublist (((calls K w).flatMap fun q => q.1.call.inputs E).map Input.key)
      ((calls K w).flatMap fun q => q.1.call.nullifiers E q.1.sender q.2) := by
    rw [List.map_flatMap]
    exact List.Sublist.flatMap_right _ fun q _ => Call.inputs_sublist _ _
  have hnd := hI.nodup.sublist hsub
  rw [List.nodup_iff_pairwise_ne, List.pairwise_map] at hnd
  refine hnd.imp_of_mem fun {i j} hi hj hne n hn => hne ?_
  obtain ⟨q, hq, hi⟩ := List.mem_flatMap.1 hi
  obtain ⟨r, hr, hj⟩ := List.mem_flatMap.1 hj
  rw [(hI.checks q hq).1.key_eq hi hn.1, (hI.checks r hr).1.key_eq hj hn.2]

/-- The second note of the runs. -/
def note₂ : Note Bn254 := usdcNote 100 7 2

/-- The withdrawal of 40 of the first note from the tree that holds both. -/
def respend : WithdrawPub ℕ := withdrawOf note₁ [leafOf note₁, leafOf note₂] [7] 1 40 9

/-- The signals of a run that deposits two notes and withdraws from each, and from the first again. -/
def spending : Accepted where
  withdraws := [withdrawOf note₁ [leafOf note₁] [7] 1 60 9,
    withdrawOf note₂ [leafOf note₁, leafOf note₂] [7] 1 30 9, respend]
  deposits := [depositOf note₁ 1, depositOf note₂ 2]
  mpcs := []
  opens := []
  settles := []

/-- The verifiers of the run are sound for their lists. -/
theorem spending_sound : spending.Sound noKnowledge where
  withdraw x hx := by
    have hinput : ∀ leaves i (n : Note Bn254),
        (spendInput leaves [7] i 0 n).Hashed samplePoseidon Set.univ 3 2 n := fun _ _ n =>
      ⟨Note.hashed_univ n, fun _ _ _ => trivial, fun _ _ _ => trivial⟩
    simp only [spending, List.mem_cons, List.not_mem_nil, or_false] at hx
    rcases hx with rfl | rfl | rfl
    · exact ⟨_, withdrawOf_sat spends_note₁ (by norm_num) (by norm_num), hinput _ _ _⟩
    · exact ⟨_, withdrawOf_sat (i := 1) (j := 0) (spends_sample (by norm_num) (by norm_num) rfl rfl)
        (by norm_num) (by norm_num), hinput _ _ _⟩
    · exact ⟨_, withdrawOf_sat (i := 0) (j := 0) (spends_sample (by norm_num) (by norm_num) rfl rfl)
        (by norm_num) (by norm_num), hinput _ _ _⟩
  deposit x hx := by
    rcases List.mem_pair.1 hx with rfl | rfl
    · exact ⟨_, depositOf_sat 1, Note.hashed_univ _⟩
    · exact ⟨_, depositOf_sat 2, Note.hashed_univ _⟩
  mpc x hx := by cases hx
  streamOpen x hx := by cases hx
  streamSettle x hx := by cases hx

/-- The two deposits and withdrawals, and the second withdrawal from the first note. -/
def spendingRun : List (Tx (Entry (sampleEnv spending)) Action) :=
  [depositTx _ note₁ 1,
    callTx _ (.withdraw 9 someProof (withdrawOf note₁ [leafOf note₁] [7] 1 60 9)),
    .act (.mint usdc 1 100), depositTx _ note₂ 2,
    callTx _ (.withdraw 9 someProof (withdrawOf note₂ [leafOf note₁, leafOf note₂] [7] 1 30 9)),
    callTx _ (.withdraw 9 someProof respend)]

/-- Four of the five calls are on record, and two inputs. The fifth call goes through where the first
note was not spent before. -/
theorem spendingRun_result : (calls [] (runFrom spending spendingRun)).length = 4 ∧
    ((calls [] (runFrom spending spendingRun)).flatMap
      fun q => q.1.call.inputs (sampleEnv spending)).length = 2 ∧
    (calls [] (runFrom spending [depositTx _ note₁ 1, .act (.mint usdc 1 100), depositTx _ note₂ 2,
      callTx _ (.withdraw 9 someProof respend)])).length = 3 := by
  decide

/-- Two notes are withdrawn from, and the first of them a second time, which is refused: the two inputs
of the run consume different notes. -/
theorem consumed_once_withdrawals :
    ((calls [] (runFrom spending spendingRun)).flatMap
      fun q => q.1.call.inputs (sampleEnv spending)).length = 2 ∧
    (∀ q ∈ calls [] (runFrom spending spendingRun),
      ∀ i ∈ q.1.call.inputs (sampleEnv spending), ∃ n, i.opens n) ∧
    ((calls [] (runFrom spending spendingRun)).flatMap
      fun q => q.1.call.inputs (sampleEnv spending)).Pairwise
        fun i j => ∀ n, ¬ (i.opens n ∧ j.opens n) :=
  ⟨spendingRun_result.2.1, consumed_once (soundAt_sample spending_sound _)
    (reach_run (fun t _ => soundAt_sample spending_sound t) spendingRun)⟩

end

end ShadePay.Evm
