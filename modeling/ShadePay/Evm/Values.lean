import ShadePay.Circuit.MpcValue
import ShadePay.Evm.Payouts
import ShadePay.Evm.Solvency

/-!
# Where the value of a settlement goes

A settlement consumes whole notes, and its circuit bounds what is taken from each of them.
`settlement_accounts` is the account of every successful settlement of a run: what it takes is in the
notes it inserts, in what it pays and in the fee it makes public, and nothing else is. What it leaves
of a note it consumes is in no note, as in a withdrawal of a part (`remainder_destroyed`).
-/

namespace ShadePay.Evm

open Guard Reentrancy

/-! ## Settlements -/

/-- The calls that settle on notes. -/
def Call.settles : Call → Bool
  | .withdraw .. => true
  | .rfqSettle .. => true
  | .withdrawCctp .. => true
  | .privateTransferSettle .. => true
  | .mpcSettle .. => true
  | .mpcSettlePriced .. => true
  | _ => false

/-- The fee a call keeps back from what it pays or inserts. -/
def Call.fee : Call → ℕ
  | .withdraw _ _ pub => pub.relayerFee
  | .privateTransferSettle _ pub => pub.feePublic
  | _ => 0

/-- What a call takes from each of the notes it consumes, whose values are given. -/
def Call.taken : Call → List ℕ → List ℕ
  | .withdraw _ _ pub, _ => [pub.withdrawnValue]
  | .rfqSettle _ _ _ _ _ _ _ pub, _ => [pub.withdrawnValue]
  | .withdrawCctp _ _ _ _ _ pub, _ => [pub.withdrawnValue]
  | .mpcSettle _ _ _ _ pub, _ => [pub.matchedAmount7dp, pub.matchedAmount7dp]
  | _, values => values

/-- The notes a settlement consumes and those it inserts, under an assignment that satisfies its
circuit. The values of a same-asset match are 128-bit numbers. -/
inductive Call.Assigned (E : Env) : Call → List (Note Bn254) → List (Note Bn254) → Prop
  | withdraw {a proof w} {pub : WithdrawPub ℕ} :
      Withdraw E.poseidon E.levels 2 (pub.map Nat.cast) w →
      Assigned E (.withdraw a proof pub) [w.note (pub.map Nat.cast)] []
  | rfqSettle {a q i f pk sig proof w} {pub : WithdrawPub ℕ} :
      Withdraw E.poseidon E.levels 2 (pub.map Nat.cast) w →
      Assigned E (.rfqSettle a q i f pk sig proof pub) [w.note (pub.map Nat.cast)] []
  | withdrawCctp {a r fee fin proof w} {pub : WithdrawPub ℕ} :
      Withdraw E.poseidon E.levels 2 (pub.map Nat.cast) w →
      Assigned E (.withdrawCctp a r fee fin proof pub) [w.note (pub.map Nat.cast)] []
  | transfer {proof w} {pub : TransferPub ℕ} :
      PrivateTransfer E.poseidon E.levels 2 (pub.map Nat.cast) w →
      Assigned E (.privateTransferSettle proof pub) [w.note (pub.map Nat.cast)]
        [w.outNote (pub.map Nat.cast)]
  | mpc {b pks sigs proof w} {pub : MpcPub ℕ} :
      MpcSettlement E.poseidon E.levels 2 (pub.map Nat.cast) w →
      w.valueA.val < 2 ^ 128 → w.valueB.val < 2 ^ 128 →
      w.outValueA.val < 2 ^ 128 → w.outValueB.val < 2 ^ 128 →
      Assigned E (.mpcSettle b pks sigs proof pub)
        [w.noteA (pub.map Nat.cast), w.noteB (pub.map Nat.cast)]
        [w.outNoteA (pub.map Nat.cast), w.outNoteB (pub.map Nat.cast)]
  | mpcPriced {b pks sigs proof w} {pub : MpcPricedPub ℕ} :
      MpcPricedSettlement E.poseidon E.levels 2 (pub.map Nat.cast) w →
      Assigned E (.mpcSettlePriced b pks sigs proof pub)
        [w.noteA (pub.map Nat.cast), w.noteB (pub.map Nat.cast)]
        [w.outNoteA (pub.map Nat.cast), w.outNoteB (pub.map Nat.cast)]

/-- The values of a list of notes. -/
def values (ns : List (Note Bn254)) : List ℕ := ns.map fun n => n.value.val

/-- The amount of a payout. -/
def Payout.amount : Payout → ℕ
  | .transfer _ _ amount => amount
  | .burn _ amount _ _ _ _ => amount

/-- What left the pool in a finished call. -/
def paid {E : Env} (f : Frame State (Entry E) Kont) : ℕ :=
  ((f.konts.filterMap Kont.payout).map Payout.amount).sum

/-- The account of a finished call that consumes `ins` and inserts `outs`. -/
structure Accounted (E : Env) (f : Frame State (Entry E) Kont) (ins outs : List (Note Bn254)) :
    Prop where
  consumed : ins.map (noteKey E) = f.entry.call.nullifiers E f.entry.sender f.pre
  inserted : outs.map (fun n => (n.commitment E.poseidon).val) =
    (f.entry.call.prims E f.entry.sender f.pre).flatMap Prim.leaves
  taken : List.Forall₂ (· ≤ ·) (f.entry.call.taken (values ins)) (values ins)
  account : (values outs).sum + paid f + f.entry.call.fee = (f.entry.call.taken (values ins)).sum

/-! ## One settlement -/

/-- Lists that are below each other entry by entry and have one sum are equal. -/
theorem eq_of_forall₂_le {l m : List ℕ} (h : List.Forall₂ (· ≤ ·) l m) : l.sum = m.sum ↔ l = m := by
  refine ⟨fun hsum => ?_, congrArg _⟩
  induction h with
  | nil => rfl
  | @cons a b l m hab hrest ih =>
      have hle : l.sum ≤ m.sum := hrest.sum_le_sum
      rw [List.sum_cons, List.sum_cons] at hsum
      obtain rfl : a = b := by omega
      rw [ih (by omega)]

section
variable {E : Env} {A : Knowledge} {f : Frame State (Entry E) Kont} {s : State}

/-- The amounts along the suspension points of a finished call are those it names. -/
theorem Suspended.paid {call : Call} {pre : State} {ks : List Kont} {k : Kont}
    (h : Suspended call pre ks k) (hnext : k.next s = none) :
    (((ks ++ [k]).filterMap Kont.payout).map Payout.amount) =
      (call.payouts pre).map Payout.amount := by
  cases h with
  | first hk => cases call <;> cases hk <;> cases hnext
  | next hk hk' => cases call <;> cases hk <;> cases hk' <;> rfl

/-- What a call of a run paid. -/
theorem FramesOk.paid {C : State → Prop} {K : List (Pending State (Entry E) Kont)}
    {w : World State (Entry E) Kont} (h : FramesOk C K w) (hf : f ∈ w.2) :
    paid f = ((f.entry.call.payouts f.pre).map Payout.amount).sum := by
  obtain ⟨-, -, ⟨hnil, hnone, -⟩ | ⟨ks, k, s, hks, hnext, hsusp, -⟩⟩ := h.finished f hf
  · rw [Evm.paid, hnil]
    cases hcall : f.entry.call <;> rw [hcall] at hnone <;> first | rfl | cases hnone
  · rw [Evm.paid, hks, hsusp.paid hnext]

/-- The account of a call on the withdraw circuit, which inserts nothing. -/
theorem WithdrawChecks.accounted {op : ℤ} {proof : Groth16Proof} {pub : WithdrawPub ℕ}
    {w : WithdrawWit Bn254} (hc : WithdrawChecks E f.pre op proof pub)
    (hw : Withdraw E.poseidon E.levels 2 (pub.map Nat.cast) w)
    (hprims : f.entry.call.prims E f.entry.sender f.pre = [.spend E.pool pub.nullifierHash])
    (htaken : ∀ vs, f.entry.call.taken vs = [pub.withdrawnValue])
    (hpaid : paid f + f.entry.call.fee = pub.withdrawnValue) :
    Accounted E f [w.note (pub.map Nat.cast)] [] where
  consumed := by
    rw [Call.nullifiers, hprims]
    exact congrArg (fun k => [k]) (hc.key_eq ⟨w, hw, rfl⟩).symm
  inserted := by
    rw [hprims]
    rfl
  taken := by
    have hle := hw.values.2.1
    rw [WithdrawPub.map, val_word (E.lt_of_verifyProof hc.verified _ (by simp [WithdrawPub.toList]))]
      at hle
    rw [htaken]
    exact .cons hle .nil
  account := by
    rw [htaken, List.sum_singleton, ← hpaid]
    simp [values]

/-- The leaf of an output note is the word its circuit publishes. -/
theorem leaf_of_output {n : Note Bn254} {c : ℕ} (hc : c < bn254)
    (h : (c : Bn254) = n.commitment E.poseidon) : (n.commitment E.poseidon).val = c := by
  rw [← h, val_word hc]

/-- **One settlement.** -/
theorem Call.Assigned.accounted {ins outs : List (Note Bn254)}
    (h : f.entry.call.Assigned E ins outs) (hc : f.entry.call.Checks E f.entry.sender f.pre)
    (hpaid : paid f = ((f.entry.call.payouts f.pre).map Payout.amount).sum) :
    Accounted E f ins outs := by
  obtain ⟨⟨x, call, hxp, hxe⟩, pre, post, konts⟩ := f
  have hkey : ∀ i ∈ call.inputs E, ∀ n, i.opens n → noteKey E n = i.key :=
    fun i hi n hn => (Call.Checks.key_eq hc hi hn).symm
  cases h with
  | withdraw hw =>
      refine hc.1.accounted hw rfl (fun _ => rfl) ?_
      have hfee := hc.2.1
      simp only [Call.payouts, List.map_cons, List.map_nil, List.sum_singleton, Payout.amount] at hpaid
      rw [hpaid]
      exact Nat.sub_add_cancel hfee
  | rfqSettle hw =>
      exact hc.1.accounted hw rfl (fun _ => rfl) hpaid
  | withdrawCctp hw =>
      exact hc.1.accounted hw rfl (fun _ => rfl) hpaid
  | @transfer proof w pub hw =>
      obtain ⟨-, -, -, hver⟩ := hc
      have hlt : ∀ y ∈ pub.toList, y < bn254 := E.lt_of_verifyProof hver
      have hfee : ((pub.feePublic : ℕ) : Bn254).val = pub.feePublic :=
        val_word (hlt _ (by simp [TransferPub.toList]))
      have hval : w.inValue.val = w.outValue.val + ((pub.feePublic : ℕ) : Bn254).val := hw.values.1
      refine ⟨?_, ?_, List.forall₂_refl _, ?_⟩
      · exact congrArg (fun k => [k]) (hkey _ List.mem_cons_self _ ⟨w, hw, rfl⟩)
      · exact congrArg (fun k => [k])
          (leaf_of_output (hlt _ (by simp [TransferPub.toList])) hw.output)
      · rw [hpaid]
        change w.outValue.val + 0 + 0 + pub.feePublic = w.inValue.val + 0
        omega
  | @mpc b pks sigs proof w pub hw hA hB hoA hoB =>
      obtain ⟨-, hver, -⟩ := hc
      have hlt : ∀ y ∈ pub.toList, y < bn254 := E.lt_of_verifyProof hver
      have hm : ((pub.matchedAmount7dp : ℕ) : Bn254).val = pub.matchedAmount7dp :=
        val_word (hlt _ (by simp [MpcPub.toList]))
      obtain ⟨-, -, hle, hsum, -⟩ := (hw.valueLaw_iff hA hB).2 ⟨hoA, hoB⟩
      rw [MpcPub.map, hm] at hle hsum
      refine ⟨?_, ?_, ?_, ?_⟩
      · exact congrArg₂ (fun k l => [k, l]) (hkey _ List.mem_cons_self _ ⟨w, hw, rfl⟩)
          (hkey _ (List.mem_cons_of_mem _ List.mem_cons_self) _ ⟨w, hw, rfl⟩)
      · have houtA := leaf_of_output (hlt pub.outputCommitmentA (by simp [MpcPub.toList])) hw.outputA
        have houtB := leaf_of_output (hlt pub.outputCommitmentB (by simp [MpcPub.toList])) hw.outputB
        exact congrArg₂ (fun k l => [k, l]) houtA houtB
      · exact .cons (hle.trans (min_le_left _ _)) (.cons (hle.trans (min_le_right _ _)) .nil)
      · rw [hpaid]
        change w.outValueA.val + (w.outValueB.val + 0) + 0 + 0 =
          pub.matchedAmount7dp + (pub.matchedAmount7dp + 0)
        omega
  | @mpcPriced b pks sigs proof w pub hw =>
      obtain ⟨-, hver, -⟩ := hc
      have hlt : ∀ y ∈ pub.toList, y < bn254 := E.lt_of_verifyProof hver
      refine ⟨?_, ?_, List.forall₂_refl _, ?_⟩
      · exact congrArg₂ (fun k l => [k, l]) (hkey _ List.mem_cons_self _ ⟨w, hw, rfl⟩)
          (hkey _ (List.mem_cons_of_mem _ List.mem_cons_self) _ ⟨w, hw, rfl⟩)
      · have houtA := leaf_of_output (hlt pub.outputCommitmentA (by simp [MpcPricedPub.toList])) hw.outputA
        have houtB := leaf_of_output (hlt pub.outputCommitmentB (by simp [MpcPricedPub.toList])) hw.outputB
        exact congrArg₂ (fun k l => [k, l]) houtA houtB
      · -- each side receives the other's amount
        rw [hpaid]
        change ((pub.matchedAmountB : ℕ) : Bn254).val + (((pub.matchedAmountA : ℕ) : Bn254).val + 0) +
          0 + 0 = ((pub.matchedAmountA : ℕ) : Bn254).val + (((pub.matchedAmountB : ℕ) : Bn254).val + 0)
        omega

/-- The assignments of a settlement that passed its checks. -/
theorem Call.Checks.assigned (hG : SoundAt E A s) (hlaw : ∀ x w, A.mpcLaw x w →
      w.valueA.val < 2 ^ 128 ∧ w.valueB.val < 2 ^ 128 ∧ w.outValueA.val < 2 ^ 128 ∧
        w.outValueB.val < 2 ^ 128) {call : Call} {x : Address} (hc : call.Checks E x s)
    (hs : call.settles = true) : ∃ ins outs, call.Assigned E ins outs := by
  cases call with
  | withdraw a proof pub =>
      obtain ⟨w, hw, -⟩ := hG.withdraw (E.groth16_of_verifyProof hc.1.verified)
      exact ⟨_, _, .withdraw hw⟩
  | rfqSettle a q i f pk sig proof pub =>
      obtain ⟨w, hw, -⟩ := hG.withdraw (E.groth16_of_verifyProof hc.1.verified)
      exact ⟨_, _, .rfqSettle hw⟩
  | withdrawCctp a r fee fin proof pub =>
      obtain ⟨w, hw, -⟩ := hG.withdraw (E.groth16_of_verifyProof hc.1.verified)
      exact ⟨_, _, .withdrawCctp hw⟩
  | privateTransferSettle proof pub =>
      obtain ⟨-, -, -, hver⟩ := hc
      obtain ⟨w, hw, -⟩ := hG.transfer (E.groth16_of_verifyProof hver)
      exact ⟨_, _, .transfer hw⟩
  | mpcSettle b pks sigs proof pub =>
      obtain ⟨-, hver, -⟩ := hc
      obtain ⟨w, hw, hl, -⟩ := hG.mpc (E.groth16_of_verifyProof hver)
      obtain ⟨hA, hB, hoA, hoB⟩ := hlaw _ _ hl
      exact ⟨_, _, .mpc hw hA hB hoA hoB⟩
  | mpcSettlePriced b pks sigs proof pub =>
      obtain ⟨-, hver, -⟩ := hc
      obtain ⟨w, hw, -⟩ := hG.mpcPriced (E.groth16_of_verifyProof hver)
      exact ⟨_, _, .mpcPriced hw⟩
  | _ => cases hs

/-! ## All settlements of a run -/

/-- **The account of a settlement.** The verifiers accept only signals with a satisfying assignment,
in which the values of a same-asset match are 128-bit numbers. Then every successful settlement of a
run has such an assignment, and for each of them it inserts, pays and keeps as a fee exactly what it
takes from the notes it consumes. No value is destroyed exactly when each of them is taken whole. -/
theorem settlement_accounts {s₀ : State} {K : List (Pending State (Entry E) Kont)}
    {w : World State (Entry E) Kont} (hlaw : ∀ x w, A.mpcLaw x w →
      w.valueA.val < 2 ^ 128 ∧ w.valueB.val < 2 ^ 128 ∧ w.outValueA.val < 2 ^ 128 ∧
        w.outValueB.val < 2 ^ 128)
    (hsound : SoundAt E A s₀) (h : Reach ((machine E).within (SoundAt E A)) [] (s₀, []) K w)
    (hf : f ∈ w.2) (hs : f.entry.call.settles = true) :
    (∃ ins outs, f.entry.call.Assigned E ins outs) ∧
      ∀ ins outs, f.entry.call.Assigned E ins outs → Accounted E f ins outs ∧
        ((values outs).sum + paid f + f.entry.call.fee = (values ins).sum ↔
          f.entry.call.taken (values ins) = values ins) := by
  have hok := framesOk_reach hsound h
  obtain ⟨hG, hc, -⟩ := hok.finished f hf
  refine ⟨hc.assigned hG hlaw hs, fun ins outs ha => ?_⟩
  have hacc := ha.accounted hc (hok.paid hf)
  refine ⟨hacc, ?_⟩
  rw [hacc.account]
  exact eq_of_forall₂_le hacc.taken

/-! ## A withdrawal of a part -/

/-- All that is known of accepted proofs is that the values of a match are 128-bit numbers. -/
def rangedKnowledge : Knowledge where
  eddsa := sampleEddsa
  hashed := Set.univ
  mpcLaw _ w := w.valueA.val < 2 ^ 128 ∧ w.valueB.val < 2 ^ 128 ∧ w.outValueA.val < 2 ^ 128 ∧
    w.outValueB.val < 2 ^ 128

theorem withdrawal_ranged (s : State) : SoundAt (sampleEnv withdrawal) rangedKnowledge s :=
  soundAt_sample (withdrawal_sound (Note.hashed_univ _) (treeHashed_univ _ _) (treeHashed_univ _ _)) _

theorem withdrawalRun_length : 1 < (runFrom withdrawal withdrawalRun).2.length := by
  rw [withdrawalRun_result.1]
  norm_num

/-- The withdrawal of the run. -/
def withdrawn : Frame State (Entry (sampleEnv withdrawal)) Kont :=
  (runFrom withdrawal withdrawalRun).2.get ⟨1, withdrawalRun_length⟩

/-- Its proof spends the first note and inserts nothing. -/
theorem withdrawn_assigned : withdrawn.entry.call.Assigned (sampleEnv withdrawal) [note₁] [] := by
  have hcall : withdrawn.entry.call =
      .withdraw 9 someProof (withdrawOf note₁ [leafOf note₁] [7] 1 60 9) := rfl
  have hw := @withdrawOf_sat [leafOf note₁] [7] 0 0 100 7 1 1 60 9 spends_note₁ (by norm_num)
    (by norm_num)
  rw [hcall]
  exact @Call.Assigned.withdraw (sampleEnv withdrawal) _ _ _ _ hw

/-- The withdrawal of 60 out of the note of 100 pays 60 and inserts nothing. -/
theorem settlement_accounts_withdrawn :
    Accounted (sampleEnv withdrawal) withdrawn [note₁] [] ∧ paid withdrawn = 60 ∧
      ((values []).sum + paid withdrawn + withdrawn.entry.call.fee = (values [note₁]).sum ↔
        withdrawn.entry.call.taken (values [note₁]) = values [note₁]) := by
  have hacc := (settlement_accounts (fun _ _ h => h) (withdrawal_ranged _)
    (reach_run (fun t _ => withdrawal_ranged t) withdrawalRun) (List.get_mem _ _) rfl).2 _ _
    withdrawn_assigned
  exact ⟨hacc.1, by decide, hacc.2⟩

/-- **The remainder is destroyed.** In this run a withdrawal consumes a note of 100, pays 60 and inserts
nothing. -/
theorem remainder_destroyed : ¬ ∀ (E : Env) (A : Knowledge) (s₀ : State)
    (K : List (Pending State (Entry E) Kont)) (w : World State (Entry E) Kont), Deployed E s₀ →
    (∀ x w, A.mpcLaw x w → w.valueA.val < 2 ^ 128 ∧ w.valueB.val < 2 ^ 128 ∧
      w.outValueA.val < 2 ^ 128 ∧ w.outValueB.val < 2 ^ 128) → SoundAt E A s₀ →
    Reach ((machine E).within (SoundAt E A)) [] (s₀, []) K w →
    ∀ f ∈ w.2, f.entry.call.settles = true → ∀ ins outs, f.entry.call.Assigned E ins outs →
      (values ins).sum = (values outs).sum + paid f + f.entry.call.fee := by
  intro hall
  have hsum := hall (sampleEnv withdrawal) rangedKnowledge _ [] _ deployed_fresh (fun _ _ h => h)
    (withdrawal_ranged _) (reach_run (fun t _ => withdrawal_ranged t) withdrawalRun) withdrawn
    (List.get_mem _ _) rfl _ _ withdrawn_assigned
  have hpaid : paid withdrawn = 60 := by decide
  have hvalue : (values [note₁]).sum = 100 := by decide
  have hfee : withdrawn.entry.call.fee = 0 := by decide
  rw [hpaid, hvalue, hfee] at hsum
  cases hsum

end

end ShadePay.Evm
