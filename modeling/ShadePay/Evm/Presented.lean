import ShadePay.Evm.Solvency

/-!
# Presented proofs

`SoundAt` is about every proof a verifier might accept, and `Knowledge.hashed` about everything that is
hashed behind one. A run presents finitely many proofs: `Call.presented` are those of a call, each with
its signals, and `Env.presenting` is the deployment whose verifiers refuse all others.
`reach_presenting` says that a run is a run of that deployment too. So what the theorems on runs assume
of the verifiers need only be assumed of the proofs that the run presents, and a finite set of hashed
inputs is enough for it; `solvent_presented` is the invariant of solvency under these assumptions.
-/

namespace ShadePay.Evm

open Guard Reentrancy

/-- The proofs a call presents to a verifier, with their signals. -/
def Call.presented : Call → List (Groth16Proof × List ℕ)
  | .receiveDeposit _ _ _ _ _ _ _ proof x => [(proof, x.toList)]
  | .withdraw _ proof x => [(proof, x.toList)]
  | .privateTransferSettle proof x => [(proof, x.toList)]
  | .rfqSettle _ _ _ _ _ _ proof x => [(proof, x.toList)]
  | .withdrawCctp _ _ _ _ proof x => [(proof, x.toList)]
  | .mpcSettle _ _ _ proof x => [(proof, x.toList)]
  | .mpcSettlePriced _ _ _ proof x => [(proof, x.toList)]
  | .open proof x => [(proof, x.toList)]
  | .settle proof x => [(proof, x.toList)]
  | .settleBatch proofs xs => (proofs.zip xs).map fun q => (q.1, q.2.toList)
  | _ => []

/-- The deployment whose verifiers refuse every proof that is not among `T`. -/
def Env.presenting (E : Env) (T : List (Groth16Proof × List ℕ)) : Env :=
  { E with groth16 := fun v proof x => E.groth16 v proof x && decide ((proof, x) ∈ T) }

/-- The same message call, to the deployment that refuses all other proofs. -/
def Entry.presenting {E : Env} (T : List (Groth16Proof × List ℕ)) (e : Entry E) :
    Entry (E.presenting T) :=
  ⟨e.sender, e.call, e.sender_ne_pool, e.sender_ne_escrow⟩

section
variable {E : Env} {T : List (Groth16Proof × List ℕ)} {s : State}

/-! ## One step -/

/-- A proof among `T` is verified as before. -/
theorem Env.presenting_verifyProof {v : Address} {proof : Groth16Proof} {x : List ℕ}
    (h : (proof, x) ∈ T) : (E.presenting T).verifyProof v proof x = E.verifyProof v proof x := by
  simp only [Env.verifyProof, Env.presenting, h, decide_true, Bool.and_true]

/-- The proof of a settlement is the only thing it asks a verifier about. -/
theorem State.settleOne_presenting {proof : Groth16Proof} {x : StreamSettlePub ℕ}
    (h : (proof, x.toList) ∈ T) : s.settleOne (E.presenting T) proof x = s.settleOne E proof x := by
  rw [State.settleOne, State.settleOne, Env.presenting_verifyProof h]
  rfl

/-- A batch whose proofs are all among `T` settles as before. -/
theorem State.settleLoop_presenting : ∀ {qs : List (Groth16Proof × StreamSettlePub ℕ)} {s : State},
    (∀ q ∈ qs, (q.1, q.2.toList) ∈ T) →
      State.settleLoop (E.presenting T) qs s = State.settleLoop E qs s
  | [], _, _ => rfl
  | (proof, x) :: qs, s, h => by
      rw [State.settleLoop, State.settleLoop, State.settleOne_presenting (h _ List.mem_cons_self)]
      refine congrArg _ (funext fun s' => ?_)
      exact State.settleLoop_presenting fun q hq => h q (List.mem_cons_of_mem _ hq)

/-- **A call that presents proofs among `T`** runs as before. -/
theorem enter_presenting {e : Entry E} (h : ∀ q ∈ e.call.presented, q ∈ T) :
    enter (E.presenting T) (e.presenting T) s = enter E e s := by
  obtain ⟨sender, call, hp, hq⟩ := e
  cases call with
  | receiveDeposit d n t a c enc pol proof x =>
      simp only [Entry.presenting, enter, State.receiveDeposit,
        Env.presenting_verifyProof (h _ (List.mem_singleton_self _))]
      rfl
  | withdraw a proof x =>
      simp only [Entry.presenting, enter, State.withdraw,
        Env.presenting_verifyProof (h _ (List.mem_singleton_self _))]
      rfl
  | privateTransferSettle proof x =>
      simp only [Entry.presenting, enter, State.privateTransferSettle,
        Env.presenting_verifyProof (h _ (List.mem_singleton_self _))]
      rfl
  | rfqSettle a q i f pk sig proof x =>
      simp only [Entry.presenting, enter, State.rfqSettle,
        Env.presenting_verifyProof (h _ (List.mem_singleton_self _))]
      rfl
  | withdrawCctp a r fee fin proof x =>
      simp only [Entry.presenting, enter, State.withdrawCctp,
        Env.presenting_verifyProof (h _ (List.mem_singleton_self _))]
      rfl
  | mpcSettle b pks sigs proof x =>
      simp only [Entry.presenting, enter, State.mpcSettle,
        Env.presenting_verifyProof (h _ (List.mem_singleton_self _))]
      rfl
  | mpcSettlePriced b pks sigs proof x =>
      simp only [Entry.presenting, enter, State.mpcSettlePriced,
        Env.presenting_verifyProof (h _ (List.mem_singleton_self _))]
      rfl
  | «open» proof x =>
      simp only [Entry.presenting, enter, State.openChannel,
        Env.presenting_verifyProof (h _ (List.mem_singleton_self _))]
      rfl
  | settle proof x =>
      simp only [Entry.presenting, enter, State.settle,
        State.settleOne_presenting (h _ (List.mem_singleton_self _))]
  | settleBatch proofs xs =>
      have hqs : ∀ q ∈ proofs.zip xs, (q.1, q.2.toList) ∈ T := fun q hq =>
        h _ (List.mem_map_of_mem hq)
      simp only [Entry.presenting, enter, State.settleBatch, State.settleLoop_presenting hqs]
  | _ => rfl

/-- Outside of the contracts nothing depends on the verifiers. -/
theorem act_presenting (K : List (Pending State (Entry E) Kont)) (a : Action) (s : State) :
    act (E.presenting T) (K.map (.map (.presenting T))) a s = act E K a s := by
  cases a with
  | pull token messenger amount =>
      simp only [act, List.any_map]
      rfl
  | mine blocks => simp only [act, List.isEmpty_map]
  | configure sender call => simp only [act, List.isEmpty_map]
  | _ => rfl

/-! ## Runs -/

variable {s₀ : State} {K : List (Pending State (Entry E) Kont)} {w : World State (Entry E) Kont}

/-- The proofs a run has presented. -/
def presented (K : List (Pending State (Entry E) Kont)) (w : World State (Entry E) Kont) :
    List (Groth16Proof × List ℕ) :=
  (calls K w).flatMap fun q => q.1.call.presented

/-- **Runs and presented proofs.** A run within a condition is one of the deployment whose verifiers
accept the proofs it has presented and no others, within the same condition. -/
theorem reach_presenting {C : State → Prop}
    (h : Reach ((machine E).within C) [] (s₀, []) K w) :
    Reach ((machine (E.presenting (presented K w))).within C) [] (s₀, [])
      (K.map (.map (.presenting _))) (w.1, w.2.map (.map (.presenting _))) := by
  refine Reach.map (P := fun e => ∀ q ∈ e.call.presented, q ∈ presented K w) ?_ ?_ ?_ h ?_ ?_
  · intro e s r he hr
    obtain ⟨hr, hC⟩ := within_enter.1 hr
    exact within_enter.2 ⟨(congrArg Except.toOption (enter_presenting he)).trans hr, hC⟩
  · intro k s r hr
    exact within_resume.2 (within_resume.1 hr)
  · intro K' a s s' ha
    obtain ⟨ha, hC⟩ := within_act.1 ha
    exact within_act.2 ⟨(act_presenting K' a s).trans ha, hC⟩
  · intro p hp q hq
    exact List.mem_flatMap.2 ⟨(p.entry, p.pre), by simp [calls]; exact .inr ⟨p, hp, rfl, rfl⟩, hq⟩
  · intro f hf q hq
    exact List.mem_flatMap.2 ⟨(f.entry, f.pre), by simp [calls]; exact .inl ⟨f, hf, rfl, rfl⟩, hq⟩

/-- **Solvency, for the proofs of the run.** As `solvent_reach`, with soundness and the hashed inputs
assumed of the proofs that the run presents. -/
theorem solvent_presented {A : Knowledge} (hP : Ideal E A) (hlaw : ∀ x w, A.mpcLaw x w →
      w.outValueA.val + w.outValueB.val ≤ w.valueA.val + w.valueB.val)
    (hd : Deployed E s₀) (hG : Guarded (E.presenting (presented K w)) A s₀)
    (h : Reach ((machine E).within (Guarded (E.presenting (presented K w)) A)) [] (s₀, []) K w) :
    Solvent E A K w.1 := by
  have hI := solvent_reach (E := E.presenting (presented K w)) ⟨hP.injOn, hP.nonzero⟩ hlaw hd hG
    (reach_presenting h)
  refine ⟨hI.tree, hI.caps, hI.reclaim, hI.unregistered, ?_⟩
  obtain ⟨ns, hns, hle⟩ := hI.notes
  refine ⟨ns, hns, fun a => ?_⟩
  have hsum := hle a
  rw [List.map_map] at hsum
  exact hsum

end

end ShadePay.Evm
