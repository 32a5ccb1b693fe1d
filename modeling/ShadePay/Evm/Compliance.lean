import ShadePay.Evm.Spending
import ShadePay.Proving.Merkle

/-!
# The allowlist

Every spend proves that the label of its note is a leaf of the association tree, a tree of depth 2
that the wallet pads with zeros. `Call.consumes` are the notes that a call consumes, and
`Call.Checks.block` is the spend block each of them satisfies under the pool's domain and association
root. `allowlist_iff` says what the padding does to the allowlist: the label of a consumed note is
listed, or it is zero and the list leaves room for the padding. `unlisted_label_spent` is a run that
uses that room.
-/

namespace ShadePay.Evm

open Guard Reentrancy

/-! ## Consumed notes and their spend blocks -/

section
variable (E : Env) (A : Knowledge)

/-- The note behind a call on the withdraw circuit: an assignment opens it, all of whose hashes
somebody evaluated. -/
def WithdrawPub.Consumes (x : WithdrawPub ℕ) (n : Note Bn254) : Prop :=
  ∃ w, Withdraw E.poseidon E.levels 2 (x.map Nat.cast) w ∧
    w.input.Hashed E.poseidon A.hashed E.levels 2 (w.note (x.map Nat.cast)) ∧
    n = w.note (x.map Nat.cast)

/-- The notes a call consumes, one predicate per input. -/
def Call.consumes : Call → List (Note Bn254 → Prop)
  | .withdraw _ _ x => [WithdrawPub.Consumes E A x]
  | .rfqSettle _ _ _ _ _ _ _ x => [WithdrawPub.Consumes E A x]
  | .withdrawCctp _ _ _ _ _ x => [WithdrawPub.Consumes E A x]
  | .privateTransferSettle _ x => [fun n => ∃ w,
      PrivateTransfer E.poseidon E.levels 2 (x.map Nat.cast) w ∧
      w.input.Hashed E.poseidon A.hashed E.levels 2 (w.note (x.map Nat.cast)) ∧
      n = w.note (x.map Nat.cast)]
  | .mpcSettle _ _ _ _ x =>
      [fun n => ∃ w, MpcSettlement E.poseidon E.levels 2 (x.map Nat.cast) w ∧
        w.inputA.Hashed E.poseidon A.hashed E.levels 2 (w.noteA (x.map Nat.cast)) ∧
        n = w.noteA (x.map Nat.cast),
      fun n => ∃ w, MpcSettlement E.poseidon E.levels 2 (x.map Nat.cast) w ∧
        w.inputB.Hashed E.poseidon A.hashed E.levels 2 (w.noteB (x.map Nat.cast)) ∧
        n = w.noteB (x.map Nat.cast)]
  | .mpcSettlePriced _ _ _ _ x =>
      [fun n => ∃ w, MpcPricedSettlement E.poseidon E.levels 2 (x.map Nat.cast) w ∧
        w.inputA.Hashed E.poseidon A.hashed E.levels 2 (w.noteA (x.map Nat.cast)) ∧
        n = w.noteA (x.map Nat.cast),
      fun n => ∃ w, MpcPricedSettlement E.poseidon E.levels 2 (x.map Nat.cast) w ∧
        w.inputB.Hashed E.poseidon A.hashed E.levels 2 (w.noteB (x.map Nat.cast)) ∧
        n = w.noteB (x.map Nat.cast)]
  | .open _ x => [fun n => ∃ w, StreamOpen E.poseidon E.levels 2 (x.map Nat.cast) w ∧
      w.input.Hashed E.poseidon A.hashed E.levels 2 (w.note (x.map Nat.cast)) ∧
      n = w.note (x.map Nat.cast)]
  | _ => []

/-- Somebody spends the note against the association root of `s`, in the pool's domain. -/
def Spendable (s : State) (n : Note Bn254) : Prop :=
  ∃ i stateRoot nullifierHash, SpendsNote E.poseidon E.levels 2 i n stateRoot
    (s.pool.associationRoot : ℕ) (E.poolId : ℕ) (E.chainId : ℕ) nullifierHash ∧
    i.Hashed E.poseidon A.hashed E.levels 2 n

variable {E A} {s : State}

/-- The association root and the domain of a spend block, as the contract has checked them. -/
theorem Spendable.of {i : SpendInput Bn254} {n : Note Bn254} {r nh : Bn254} {a p c : ℕ}
    (h : SpendsNote E.poseidon E.levels 2 i n r (a : ℕ) (p : ℕ) (c : ℕ) nh)
    (hi : i.Hashed E.poseidon A.hashed E.levels 2 n) (hd : p = E.poolId ∧ c = E.chainId)
    (ha : a = s.pool.associationRoot) : Spendable E A s n := by
  obtain ⟨rfl, rfl⟩ := hd
  subst ha
  exact ⟨i, r, nh, h, hi⟩

/-- The note behind a withdrawal is spendable. -/
theorem WithdrawChecks.spendable {op : ℤ} {proof : Groth16Proof} {x : WithdrawPub ℕ}
    (h : WithdrawChecks E s op proof x) {n : Note Bn254} (hn : WithdrawPub.Consumes E A x n) :
    Spendable E A s n := by
  obtain ⟨w, hw, hi, rfl⟩ := hn
  exact .of hw.spends hi h.domain h.association

/-- **One spend block.** Every note a successful call consumes is spent against the pool's association
root, whatever the call. -/
theorem Call.Checks.block {x : Address} {call : Call} (h : call.Checks E x s)
    {c : Note Bn254 → Prop} (hc : c ∈ call.consumes E A) {n : Note Bn254} (hn : c n) :
    Spendable E A s n := by
  cases call with
  | withdraw a proof pub =>
      obtain rfl := List.mem_singleton.1 hc
      exact h.1.spendable hn
  | rfqSettle a q i f pk sig proof pub =>
      obtain rfl := List.mem_singleton.1 hc
      exact h.1.spendable hn
  | withdrawCctp a r fee fin proof pub =>
      obtain rfl := List.mem_singleton.1 hc
      exact h.1.spendable hn
  | privateTransferSettle proof pub =>
      obtain rfl := List.mem_singleton.1 hc
      obtain ⟨w, hw, hi, rfl⟩ := hn
      exact .of hw.spends hi h.2.1 h.1
  | mpcSettle b pks sigs proof pub =>
      obtain ⟨-, -, -, -, hassoc, -, hdom, -⟩ := h
      rcases List.mem_pair.1 hc with rfl | rfl
      · obtain ⟨w, hw, hi, rfl⟩ := hn
        exact .of hw.spendsA hi hdom hassoc
      · obtain ⟨w, hw, hi, rfl⟩ := hn
        exact .of hw.spendsB hi hdom hassoc
  | mpcSettlePriced b pks sigs proof pub =>
      obtain ⟨-, -, -, -, hassoc, -, hdom, -, -⟩ := h
      rcases List.mem_pair.1 hc with rfl | rfl
      · obtain ⟨w, hw, hi, rfl⟩ := hn
        exact .of hw.spendsA hi hdom hassoc
      · obtain ⟨w, hw, hi, rfl⟩ := hn
        exact .of hw.spendsB hi hdom hassoc
  | «open» proof pub =>
      obtain rfl := List.mem_singleton.1 hc
      obtain ⟨w, hw, hi, rfl⟩ := hn
      exact .of hw.spends hi h.2.1 h.2.2.1
  | _ => simp [Call.consumes] at hc

/-- With sound verifiers every input of a successful call consumes a note. -/
theorem Call.Checks.consumes {x : Address} {call : Call} (h : call.Checks E x s)
    (hs : SoundAt E A s) {c : Note Bn254 → Prop} (hc : c ∈ call.consumes E A) : ∃ n, c n := by
  cases call with
  | withdraw a proof pub =>
      obtain rfl := List.mem_singleton.1 hc
      obtain ⟨w, hw, hi⟩ := hs.withdraw (E.groth16_of_verifyProof h.1.verified)
      exact ⟨_, w, hw, hi, rfl⟩
  | rfqSettle a q i f pk sig proof pub =>
      obtain rfl := List.mem_singleton.1 hc
      obtain ⟨w, hw, hi⟩ := hs.withdraw (E.groth16_of_verifyProof h.1.verified)
      exact ⟨_, w, hw, hi, rfl⟩
  | withdrawCctp a r fee fin proof pub =>
      obtain rfl := List.mem_singleton.1 hc
      obtain ⟨w, hw, hi⟩ := hs.withdraw (E.groth16_of_verifyProof h.1.verified)
      exact ⟨_, w, hw, hi, rfl⟩
  | privateTransferSettle proof pub =>
      obtain rfl := List.mem_singleton.1 hc
      obtain ⟨w, hw, hi, -⟩ := hs.transfer (E.groth16_of_verifyProof h.2.2.2)
      exact ⟨_, w, hw, hi, rfl⟩
  | mpcSettle b pks sigs proof pub =>
      obtain ⟨w, hw, -, hA, hB, -⟩ := hs.mpc (E.groth16_of_verifyProof h.2.1)
      rcases List.mem_pair.1 hc with rfl | rfl
      · exact ⟨_, w, hw, hA, rfl⟩
      · exact ⟨_, w, hw, hB, rfl⟩
  | mpcSettlePriced b pks sigs proof pub =>
      obtain ⟨w, hw, hA, hB, -⟩ := hs.mpcPriced (E.groth16_of_verifyProof h.2.1)
      rcases List.mem_pair.1 hc with rfl | rfl
      · exact ⟨_, w, hw, hA, rfl⟩
      · exact ⟨_, w, hw, hB, rfl⟩
  | «open» proof pub =>
      obtain rfl := List.mem_singleton.1 hc
      obtain ⟨w, hw, hi, -⟩ := hs.streamOpen (E.groth16_of_verifyProof h.2.2.2.2.1)
      exact ⟨_, w, hw, hi, rfl⟩
  | _ => simp [Call.consumes] at hc

end

/-! ## Labels -/

section
variable {E : Env} {A : Knowledge} {L : List Bn254}

/-- A member of the padded list is on the list, or it is the padding behind a short list. -/
theorem pad_mem_iff (hL : ∀ x ∈ L, x ≠ 0) {j : ℕ} (hj : j < 4) :
    Merkle.pad 0 L j ∈ L ↔ 4 ≤ L.length ∨ Merkle.pad 0 L j ≠ 0 := by
  constructor
  · exact fun h => .inr (hL _ h)
  · intro h
    rcases Nat.lt_or_ge j L.length with hlt | hge
    · exact Merkle.pad_of_lt hlt
    · rcases h with h | h
      · omega
      · exact absurd (Merkle.pad_of_le hge) h

/-- The label of a spendable note is a leaf of the padded allowlist. -/
theorem Spendable.label {s : State} {n : Note Bn254} (hU : Set.InjOn E.poseidon A.hashed)
    (hlen : L.length ≤ 4) {T : Proving.MerkleTree}
    (hT : Proving.buildMerkleTree (wordHash E.poseidon) (L.map ZMod.val) 2 = .ok T)
    (hroot : s.pool.associationRoot = T.root) (htree : TreeHashed E.poseidon A.hashed (Merkle.pad 0 L) 2)
    (h : Spendable E A s n) : ∃ j < 4, n.label = Merkle.pad 0 L j := by
  obtain ⟨i, r, nh, hspend, hi⟩ := h
  obtain ⟨T', hT', -, hTroot, -⟩ := @Proving.buildMerkleTree_spec (wordHash E.poseidon)
    (L.map ZMod.val) 2 (by norm_num) (by simpa using hlen)
  obtain rfl : T' = T := by
    rw [hT] at hT'
    cases hT'
    rfl
  have hcast : (L.map ZMod.val).map (Nat.cast : ℕ → Bn254) = L := by
    simp [Function.comp_def]
  refine hspend.label hU (by norm_num) hi htree ?_
  rw [hroot, hTroot, Merkle.root, cast_node, hcast]

/-- **The allowlist, exactly.** The verifiers are sound in every state of a run, and Poseidon has no
collision on the inputs that are hashed, those of the association tree included. Whenever a call
succeeds while the root of the tree that `buildMerkleTree` makes of at most four non-zero labels is
canonical, each of its inputs consumes a note, and the label of a consumed note is on the list if and
only if the list fills all four leaves or the label is not zero. -/
theorem allowlist_iff {s₀ : State} {K : List (Pending State (Entry E) Kont)}
    {w : World State (Entry E) Kont} {T : Proving.MerkleTree} (hU : Set.InjOn E.poseidon A.hashed)
    (hlen : L.length ≤ 4) (hL : ∀ x ∈ L, x ≠ 0)
    (hT : Proving.buildMerkleTree (wordHash E.poseidon) (L.map ZMod.val) 2 = .ok T)
    (htree : TreeHashed E.poseidon A.hashed (Merkle.pad 0 L) 2) (hs : SoundAt E A s₀)
    (hr : Reach ((machine E).within (SoundAt E A)) [] (s₀, []) K w) :
    ∀ q ∈ calls K w, q.2.pool.associationRoot = T.root → ∀ c ∈ q.1.call.consumes E A,
      (∃ n, c n) ∧ ∀ n, c n → (n.label ∈ L ↔ L.length = 4 ∨ n.label ≠ 0) := by
  obtain ⟨-, hI⟩ := preserves_spent.reach hs ⟨by simp [calls], by simp [calls], by simp [calls]⟩ hr
  intro q hq hroot c hc
  obtain ⟨hchecks, hsound⟩ := hI.checks q hq
  refine ⟨hchecks.consumes hsound hc, fun n hn => ?_⟩
  obtain ⟨j, hj, hlabel⟩ := (hchecks.block hc hn).label hU hlen hT hroot htree
  rw [hlabel, pad_mem_iff hL hj]
  refine or_congr_left ?_
  omega

end

/-! ## A note with the padding's label -/

/-- A note whose label is zero. -/
def note₀ : Note Bn254 := usdcNote 100 0 3

/-- The signals of a run that deposits it and withdraws it, with the label 7 on the allowlist. -/
def unlisted : Accepted where
  withdraws := [withdrawOf note₀ [leafOf note₀] [7] 1 100 9]
  deposits := [depositOf note₀ 1]
  mpcs := []
  opens := []
  settles := []

/-- The allowlist of the run. -/
def listed : List Bn254 := [7].map Nat.cast

/-- What the run hashes. -/
def unlistedHashed : List (List Bn254) :=
  note₀.inputs samplePoseidon ++ treePairs 3 [leafOf note₀] ++ treePairs 2 [7]

def unlistedKnowledge : Knowledge := ⟨sampleEddsa, {l | l ∈ unlistedHashed}, fun _ _ => True⟩

/-- The hash of the run has no collision on what the run hashes. -/
theorem unlisted_injOn : Set.InjOn samplePoseidon unlistedKnowledge.hashed := by
  have : ∀ a ∈ unlistedHashed, ∀ b ∈ unlistedHashed,
      samplePoseidon a = samplePoseidon b → a = b := by decide
  exact fun a ha b hb hab => this a ha b hb hab

/-- The pairs behind the allowlist are hashed. -/
theorem unlisted_treeHashed :
    TreeHashed samplePoseidon unlistedKnowledge.hashed (Merkle.pad 0 listed) 2 :=
  treeHashed_of fun q hq => by simp [unlistedKnowledge, unlistedHashed, hq]

/-- The assignment of the withdrawal: the label is the first padding leaf. -/
theorem note₀_consumed : WithdrawPub.Consumes (sampleEnv unlisted) unlistedKnowledge
    (withdrawOf note₀ [leafOf note₀] [7] 1 100 9) note₀ := by
  have hlabel : ((Merkle.pad 0 [7] 1 : ℕ) : Bn254) = note₀.label := rfl
  refine ⟨_, withdrawOf_sat (spends_sample (i := 0) (j := 1) (by norm_num) (by norm_num) rfl hlabel)
    (by norm_num) le_rfl, hashed_sample (by norm_num) (by norm_num) rfl hlabel ?_ ?_
    unlisted_treeHashed, rfl⟩
  · intro l hl
    simp [unlistedKnowledge, unlistedHashed, show l ∈ note₀.inputs samplePoseidon from hl]
  · exact treeHashed_of fun q hq => by simp [unlistedKnowledge, unlistedHashed, hq]

/-- The verifiers of the run are sound for their lists. -/
theorem unlisted_sound : unlisted.Sound unlistedKnowledge where
  withdraw x hx := by
    obtain rfl := List.mem_singleton.1 hx
    obtain ⟨w, hw, hi, -⟩ := note₀_consumed
    exact ⟨w, hw, hi⟩
  deposit x hx := by
    obtain rfl := List.mem_singleton.1 hx
    refine ⟨_, depositOf_sat 1, fun l hl => ?_⟩
    have hl : l ∈ note₀.inputs samplePoseidon := hl
    simp [unlistedKnowledge, unlistedHashed, hl]
  mpc x hx := by cases hx
  streamOpen x hx := by cases hx
  streamSettle x hx := by cases hx

/-- The deposit and the withdrawal. -/
def unlistedRun : List (Tx (Entry (sampleEnv unlisted)) Action) :=
  [depositTx _ note₀ 1,
    callTx _ (.withdraw 9 someProof (withdrawOf note₀ [leafOf note₀] [7] 1 100 9))]

theorem unlistedRun_length : 1 < (calls [] (runFrom unlisted unlistedRun)).length := by
  decide

/-- The withdrawal is on record, from a state whose association root is that of the list. -/
theorem unlistedRun_call : ∃ q ∈ calls [] (runFrom unlisted unlistedRun),
    q.1.call = .withdraw 9 someProof (withdrawOf note₀ [leafOf note₀] [7] 1 100 9) ∧
      q.2.pool.associationRoot = labelRoot [7] := by
  refine ⟨(calls [] (runFrom unlisted unlistedRun)).get ⟨1, unlistedRun_length⟩, List.get_mem _ _,
    rfl, ?_⟩
  decide

/-- The allowlist has no zero label. -/
theorem listed_ne_zero : ∀ x ∈ listed, x ≠ 0 := by
  intro x hx
  rw [List.mem_singleton.1 hx]
  intro h
  have := congrArg ZMod.val h
  rw [ZMod.val_cast_of_lt (by decide), ZMod.val_zero] at this
  cases this

/-- The tree of the list. -/
theorem unlisted_tree : ∃ T, Proving.buildMerkleTree (wordHash (sampleEnv unlisted).poseidon)
    (listed.map ZMod.val) 2 = .ok T ∧ T.root = labelRoot [7] := by
  obtain ⟨T, hT, -, hroot, -⟩ := @Proving.buildMerkleTree_spec (wordHash samplePoseidon) [7] 2
    (by norm_num) (by norm_num)
  have hval : listed.map ZMod.val = [7] := by
    rw [listed, List.map_map]
    simp only [List.map_cons, List.map_nil, Function.comp_apply]
    rw [ZMod.val_cast_of_lt (by decide)]
  exact ⟨T, by rw [hval]; exact hT, hroot⟩

/-- In the run the theorem finds the note's label off the list. -/
theorem allowlist_iff_unlisted : note₀.label ∉ listed := by
  obtain ⟨T, hT, hroot⟩ := unlisted_tree
  obtain ⟨q, hq, hcall, hassoc⟩ := unlistedRun_call
  have hmem : WithdrawPub.Consumes (sampleEnv unlisted) unlistedKnowledge
      (withdrawOf note₀ [leafOf note₀] [7] 1 100 9) ∈
        q.1.call.consumes (sampleEnv unlisted) unlistedKnowledge := by
    rw [hcall]
    exact List.mem_singleton_self _
  have hiff := (@allowlist_iff (sampleEnv unlisted) unlistedKnowledge listed (fresh unlisted) []
    (runFrom unlisted unlistedRun) T unlisted_injOn (by decide) listed_ne_zero hT unlisted_treeHashed
    (soundAt_sample unlisted_sound _)
    (reach_run (fun t _ => soundAt_sample unlisted_sound t) unlistedRun) q hq
    (hassoc.trans hroot.symm) _ hmem).2 note₀ note₀_consumed
  rw [hiff]
  rintro (h | h)
  · cases h
  · exact h Nat.cast_zero

/-- **A spent note whose label is not listed.** The allowlist is sound on no such terms: in this run
the note with label zero is withdrawn although the only listed label is 7. -/
theorem unlisted_label_spent : ¬ ∀ (E : Env) (A : Knowledge) (L : List Bn254)
    (T : Proving.MerkleTree) (s₀ : State) (K : List (Pending State (Entry E) Kont))
    (w : World State (Entry E) Kont), Deployed E s₀ → Set.InjOn E.poseidon A.hashed →
    L.length ≤ 4 → (∀ x ∈ L, x ≠ 0) →
    Proving.buildMerkleTree (wordHash E.poseidon) (L.map ZMod.val) 2 = .ok T →
    TreeHashed E.poseidon A.hashed (Merkle.pad 0 L) 2 → SoundAt E A s₀ →
    Reach ((machine E).within (SoundAt E A)) [] (s₀, []) K w →
    ∀ q ∈ calls K w, q.2.pool.associationRoot = T.root → ∀ c ∈ q.1.call.consumes E A,
      ∀ n, c n → n.label ∈ L := by
  intro h
  obtain ⟨T, hT, hroot⟩ := unlisted_tree
  obtain ⟨q, hq, hcall, hassoc⟩ := unlistedRun_call
  have hmem := h (sampleEnv unlisted) unlistedKnowledge listed T (fresh unlisted) [] _ deployed_fresh
    unlisted_injOn (by decide) listed_ne_zero hT unlisted_treeHashed
    (soundAt_sample unlisted_sound _)
    (reach_run (fun t _ => soundAt_sample unlisted_sound t) unlistedRun) q hq
    (hassoc.trans hroot.symm) _ (by rw [hcall]; exact List.mem_singleton_self _) note₀ note₀_consumed
  exact listed_ne_zero _ hmem Nat.cast_zero

end ShadePay.Evm
