import ShadePay.Evm.Spending
import ShadePay.Evm.Supply

/-!
# Solvency

The notes behind the leaves of the pool's tree, and how much of them is unspent. A run carries a list
of notes that opens its leaves one by one; `unspentSum` is the value of those of an asset whose
nullifier hash is not spent. `Call.solvent` is the step: a call raises that value by at most what it
names for the supply. `solvency` is the claim over runs, `Solvent` its invariant, in which a payout
that is under way has its value already taken off.
-/

namespace ShadePay.Evm

open Guard Reentrancy

/-! ## Assumptions -/

/-- `n` is an opening of the leaf `c` whose hashes somebody evaluated. -/
def Opening (E : Env) (A : Knowledge) (c : ℕ) (n : Note Bn254) : Prop :=
  n.Hashed E.poseidon A.hashed ∧ n.commitment E.poseidon = c

/-- What is assumed of Poseidon on the inputs that are hashed: no collision, and no note's commitment
is the empty leaf. The inputs behind the proofs of one run are enough (`solvent_presented`). -/
structure Ideal (E : Env) (A : Knowledge) : Prop where
  injOn : Set.InjOn E.poseidon A.hashed
  nonzero : ∀ n : Note Bn254, n.Hashed E.poseidon A.hashed → n.commitment E.poseidon ≠ 0

/-- What is assumed of every state of a run: its verifiers are sound, the pairs behind each root of
its history were hashed, and no contract but the escrow may insert stream notes. -/
structure Guarded (E : Env) (A : Knowledge) (s : State) : Prop where
  sound : SoundAt E A s
  hashed : ∀ l : List ℕ, l <+: s.pool.tree.leaves →
    TreeHashed E.poseidon A.hashed (Merkle.pad 0 (l.map Nat.cast)) E.levels
  stream : ∀ x, s.pool.authorizedStreamContract x = true → x = E.escrow

/-! ## Sums over notes -/

/-- The value of a note towards the asset `a`. -/
def noteVal (a : ℕ) (n : Note Bn254) : ℕ := if n.assetId.val = a then n.value.val else 0

/-- The value of the unspent ones among a list of notes. -/
def unspentSum (E : Env) (s : State) (a : ℕ) (ns : List (Note Bn254)) : ℕ :=
  (ns.map fun n => if s.registry.spent (noteKey E n) = false then noteVal a n else 0).sum

/-- A sum over distinct members of a list, each counted there in full. -/
theorem sum_map_le_of_subset {α : Type} {f g : α → ℕ} {l m : List α} (hnd : l.Nodup) (hsub : l ⊆ m)
    (h : ∀ x ∈ l, f x ≤ g x) : (l.map f).sum ≤ (m.map g).sum := by
  obtain ⟨l', hperm, hsl⟩ := List.subperm_of_subset hnd hsub
  calc (l.map f).sum ≤ (l.map g).sum := List.sum_le_sum h
    _ = (l'.map g).sum := ((hperm.map g).sum_eq).symm
    _ ≤ (m.map g).sum := (hsl.map g).sum_le_sum (by simp)

section
variable {E : Env} {A : Knowledge} {s s' : State}

/-- **Spending and inserting.** The notes `ins` of `ns` are newly spent, the notes `outs` are new. -/
theorem unspentSum_step {ns ins outs : List (Note Bn254)}
    (hmono : ∀ k, s.registry.spent k = true → s'.registry.spent k = true)
    (hins : ∀ n ∈ ins, n ∈ ns ∧ s.registry.spent (noteKey E n) = false ∧
      s'.registry.spent (noteKey E n) = true)
    (hnd : ins.Nodup) (a : ℕ) :
    unspentSum E s' a (ns ++ outs) + (ins.map (noteVal a)).sum ≤
      unspentSum E s a ns + (outs.map (noteVal a)).sum := by
  -- the old notes, split into those still unspent and those newly spent
  have hsplit : unspentSum E s' a ns + (ns.map fun n =>
      if s.registry.spent (noteKey E n) = false ∧ s'.registry.spent (noteKey E n) = true then
        noteVal a n else 0).sum ≤ unspentSum E s a ns := by
    rw [unspentSum, unspentSum, ← List.sum_map_add]
    refine List.sum_le_sum fun n _ => ?_
    cases h' : s'.registry.spent (noteKey E n) with
    | true => cases h : s.registry.spent (noteKey E n) <;> simp
    | false =>
        have : s.registry.spent (noteKey E n) = false := by
          cases h : s.registry.spent (noteKey E n) with
          | true => rw [hmono _ h] at h'; cases h'
          | false => rfl
        simp [this]
  have hold : (ins.map (noteVal a)).sum ≤ (ns.map fun n =>
      if s.registry.spent (noteKey E n) = false ∧ s'.registry.spent (noteKey E n) = true then
        noteVal a n else 0).sum := by
    refine sum_map_le_of_subset hnd (fun n hn => (hins n hn).1) fun n hn => ?_
    obtain ⟨-, h1, h2⟩ := hins n hn
    simp [h1, h2]
  have hnew : unspentSum E s' a (ns ++ outs) ≤ unspentSum E s' a ns + (outs.map (noteVal a)).sum := by
    rw [unspentSum, unspentSum, List.map_append, List.sum_append]
    refine Nat.add_le_add_left (List.sum_le_sum fun n _ => ?_) _
    split <;> simp
  omega

/-! ## The notes behind the leaves -/

/-- The leaf a primitive inserts. -/
def Prim.leaves : Prim → List ℕ
  | .insert leaf => [leaf]
  | _ => []

/-- The leaves after a list of primitives. -/
theorem runPrims_leaves {ps : List Prim} (hI : TreeInv E s) (h : runPrims E ps s = .ok s') :
    s'.pool.tree.leaves = s.pool.tree.leaves ++ ps.flatMap Prim.leaves := by
  induction ps generalizing s with
  | nil =>
      cases h
      simp
  | cons p ps ih =>
      obtain ⟨s₁, h1, h2⟩ := (runPrims_cons E).1 h
      rw [ih (hI.prim h1) h2, List.flatMap_cons, ← List.append_assoc]
      congr 1
      rcases Prim.run_tree h1 with he | ⟨leaf, i, rfl, hins⟩
      · cases p with
        | insert leaf =>
            simp only [Prim.run, bind_eq_ok, Prod.exists, pure_eq_ok] at h1
            obtain ⟨i, _, h1, rfl⟩ := h1
            obtain ⟨t, ht, rfl⟩ := State.insert_eq_ok.1 h1
            exact (IncrementalMerkleTree.insert_inv hI ht).2.1
        | _ => simp [he, Prim.leaves]
      · exact (IncrementalMerkleTree.insert_inv hI hins).2.1

/-- **A spent note is one of the notes behind the leaves.** -/
theorem mem_of_spends (hP : Ideal E A) (hG : Guarded E A s) (hI : TreeInv E s)
    {ns : List (Note Bn254)} (hns : List.Forall₂ (Opening E A) s.pool.tree.leaves ns)
    {i : SpendInput Bn254} {n : Note Bn254} {stateRoot : ℕ} {assoc p c nh : Bn254}
    (h : SpendsNote E.poseidon E.levels 2 i n stateRoot assoc p c nh)
    (hi : i.Hashed E.poseidon A.hashed E.levels 2 n)
    (hroot : s.pool.tree.isKnownRoot stateRoot = true) : n ∈ ns := by
  obtain ⟨-, l, hl, rfl⟩ := (IncrementalMerkleTree.isKnownRoot_iff hI stateRoot).1 hroot
  have hd : E.levels ≤ 253 := by
    have := E.levels_lt
    omega
  obtain ⟨j, -, hj⟩ := h.leaf hP.injOn hd hi (hG.hashed l hl) (cast_node E.levels 0)
  rcases Nat.lt_or_ge j l.length with hlt | hge
  · -- the leaf at `j` opens to `n` and to the note on record
    have hlt' : j < s.pool.tree.leaves.length := lt_of_lt_of_le hlt hl.length_le
    have hget : n.commitment E.poseidon = ((s.pool.tree.leaves.get ⟨j, hlt'⟩ : ℕ) : Bn254) := by
      rw [hj, Merkle.pad, List.getD_eq_getElem _ _ (by simpa using hlt), List.getElem_map]
      simp [hl.getElem hlt]
    have hlen := hns.length_eq
    have hopen := hns.get hlt' (hlen ▸ hlt')
    rw [Note.commitment_inj hP.injOn hi.note hopen.1 (by rw [hopen.2, hget])]
    exact List.get_mem _ _
  · rw [Merkle.pad_of_le (by simpa using hge)] at hj
    exact absurd hj (hP.nonzero n hi.note)

/-! ## One call -/

/-- The note a channel would be reclaimed into opens to its cap. -/
def ReclaimOk (E : Env) (A : Knowledge) (s : State) : Prop :=
  ∀ c, (s.escrow.channels c).opened = true →
    ∃ n, Opening E A (s.escrow.channels c).reclaimCommitment n ∧
      n.assetId.val = (s.escrow.channels c).assetId ∧ n.value.val = (s.escrow.channels c).cap

/-- A call inserts notes `outs` and raises the unspent value by at most what it names. -/
def SolventStep (E : Env) (A : Knowledge) (x : Address) (call : Call) (s s' : State)
    (ns : List (Note Bn254)) : Prop :=
  ∃ outs, List.Forall₂ (Opening E A) ((call.prims E x s).flatMap Prim.leaves) outs ∧
    ∀ a, (unspentSum E s' a (ns ++ outs) : ℤ) ≤ unspentSum E s a ns + call.named s a

/-- It is enough to name the notes a call consumes and inserts. -/
theorem solventStep_of {x : Address} {call : Call} {ns : List (Note Bn254)}
    (ins outs : List (Note Bn254)) (hrun : runPrims E (call.prims E x s) s = .ok s')
    (hout : List.Forall₂ (Opening E A) ((call.prims E x s).flatMap Prim.leaves) outs)
    (hmem : ∀ n ∈ ins, n ∈ ns) (hkeys : ins.map (noteKey E) = call.nullifiers E x s)
    (hle : ∀ a, ((outs.map (noteVal a)).sum : ℤ) ≤ (ins.map (noteVal a)).sum + call.named s a) :
    SolventStep E A x call s s' ns := by
  obtain ⟨hnd, hfresh, hspent⟩ := runPrims_spent hrun
  refine ⟨outs, hout, fun a => ?_⟩
  have hnd' : ins.Nodup := List.Nodup.of_map (noteKey E) (by rw [hkeys]; exact hnd)
  have hstep := @unspentSum_step E s s' ns ins outs (fun k hk => (hspent k).2 (.inl hk))
    (fun n hn => by
      have hk : noteKey E n ∈ call.nullifiers E x s := hkeys ▸ List.mem_map_of_mem hn
      exact ⟨hmem n hn, hfresh _ hk, (hspent _).2 (.inr hk)⟩) hnd' a
  have := hle a
  omega

theorem val_word {x : ℕ} (h : x < bn254) : ((x : ℕ) : Bn254).val = x := ZMod.val_cast_of_lt h

/-- A commitment read from a canonical word. -/
theorem opening_of {c : ℕ} {n : Note Bn254} (hn : n.Hashed E.poseidon A.hashed)
    (h : (c : Bn254) = n.commitment E.poseidon) : Opening E A c n := ⟨hn, h.symm⟩

/-- The note spent by a call on the withdraw circuit. -/
theorem WithdrawChecks.note (hP : Ideal E A) (hG : Guarded E A s) (hI : TreeInv E s)
    {ns : List (Note Bn254)} (hns : List.Forall₂ (Opening E A) s.pool.tree.leaves ns) {op : ℤ}
    {proof : Groth16Proof} {pub : WithdrawPub ℕ} (h : WithdrawChecks E s op proof pub) :
    ∃ n ∈ ns, noteKey E n = pub.nullifierHash ∧ n.assetId.val = pub.assetId ∧
      pub.withdrawnValue ≤ n.value.val := by
  obtain ⟨w, hw, hi⟩ := hG.sound.withdraw (E.groth16_of_verifyProof h.verified)
  have hlt := E.lt_of_verifyProof h.verified
  refine ⟨_, mem_of_spends hP hG hI hns hw.spends hi h.root, (h.key_eq ⟨w, hw, rfl⟩).symm,
    val_word (hlt _ (by simp [WithdrawPub.toList])), ?_⟩
  have := hw.values.2.1
  rwa [WithdrawPub.map, val_word (hlt _ (by simp [WithdrawPub.toList]))] at this

/-- A payout. -/
theorem WithdrawChecks.solvent (hP : Ideal E A) (hG : Guarded E A s) (hI : TreeInv E s)
    {ns : List (Note Bn254)} (hns : List.Forall₂ (Opening E A) s.pool.tree.leaves ns) {op : ℤ}
    {proof : Groth16Proof} {pub : WithdrawPub ℕ} (h : WithdrawChecks E s op proof pub) {x : Address}
    {call : Call} (hprims : call.prims E x s = [.spend E.pool pub.nullifierHash])
    (hnamed : ∀ a, call.named s a = if pub.assetId = a then -(pub.withdrawnValue : ℤ) else 0)
    (hrun : runPrims E (call.prims E x s) s = .ok s') : SolventStep E A x call s s' ns := by
  obtain ⟨n, hn, hk, ha, hv⟩ := h.note hP hG hI hns
  refine solventStep_of [n] [] hrun (by simp [hprims, Prim.leaves])
    (by simpa using hn) (by simp [Call.nullifiers, hprims, Prim.nullifiers, hk]) fun a => ?_
  simp only [hnamed, noteVal, ha, List.map_cons, List.map_nil, List.sum_cons, List.sum_nil]
  split
  · push_cast
    omega
  · simp

/-- One settled channel: the payee's note and the refund. -/
theorem SettleChecks.notes (hG : Guarded E A s) {proof : Groth16Proof} {pub : StreamSettlePub ℕ}
    (h : SettleChecks E s proof pub) : ∃ payee refund, Opening E A pub.payeeCommitment payee ∧
      Opening E A pub.refundCommitment refund ∧
      ∀ a, ((noteVal a payee + noteVal a refund : ℕ) : ℤ) = settleDelta a pub := by
  obtain ⟨w, hw, hp, hr⟩ := hG.sound.streamSettle (E.groth16_of_verifyProof h.verified)
  have hlt := E.lt_of_verifyProof h.verified
  have hcum : ((pub.cumulative : ℕ) : Bn254).val = pub.cumulative :=
    val_word (hlt _ (by simp [StreamSettlePub.toList]))
  have hcap : ((pub.cap : ℕ) : Bn254).val = pub.cap :=
    val_word (hlt _ (by simp [StreamSettlePub.toList]))
  have hasset : ((pub.assetId : ℕ) : Bn254).val = pub.assetId :=
    val_word (hlt _ (by simp [StreamSettlePub.toList]))
  refine ⟨_, _, opening_of hp hw.payee, opening_of hr hw.refund, fun a => ?_⟩
  have hval := hw.values.1
  simp only [StreamSettlePub.map, hcum, hcap] at hval
  simp only [noteVal, StreamSettleWit.payeeNote, StreamSettleWit.refundNote, OutputOpening.note,
    StreamSettlePub.map, hcum, hasset, settleDelta]
  split
  · push_cast
    omega
  · simp

/-- An insertion for a channel inserts its commitment. -/
theorem streamPrims_leaves (a c : ℕ) (d : ℤ) : (streamPrims a c d).flatMap Prim.leaves = [c] := by
  unfold streamPrims
  split <;> rfl

/-- A settlement inserts the notes of payee and payer. -/
theorem settlePrims_leaves (pub : StreamSettlePub ℕ) :
    (settlePrims pub).flatMap Prim.leaves = [pub.payeeCommitment, pub.refundCommitment] := by
  simp [settlePrims, streamPrims_leaves, Prim.leaves]

/-- A settlement spends no note. -/
theorem settlePrims_nullifiers (pub : StreamSettlePub ℕ) :
    (settlePrims pub).flatMap Prim.nullifiers = [] := by
  simp [settlePrims, streamPrims_nullifiers, Prim.nullifiers]

/-- The notes of a list of settlements. -/
theorem settles_notes {pubs : List (StreamSettlePub ℕ)}
    (h : ∀ pub ∈ pubs, ∃ payee refund, Opening E A pub.payeeCommitment payee ∧
      Opening E A pub.refundCommitment refund ∧
      ∀ a, ((noteVal a payee + noteVal a refund : ℕ) : ℤ) = settleDelta a pub) :
    ∃ outs, List.Forall₂ (Opening E A) ((pubs.flatMap settlePrims).flatMap Prim.leaves) outs ∧
      ∀ a, ((outs.map (noteVal a)).sum : ℤ) = (pubs.map (settleDelta a)).sum := by
  induction pubs with
  | nil => exact ⟨[], by simp, by simp⟩
  | cons pub pubs ih =>
      obtain ⟨payee, refund, h1, h2, h3⟩ := h pub (by simp)
      obtain ⟨outs, ho, hsum⟩ := ih fun q hq => h q (by simp [hq])
      refine ⟨payee :: refund :: outs, ?_, fun a => ?_⟩
      · rw [List.flatMap_cons, List.flatMap_append, settlePrims_leaves]
        exact .cons h1 (.cons h2 ho)
      · have := h3 a
        have := hsum a
        simp only [List.map_cons, List.sum_cons]
        push_cast at *
        omega

section
variable {ns : List (Note Bn254)}

/-- A deposit inserts a note of the amount. -/
theorem receiveDeposit_solvent (hG : Guarded E A s) {x : Address} {d n : ℕ}
    {t : Address} {amount c enc pol : ℕ} {proof : Groth16Proof} {pub : DepositPub ℕ}
    (hc : (Call.receiveDeposit d n t amount c enc pol proof pub).Checks E x s)
    (hrun : runPrims E ((Call.receiveDeposit d n t amount c enc pol proof pub).prims E x s) s =
      .ok s') :
    SolventStep E A x (Call.receiveDeposit d n t amount c enc pol proof pub) s s' ns := by
  obtain ⟨-, -, -, rfl, -, -, h7, -, -, -, -, -, -, -, hver⟩ := hc
  obtain ⟨w, hw, ho⟩ := hG.sound.deposit (E.groth16_of_verifyProof hver)
  have hlt := E.lt_of_verifyProof hver
  have hasset : ((pub.assetIdHash : ℕ) : Bn254).val = pub.assetIdHash :=
    val_word (hlt _ (by simp [DepositPub.toList]))
  have hval := hw.values.1
  rw [DepositPub.map, val_word (hlt _ (by simp [DepositPub.toList])), h7] at hval
  refine solventStep_of [] _ hrun (.cons (opening_of ho hw.commitment) .nil) (by simp)
    rfl fun a => ?_
  simp only [noteVal, DepositWit.note, OutputOpening.note, DepositPub.map, hasset, Call.named,
    List.map_cons, List.map_nil, List.sum_cons, List.sum_nil]
  split
  · push_cast
    omega
  · simp

/-- A private transfer spends a note and inserts one of no more value. -/
theorem privateTransferSettle_solvent (hP : Ideal E A) (hG : Guarded E A s) (hI : TreeInv E s)
    (hns : List.Forall₂ (Opening E A) s.pool.tree.leaves ns) {x : Address} {proof : Groth16Proof}
    {pub : TransferPub ℕ}
    (hc : (Call.privateTransferSettle proof pub).Checks E x s)
    (hrun : runPrims E ((Call.privateTransferSettle proof pub).prims E x s) s = .ok s') :
    SolventStep E A x (Call.privateTransferSettle proof pub) s s' ns := by
  have hkey : ∀ i ∈ (Call.privateTransferSettle proof pub).inputs E, ∀ n, i.opens n →
      noteKey E n = i.key := fun i hi n hn => (Call.Checks.key_eq hc hi hn).symm
  obtain ⟨-, -, hroot, hver⟩ := hc
  obtain ⟨w, hw, hi, ho⟩ := hG.sound.transfer (E.groth16_of_verifyProof hver)
  have hn := mem_of_spends hP hG hI hns hw.spends hi hroot
  refine solventStep_of [_] _ hrun (.cons (opening_of ho hw.output) .nil)
    (by simpa using hn)
    (congrArg (fun k => [k]) (hkey _ List.mem_cons_self _ ⟨w, hw, rfl⟩)) fun a => ?_
  have hval := hw.values.1
  have hasset := congrArg ZMod.val hw.sameAsset
  simp only [TransferPub.map] at hasset
  simp only [noteVal, TransferWit.note, TransferWit.outNote, SpendInput.note, OutputOpening.note,
    TransferPub.map, hasset, Call.named, List.map_cons, List.map_nil, List.sum_cons,
    List.sum_nil]
  split
  · push_cast
    omega
  · simp

/-- A committee settlement spends two notes and, by the law, inserts two of no more value. -/
theorem mpcSettle_solvent (hP : Ideal E A) (hG : Guarded E A s) (hI : TreeInv E s)
    (hns : List.Forall₂ (Opening E A) s.pool.tree.leaves ns) (hlaw : ∀ x w, A.mpcLaw x w →
      w.outValueA.val + w.outValueB.val ≤ w.valueA.val + w.valueB.val)
    {x : Address} {b : ℕ} {pks : List ℕ} {sigs : List (List UInt8)} {proof : Groth16Proof}
    {pub : MpcPub ℕ}
    (hc : (Call.mpcSettle b pks sigs proof pub).Checks E x s)
    (hrun : runPrims E ((Call.mpcSettle b pks sigs proof pub).prims E x s) s = .ok s') :
    SolventStep E A x (Call.mpcSettle b pks sigs proof pub) s s' ns := by
  have hkey : ∀ i ∈ (Call.mpcSettle b pks sigs proof pub).inputs E, ∀ n, i.opens n →
      noteKey E n = i.key := fun i hi n hn => (Call.Checks.key_eq hc hi hn).symm
  obtain ⟨-, hver, hroot, -⟩ := hc
  obtain ⟨w, hw, hl, hiA, hiB, hoA, hoB⟩ := hG.sound.mpc (E.groth16_of_verifyProof hver)
  have hnA := mem_of_spends hP hG hI hns hw.spendsA hiA hroot
  have hnB := mem_of_spends hP hG hI hns hw.spendsB hiB hroot
  refine solventStep_of [_, _] _ hrun
    (.cons (opening_of hoA hw.outputA) (.cons (opening_of hoB hw.outputB) .nil))
    (by simpa using ⟨hnA, hnB⟩)
    (congrArg₂ (fun k l => [k, l]) (hkey _ List.mem_cons_self _ ⟨w, hw, rfl⟩)
      (hkey _ (List.mem_cons_of_mem _ List.mem_cons_self) _ ⟨w, hw, rfl⟩)) fun a => ?_
  have hval := hlaw _ _ hl
  simp only [noteVal, MpcWit.noteA, MpcWit.noteB, MpcWit.outNoteA, MpcWit.outNoteB,
    SpendInput.note, OutputOpening.note, Call.named, List.map_cons, List.map_nil, List.sum_cons,
    List.sum_nil]
  split
  · push_cast
    omega
  · simp

/-- A priced settlement swaps two notes. -/
theorem mpcSettlePriced_solvent (hP : Ideal E A) (hG : Guarded E A s) (hI : TreeInv E s)
    (hns : List.Forall₂ (Opening E A) s.pool.tree.leaves ns) {x : Address} {b : ℕ}
    {pks : List ℕ} {sigs : List (List UInt8)} {proof : Groth16Proof} {pub : MpcPricedPub ℕ}
    (hc : (Call.mpcSettlePriced b pks sigs proof pub).Checks E x s)
    (hrun : runPrims E ((Call.mpcSettlePriced b pks sigs proof pub).prims E x s) s = .ok s') :
    SolventStep E A x (Call.mpcSettlePriced b pks sigs proof pub) s s' ns := by
  have hkey : ∀ i ∈ (Call.mpcSettlePriced b pks sigs proof pub).inputs E, ∀ n, i.opens n →
      noteKey E n = i.key := fun i hi n hn => (Call.Checks.key_eq hc hi hn).symm
  obtain ⟨-, hver, hroot, -⟩ := hc
  obtain ⟨w, hw, hiA, hiB, hoA, hoB⟩ := hG.sound.mpcPriced (E.groth16_of_verifyProof hver)
  have hnA := mem_of_spends hP hG hI hns hw.spendsA hiA hroot
  have hnB := mem_of_spends hP hG hI hns hw.spendsB hiB hroot
  refine solventStep_of [_, _] _ hrun
    (.cons (opening_of hoA hw.outputA) (.cons (opening_of hoB hw.outputB) .nil))
    (by simpa using ⟨hnA, hnB⟩)
    (congrArg₂ (fun k l => [k, l]) (hkey _ List.mem_cons_self _ ⟨w, hw, rfl⟩)
      (hkey _ (List.mem_cons_of_mem _ List.mem_cons_self) _ ⟨w, hw, rfl⟩)) fun a => ?_
  -- each side receives the other's asset and amount
  simp only [noteVal, MpcPricedWit.noteA, MpcPricedWit.noteB, MpcPricedWit.outNoteA,
    MpcPricedWit.outNoteB, SpendInput.note, OutputOpening.note, hw.assetA, hw.assetB, Call.named,
    List.map_cons, List.map_nil, List.sum_cons, List.sum_nil]
  push_cast
  omega

/-- Opening a channel spends a note and inserts its change; the cap leaves the notes. -/
theorem open_solvent (hP : Ideal E A) (hG : Guarded E A s) (hI : TreeInv E s)
    (hns : List.Forall₂ (Opening E A) s.pool.tree.leaves ns) {x : Address}
    {proof : Groth16Proof} {pub : StreamOpenPub ℕ} (hc : (Call.open proof pub).Checks E x s)
    (hrun : runPrims E ((Call.open proof pub).prims E x s) s = .ok s') :
    SolventStep E A x (Call.open proof pub) s s' ns := by
  have hkey : ∀ i ∈ (Call.open proof pub).inputs E, ∀ n, i.opens n →
      noteKey E n = i.key := fun i hi n hn => (Call.Checks.key_eq hc hi hn).symm
  obtain ⟨-, -, -, hroot, hver, -⟩ := hc
  obtain ⟨w, hw, hi, hoc, -⟩ := hG.sound.streamOpen (E.groth16_of_verifyProof hver)
  have hlt := E.lt_of_verifyProof hver
  have hn := mem_of_spends hP hG hI hns hw.spends hi hroot
  have hasset : ((pub.assetId : ℕ) : Bn254).val = pub.assetId :=
    val_word (hlt _ (by simp [StreamOpenPub.toList]))
  have hval := hw.values.1
  simp only [StreamOpenPub.map, val_word (hlt pub.cap (by simp [StreamOpenPub.toList]))] at hval
  refine solventStep_of [w.note (pub.map Nat.cast)] [w.changeNote (pub.map Nat.cast)] hrun ?_
    (by simpa using hn) ?_ fun a => ?_
  · have : ((Call.open proof pub).prims E x s).flatMap Prim.leaves = [pub.changeCommitment] := by
      simp [Call.prims, streamPrims_leaves, Prim.leaves]
    rw [this]
    exact .cons (opening_of hoc hw.change) .nil
  · have : (Call.open proof pub).nullifiers E x s = [pub.inputNullifierHash] := by
      simp [Call.nullifiers, Call.prims, streamPrims_nullifiers, Prim.nullifiers]
    rw [this]
    exact congrArg (fun k => [k]) (hkey _ List.mem_cons_self _ ⟨w, hw, rfl⟩)
  · simp only [noteVal, StreamOpenWit.note, StreamOpenWit.changeNote, SpendInput.note,
      OutputOpening.note, StreamOpenPub.map, hasset, Call.named, List.map_cons, List.map_nil,
      List.sum_cons, List.sum_nil]
    split
    · push_cast
      omega
    · simp

/-- Settling a channel inserts the payee's note and the refund. -/
theorem settle_solvent (hG : Guarded E A s) {x : Address}
    {proof : Groth16Proof} {pub : StreamSettlePub ℕ} (hc : (Call.settle proof pub).Checks E x s)
    (hrun : runPrims E ((Call.settle proof pub).prims E x s) s = .ok s') :
    SolventStep E A x (Call.settle proof pub) s s' ns := by
  obtain ⟨outs, ho, hsum⟩ := @settles_notes E A [pub] (by
    intro q hq
    obtain rfl := List.mem_singleton.1 hq
    exact SettleChecks.notes hG hc)
  refine solventStep_of [] _ hrun (by simpa [Call.prims] using ho) (by simp)
    (by simp [Call.nullifiers, Call.prims, settlePrims_nullifiers]) fun a => ?_
  have := hsum a
  simp only [List.map_cons, List.map_nil, List.sum_cons, List.sum_nil, add_zero] at this
  simp [Call.named, this]

/-- Settling a batch of channels inserts two notes for each. -/
theorem settleBatch_solvent (hG : Guarded E A s) {x : Address}
    {proofs : List Groth16Proof} {pubs : List (StreamSettlePub ℕ)}
    (hc : (Call.settleBatch proofs pubs).Checks E x s)
    (hrun : runPrims E ((Call.settleBatch proofs pubs).prims E x s) s = .ok s') :
    SolventStep E A x (Call.settleBatch proofs pubs) s s' ns := by
  obtain ⟨hlen, hall⟩ := hc
  obtain ⟨outs, ho, hsum⟩ := @settles_notes E A pubs (by
    intro pub hp
    have hsnd : (proofs.zip pubs).map Prod.snd = pubs := List.map_snd_zip hlen.ge
    rw [← hsnd] at hp
    obtain ⟨q, hq, rfl⟩ := List.mem_map.1 hp
    exact (hall q hq).notes hG)
  refine solventStep_of [] _ hrun ho (by simp) ?_ fun a => by simp [Call.named, hsum a]
  rw [Call.nullifiers, Call.prims, List.flatMap_assoc]
  simp [settlePrims_nullifiers]

/-- Reclaiming a channel inserts the note it was opened with. -/
theorem reclaim_solvent (hrec : ReclaimOk E A s) {x : Address} {c : ℕ}
    (hc : (Call.reclaim c).Checks E x s)
    (hrun : runPrims E ((Call.reclaim c).prims E x s) s = .ok s') :
    SolventStep E A x (Call.reclaim c) s s' ns := by
  obtain ⟨n, hn, hna, hnv⟩ := hrec c hc.1
  refine solventStep_of [] [n] hrun ?_ (by simp) ?_ fun a => ?_
  · have : ((Call.reclaim c).prims E x s).flatMap Prim.leaves =
        [(s.escrow.channels c).reclaimCommitment] := by
      simp [Call.prims, streamPrims_leaves, Prim.leaves]
    rw [this]
    exact .cons hn .nil
  · simp [Call.nullifiers, Call.prims, streamPrims_nullifiers, Prim.nullifiers]
  · simp [noteVal, hna, hnv, Call.named]

/-- A call of the registry's `spend` inserts nothing. -/
theorem spend_solvent {x : Address} {k : ℕ}
    (hrun : runPrims E ((Call.spend k).prims E x s) s = .ok s') :
    SolventStep E A x (Call.spend k) s s' ns := by
  obtain ⟨-, -, hspent⟩ := runPrims_spent hrun
  refine ⟨[], .nil, fun a => ?_⟩
  have := @unspentSum_step E s s' ns [] [] (fun j hj => (hspent j).2 (.inl hj)) (by simp)
    (by simp) a
  simpa [Call.named] using this

end

/-- **One call.** With sound verifiers, a law of value for the committee settlement and known openings
of the reclaim notes, every call keeps the unspent value within what it names. -/
theorem Call.solvent (hP : Ideal E A) (hG : Guarded E A s) (hI : TreeInv E s)
    (hlaw : ∀ x w, A.mpcLaw x w →
      w.outValueA.val + w.outValueB.val ≤ w.valueA.val + w.valueB.val)
    (hrec : ReclaimOk E A s) {ns : List (Note Bn254)}
    (hns : List.Forall₂ (Opening E A) s.pool.tree.leaves ns) {e : Entry E}
    (hc : e.call.Checks E e.sender s)
    (hrun : runPrims E (e.call.prims E e.sender s) s = .ok s') :
    SolventStep E A e.sender e.call s s' ns := by
  obtain ⟨x, call, hxp, hxe⟩ := e
  cases call with
  | receiveDeposit d n t amount c enc pol proof pub => exact receiveDeposit_solvent hG hc hrun
  | withdraw r proof pub => exact hc.1.solvent hP hG hI hns rfl (fun _ => rfl) hrun
  | rfqSettle r q i f pk sig proof pub => exact hc.1.solvent hP hG hI hns rfl (fun _ => rfl) hrun
  | withdrawCctp r d fee fin proof pub => exact hc.1.solvent hP hG hI hns rfl (fun _ => rfl) hrun
  | privateTransferSettle proof pub => exact privateTransferSettle_solvent hP hG hI hns hc hrun
  | mpcSettle b pks sigs proof pub => exact mpcSettle_solvent hP hG hI hns hlaw hc hrun
  | mpcSettlePriced b pks sigs proof pub => exact mpcSettlePriced_solvent hP hG hI hns hc hrun
  | streamInsert a c d => exact absurd (hG.stream x hc) hxe
  | «open» proof pub => exact open_solvent hP hG hI hns hc hrun
  | settle proof pub => exact settle_solvent hG hc hrun
  | settleBatch proofs pubs => exact settleBatch_solvent hG hc hrun
  | reclaim c => exact reclaim_solvent hrec hc hrun
  | spend k => exact spend_solvent hrun

/-- The reclaim note of a channel that a call opens. -/
theorem Call.Checks.reclaim (hG : Guarded E A s) {x : Address} {call : Call}
    (h : call.Checks E x s) {c : ℕ} {ch : Channel} (hp : .openChannel c ch ∈ call.prims E x s) :
    ∃ n, Opening E A ch.reclaimCommitment n ∧ n.assetId.val = ch.assetId ∧ n.value.val = ch.cap := by
  obtain ⟨proof, pub, rfl, -, rfl⟩ := Call.eq_open hp
  obtain ⟨-, -, -, -, hver, -⟩ := h
  obtain ⟨w, hw, -, -, ho⟩ := hG.sound.streamOpen (E.groth16_of_verifyProof hver)
  have hlt := E.lt_of_verifyProof hver
  exact ⟨_, opening_of ho hw.reclaim, val_word (hlt _ (by simp [StreamOpenPub.toList])),
    val_word (hlt _ (by simp [StreamOpenPub.toList]))⟩

/-- The reclaim notes after a call. -/
theorem ReclaimOk.call (hG : Guarded E A s) (hI : ReclaimOk E A s) {x : Address} {call : Call}
    (hc : call.Checks E x s) (hrun : runPrims E (call.prims E x s) s = .ok s') :
    ReclaimOk E A s' := by
  refine runPrims_induct (I := ReclaimOk E A) (fun p hp t t' ht hr c hop => ?_) hrun hI
  by_cases hopen : ∃ k ch, p = .openChannel k ch
  · obtain ⟨k, ch, rfl⟩ := hopen
    simp only [Prim.run, bind_eq_ok, require_eq_ok, exists_unit, pure_eq_ok] at hr
    obtain ⟨-, rfl⟩ := hr
    by_cases hck : c = k
    · -- the channel just opened: its proof opens the reclaim commitment
      subst hck
      obtain ⟨n, hn⟩ := Call.Checks.reclaim hG hc hp
      exact ⟨n, by simpa [State.setChannel] using hn⟩
    · simp only [State.setChannel, Function.update_of_ne hck] at hop ⊢
      exact ht c hop
  · push Not at hopen
    rcases Prim.run_channels hopen hr c with h1 | h1
    · rw [h1] at hop ⊢
      exact ht c hop
    · rw [h1] at hop ⊢
      exact ht c hop

/-! ## Runs -/

variable {s₀ : State} {K : List (Pending State (Entry E) Kont)} {w : World State (Entry E) Kont}

/-- The invariant of solvency: a list of notes opens the leaves, and its unspent value is within the
supply less what the suspended calls are about to debit. -/
structure Solvent (E : Env) (A : Knowledge) (K : List (Pending State (Entry E) Kont)) (s : State) :
    Prop where
  tree : TreeInv E s
  caps : CapsOk s
  reclaim : ReclaimOk E A s
  unregistered : ∀ a, s.pool.assetToken a = 0 → s.pool.noteSupplyOf a = 0
  notes : ∃ ns, List.Forall₂ (Opening E A) s.pool.tree.leaves ns ∧ ∀ a,
    (unspentSum E s a ns : ℤ) ≤
      s.pool.noteSupplyOf a + (K.map fun p => p.entry.call.named p.pre a).sum

/-- A call that has passed its checks, up to its first external call. -/
theorem Solvent.enter (hP : Ideal E A) (hlaw : ∀ x w, A.mpcLaw x w →
      w.outValueA.val + w.outValueB.val ≤ w.valueA.val + w.valueB.val)
    (hG : Guarded E A s) (hI : Solvent E A K s) {e : Entry E} (hc : e.call.Checks E e.sender s)
    (hrun : runPrims E (e.call.prims E e.sender s) s = .ok s') :
    TreeInv E s' ∧ CapsOk s' ∧ ReclaimOk E A s' ∧
      (∀ a, s'.pool.assetToken a = 0 → s'.pool.noteSupplyOf a = 0) ∧
      ∃ ns, List.Forall₂ (Opening E A) s'.pool.tree.leaves ns ∧ ∀ a, (unspentSum E s' a ns : ℤ) ≤
        s.pool.noteSupplyOf a + (K.map fun p => p.entry.call.named p.pre a).sum +
          e.call.named s a := by
  obtain ⟨ns, hns, hle⟩ := hI.notes
  obtain ⟨outs, hout, hstep⟩ := Call.solvent hP hG hI.tree hlaw hI.reclaim hns hc hrun
  refine ⟨runPrims_induct (fun _ _ _ _ ht hp => ht.prim hp) hrun hI.tree,
    hI.caps.prims hrun fun _ _ hp => hc.caps hp, hI.reclaim.call hG hc hrun,
    unregistered_prims hI.unregistered hrun, ns ++ outs, ?_, fun a => ?_⟩
  · rw [runPrims_leaves hI.tree hrun]
    exact List.rel_append hns hout
  · have := hle a
    have := hstep a
    omega

/-- Going on after an external call. -/
theorem Solvent.resume {k : Kont} (hI : Solvent E A K s)
    (hrun : runPrims E k.prims (k.tokens E s) = .ok s') :
    TreeInv E s' ∧ CapsOk s' ∧ ReclaimOk E A s' ∧
      (∀ a, s'.pool.assetToken a = 0 → s'.pool.noteSupplyOf a = 0) ∧
      ∃ ns, List.Forall₂ (Opening E A) s'.pool.tree.leaves ns ∧ ∀ a, (unspentSum E s' a ns : ℤ) ≤
        s.pool.noteSupplyOf a + (K.map fun p => p.entry.call.named p.pre a).sum := by
  -- neither the tokens nor the debit touch notes, channels or assets
  have hsame : ∀ {p : Prim}, p ∈ k.prims →
      (∀ c ch, p ≠ .openChannel c ch) ∧ p.leaves = [] ∧ p.nullifiers = [] := by
    intro p hp
    cases k with
    | transferred => rcases List.mem_pair.1 hp with rfl | rfl <;> simp [Prim.leaves, Prim.nullifiers]
    | burning => rcases List.mem_pair.1 hp with rfl | rfl <;> simp [Prim.leaves, Prim.nullifiers]
    | _ => simp [Kont.prims] at hp
  have htok : (k.tokens E s).pool = s.pool ∧ (k.tokens E s).escrow = s.escrow ∧
      (k.tokens E s).registry = s.registry := by
    cases k <;> exact ⟨rfl, rfl, rfl⟩
  have htree : TreeInv E (k.tokens E s) := by
    rw [TreeInv, htok.1]
    exact hI.tree
  have hcaps : CapsOk (k.tokens E s) := by
    rw [CapsOk, htok.2.1]
    exact hI.caps
  refine ⟨runPrims_induct (fun _ _ _ _ ht hp => ht.prim hp) hrun htree,
    hcaps.prims hrun fun c ch hp => absurd rfl ((hsame hp).1 c ch), ?_,
    unregistered_prims (by rw [htok.1]; exact hI.unregistered) hrun, ?_⟩
  · refine runPrims_induct (I := ReclaimOk E A) (fun p hp t t' ht hr c hop => ?_) hrun ?_
    · rcases Prim.run_channels (hsame hp).1 hr c with h1 | h1
      · rw [h1] at hop ⊢
        exact ht c hop
      · rw [h1] at hop ⊢
        exact ht c hop
    · rw [ReclaimOk, htok.2.1]
      exact hI.reclaim
  · obtain ⟨ns, hns, hle⟩ := hI.notes
    have hleaves : k.prims.flatMap Prim.leaves = [] :=
      List.flatMap_eq_nil_iff.2 fun p hp => (hsame hp).2.1
    have hnull : k.prims.flatMap Prim.nullifiers = [] :=
      List.flatMap_eq_nil_iff.2 fun p hp => (hsame hp).2.2
    have hspent : s'.registry.spent = s.registry.spent := by
      funext n
      have := (runPrims_spent hrun).2.2 n
      rw [hnull, htok.2.2] at this
      cases h1 : s'.registry.spent n <;> cases h2 : s.registry.spent n <;> simp_all
    refine ⟨ns, ?_, fun a => ?_⟩
    · rw [runPrims_leaves htree hrun, hleaves, List.append_nil, htok.1]
      exact hns
    · rw [unspentSum, hspent]
      exact hle a

/-- There is no note at the start. -/
theorem Deployed.solvent (hd : Deployed E s₀) : Solvent E A [] s₀ := by
  obtain ⟨htree, hnil, -, hzero, hch⟩ := hd.spec
  refine ⟨htree, hd.capsOk, fun c hop => ?_, fun a _ => (hzero a).1, [], ?_, fun a => ?_⟩
  · rw [hch c] at hop
    cases hop
  · rw [hnil]
    exact .nil
  · simp [unspentSum, (hzero a).1]

/-- **The invariant over runs.** -/
theorem solvent_reach (hP : Ideal E A) (hlaw : ∀ x w, A.mpcLaw x w →
      w.outValueA.val + w.outValueB.val ≤ w.valueA.val + w.valueB.val)
    (hd : Deployed E s₀) (hG : Guarded E A s₀)
    (h : Reach ((machine E).within (Guarded E A)) [] (s₀, []) K w) : Solvent E A K w.1 := by
  have hframes : ∀ {K₁ w₁}, Reach ((machine E).within (Guarded E A)) [] (s₀, []) K₁ w₁ →
      Guarded E A w₁.1 ∧ FramesOk (Guarded E A) K₁ w₁ := fun h₁ =>
    preserves_framesOk.reach hG ⟨by simp, by simp⟩ h₁
  induction h with
  | refl => exact hd.solvent
  | enter_done hr he ih =>
      obtain ⟨hc, hrun, hk⟩ := machine_enter (within_enter.1 he).1
      obtain ⟨h1, h2, h3, h4, ns, hns, hle⟩ := ih.enter hP hlaw (hframes hr).1 hc hrun
      refine ⟨h1, h2, h3, h4, ns, hns, fun a => ?_⟩
      have := hle a
      rw [runPrims_supply hrun a, hc.delta ih.caps hk.symm a]
      dsimp only at this ⊢
      omega
  | enter hr he ih =>
      obtain ⟨hc, hrun, hk⟩ := machine_enter (within_enter.1 he).1
      obtain ⟨h1, h2, h3, h4, ns, hns, hle⟩ := ih.enter hP hlaw (hframes hr).1 hc hrun
      refine ⟨h1, h2, h3, h4, ns, hns, fun a => ?_⟩
      have := hle a
      rw [runPrims_supply hrun a, (Suspended.first hk.symm).delta_prims, List.map_cons, List.sum_cons]
      dsimp only at this ⊢
      omega
  | resume_done hr hres ih =>
      rename_i K₁ p s tr s'
      obtain ⟨hrun, hk, -⟩ := machine_resume (within_resume.1 hres).1
      obtain ⟨-, hc, hsus⟩ := (hframes hr).2.pending p (by simp)
      obtain ⟨h1, h2, h3, h4, ns, hns, hle⟩ := ih.resume hrun
      refine ⟨h1, h2, h3, h4, ns, hns, fun a => ?_⟩
      have := hle a
      have hsame : (p.kont.tokens E s).pool.noteSupplyOf = s.pool.noteSupplyOf := by
        cases p.kont <;> rfl
      rw [List.map_cons, List.sum_cons] at this
      rw [runPrims_supply hrun a, hsame, hsus.delta hk.symm hc a]
      dsimp only at this ⊢
      omega
  | resume hr hres ih =>
      rename_i K₁ p s tr s' k
      obtain ⟨hrun, hk, -⟩ := machine_resume (within_resume.1 hres).1
      obtain ⟨h1, h2, h3, h4, ns, hns, hle⟩ := ih.resume hrun
      refine ⟨h1, h2, h3, h4, ns, hns, fun a => ?_⟩
      have := hle a
      have hsame : (p.kont.tokens E s).pool.noteSupplyOf = s.pool.noteSupplyOf := by
        cases p.kont <;> rfl
      rw [runPrims_supply hrun a, hsame, Kont.prims_of_next (by rw [← hk]; simp)]
      simpa [Pending.advance] using this
  | act hr ha ih =>
      obtain ⟨ns, hns, hle⟩ := ih.notes
      rcases act_inv (within_act.1 ha).1 with ⟨b, al, n, rfl, -⟩ | ⟨-, hc⟩
      · exact ⟨ih.tree, ih.caps, ih.reclaim, ih.unregistered, ns, hns, hle⟩
      · refine ⟨by rw [TreeInv, hc.tree]; exact ih.tree, by rw [CapsOk, hc.channels]; exact ih.caps,
          by rw [ReclaimOk, hc.channels]; exact ih.reclaim, ?_, ns, by rw [hc.tree]; exact hns, ?_⟩
        · rcases hc.assets with ⟨h1, h2⟩ | ⟨b, t, hnew, h1, h2⟩
          · rw [h1, h2]
            exact ih.unregistered
          · intro a hz
            rw [h1] at hz
            rw [h2]
            by_cases hab : a = b
            · simp [hab]
            · rw [Function.update_of_ne hab] at hz ⊢
              exact ih.unregistered a hz
        · intro a
          rw [unspentSum, hc.spent]
          rcases hc.assets with ⟨-, h2⟩ | ⟨b, t, hnew, -, h2⟩
          · rw [h2]
            exact hle a
          · rw [h2]
            by_cases hab : a = b
            · subst hab
              rw [Function.update_self, ← ih.unregistered a hnew]
              exact hle a
            · rw [Function.update_of_ne hab]
              exact hle a

/-- What a suspended call names is a debit. -/
theorem Suspended.named_nonpos {call : Call} {pre : State} {ks : List Kont} {k : Kont}
    (h : Suspended call pre ks k) (a : ℕ) : call.named pre a ≤ 0 := by
  have hk : call.kont pre ≠ none := h.kont_ne
  cases call with
  | withdraw =>
      rw [Call.named]
      split <;> omega
  | rfqSettle =>
      rw [Call.named]
      split <;> omega
  | withdrawCctp =>
      rw [Call.named]
      split <;> omega
  | _ => exact absurd rfl hk

/-- **Solvency.** Poseidon has no collision among the inputs that are hashed, no note's commitment is
the empty leaf, the configured verifiers accept only signals with an assignment that obeys the laws of
value, and only the escrow inserts stream notes. Then wherever control is outside, the leaves are the
commitments of exactly one list of notes, and for every asset the value of those of its notes whose
nullifier hash is not spent is at most its supply. -/
theorem solvency (hP : Ideal E A) (hlaw : ∀ x w, A.mpcLaw x w →
      w.outValueA.val + w.outValueB.val ≤ w.valueA.val + w.valueB.val)
    (hd : Deployed E s₀) (hG : Guarded E A s₀)
    (h : Reach ((machine E).within (Guarded E A)) [] (s₀, []) K w) :
    ∃ ns, List.Forall₂ (Opening E A) w.1.pool.tree.leaves ns ∧
      (∀ ns', List.Forall₂ (Opening E A) w.1.pool.tree.leaves ns' → ns' = ns) ∧
      ∀ a, (unspentSum E w.1 a ns : ℤ) ≤ w.1.pool.noteSupplyOf a := by
  obtain ⟨ns, hns, hle⟩ := (solvent_reach hP hlaw hd hG h).notes
  refine ⟨ns, hns, fun ns' hns' => ?_, fun a => ?_⟩
  · refine List.ext_getElem (hns'.length_eq.symm.trans hns.length_eq) fun i h1 h2 => ?_
    have hi : i < w.1.pool.tree.leaves.length := hns.length_eq ▸ h2
    have hn := hns.get hi h2
    have hn' := hns'.get hi h1
    exact Note.commitment_inj hP.injOn hn'.1 hn.1 (hn'.2.trans hn.2.symm)
  · have hdebit : (K.map fun p => p.entry.call.named p.pre a).sum ≤ 0 := by
      calc (K.map fun p => p.entry.call.named p.pre a).sum ≤ (K.map fun _ => (0 : ℤ)).sum :=
            List.sum_le_sum fun p hp => ((framesOk_reach hG h).pending p hp).2.2.named_nonpos a
        _ = 0 := by simp
    have := hle a
    omega

/-! ## A run -/

/-- What is hashed by a run that deposits the first note and withdraws from it. -/
def withdrawalHashed : List (List Bn254) :=
  note₁.inputs samplePoseidon ++ treePairs 3 [] ++ treePairs 3 [leafOf note₁] ++ treePairs 2 [7]

def withdrawalKnowledge : Knowledge where
  eddsa := sampleEddsa
  hashed := {l | l ∈ withdrawalHashed}
  mpcLaw _ w := w.outValueA.val + w.outValueB.val ≤ w.valueA.val + w.valueB.val

/-- The hash of the run has no collision on what the run hashes. -/
theorem withdrawal_ideal : Ideal (sampleEnv withdrawal) withdrawalKnowledge where
  injOn := by
    have : ∀ a ∈ withdrawalHashed, ∀ b ∈ withdrawalHashed,
        samplePoseidon a = samplePoseidon b → a = b := by decide
    exact fun a ha b hb hab => this a ha b hb hab
  nonzero n hn := by
    have : ∀ a ∈ withdrawalHashed, samplePoseidon a ≠ 0 := by decide
    exact this _ (hn _ (by simp [Note.inputs]))

/-- The pairs behind the roots of the run are hashed. -/
theorem withdrawal_treeHashed {l : List ℕ} (hl : l <+: [leafOf note₁]) :
    TreeHashed samplePoseidon withdrawalKnowledge.hashed (Merkle.pad 0 (l.map Nat.cast)) 3 := by
  refine treeHashed_of fun q hq => ?_
  rcases List.prefix_cons_iff.1 hl with rfl | ⟨t, rfl, ht⟩
  · simp [withdrawalKnowledge, withdrawalHashed, hq]
  · rw [List.prefix_nil.1 ht] at hq
    simp [withdrawalKnowledge, withdrawalHashed, hq]

/-- Standard configurations over the first note or nothing meet what solvency assumes. -/
theorem withdrawal_guarded {s : State} (hs : Standard (sampleEnv withdrawal) s)
    (hl : s.pool.tree.leaves <+: [leafOf note₁]) :
    Guarded (sampleEnv withdrawal) withdrawalKnowledge s where
  sound := by
    refine soundAt_sample (withdrawal_sound ?_ (withdrawal_treeHashed List.prefix_rfl) ?_) s
    · intro l hl
      simp [withdrawalKnowledge, withdrawalHashed, hl]
    · refine treeHashed_of fun q hq => ?_
      simp [withdrawalKnowledge, withdrawalHashed, hq]
  hashed l hl' := withdrawal_treeHashed (hl'.trans hl)
  stream := hs.onlyEscrow

/-- The tree holds the first note or nothing. -/
def holdsFirst (s : State) : Bool :=
  decide (s.pool.tree.leaves = [] ∨ s.pool.tree.leaves = [leafOf note₁])

/-- The deposit of 100 and the withdrawal of 60: the leaf opens to the first note, which is spent, so
the unspent value is zero and within the supply of 40. -/
theorem solvency_withdrawal :
    (runChecked withdrawal holdsFirst withdrawalRun).1.pool.noteSupplyOf 11 = 40 ∧
    ∃ ns, List.Forall₂ (Opening (sampleEnv withdrawal) withdrawalKnowledge)
        (runChecked withdrawal holdsFirst withdrawalRun).1.pool.tree.leaves ns ∧
      ns.length = 1 ∧
      ∀ a, (unspentSum (sampleEnv withdrawal) (runChecked withdrawal holdsFirst withdrawalRun).1 a
        ns : ℤ) ≤ (runChecked withdrawal holdsFirst withdrawalRun).1.pool.noteSupplyOf a := by
  have hG : ∀ t, Standard (sampleEnv withdrawal) t → holdsFirst t = true →
      Guarded (sampleEnv withdrawal) withdrawalKnowledge t := by
    intro t ht hc
    refine withdrawal_guarded ht ?_
    rcases of_decide_eq_true hc with h | h
    · rw [h]
      exact List.nil_prefix
    · rw [h]
  have hempty : ∀ t : State, t.pool.tree.leaves = [] → holdsFirst t = true :=
    fun t ht => decide_eq_true (.inl ht)
  have hfresh := hG _ standard_fresh (hempty _ deployed_fresh.spec.2.1)
  obtain ⟨ns, hns, -, hle⟩ := solvency withdrawal_ideal (fun _ _ h => h) deployed_fresh hfresh
    (reach_runChecked hG hempty withdrawalRun)
  refine ⟨by decide, ns, hns, ?_, hle⟩
  rw [← hns.length_eq]
  decide

end

end ShadePay.Evm
