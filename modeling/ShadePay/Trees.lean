import ShadePay.Circuit.Inclusion
import ShadePay.Evm.Scenario
import ShadePay.Proving.Merkle
import ShadePay.Stellar.Runs
import ShadePay.Stellar.Scenario

/-!
# Four trees, one root

The Solidity frontier, the materialised TypeScript tree, the cached Soroban tree and the fold of the
circuits, against each other. `trees_agree` ties the three trees to the full tree over the
zero-padded leaves, `inclusion_complete_sound` the circuit's `MerkleProof` to the root the
contract holds, and `knownRoots_exact` says which roots the two pools accept in the course of a run.
All of it goes through `Merkle.root`, one specification lemma per tree.
-/

namespace ShadePay

open Guard Evm.IncrementalMerkleTree

/-- The state after a call: a call that fails leaves the state before it. -/
def after {ε β σ : Type} (r : Except ε (β × σ)) (s : σ) : σ :=
  match r with
  | .ok (_, s') => s'
  | .error _ => s

/-! ## Soroban -/

namespace Stellar.TreeStore

/-- The tree part of the storage `__constructor` leaves. -/
def initial (depth : ℕ) : TreeStore :=
  ⟨depth, [], zeroWord, Function.update (fun _ => false) zeroWord true⟩

/-- Append a sequence one by one. -/
def appendAll (h : Bls12381 → Bls12381 → Bls12381) : List Bytes32 → TreeStore →
    Except Error TreeStore
  | [], t => .ok t
  | c :: cs, t => do
      let (_, t') ← t.appendLeaf h c
      appendAll h cs t'

variable {h : Bls12381 → Bls12381 → Bls12381}

/-- A sequence that fits goes in; the root is that of the full tree once a leaf was appended. -/
theorem appendAll_spec (ws : List Bytes32) {t : TreeStore}
    (hroom : t.leaves.length + ws.length ≤ capacity t.depth) :
    ∃ t', appendAll h ws t = .ok t' ∧ t'.depth = t.depth ∧ t'.leaves = t.leaves ++ ws ∧
      (ws ≠ [] → t'.root = frToBytes (Merkle.root h 0 t.depth (LeanIMT.scalars (t.leaves ++ ws)))) := by
  induction ws generalizing t with
  | nil => exact ⟨t, rfl, rfl, by simp, by simp⟩
  | cons c cs ih =>
      simp only [List.length_cons] at hroom
      obtain ⟨t', h1, h2, h3, h4⟩ := @ih (t.push h c) (by simp; omega)
      refine ⟨t', ?_, h2, by simp [h3], fun _ => ?_⟩
      · rw [appendAll, appendLeaf_of_lt (by omega), ok_bind]
        exact h1
      · cases cs with
        | nil =>
            cases h1
            rfl
        | cons c' cs =>
            rw [h4 (by simp)]
            simp

end Stellar.TreeStore

/-! ## Agreement -/

/-- The root over the values of a list of scalars is the value of the root over the scalars. -/
theorem val_root {hF : Bls12381 → Bls12381 → Bls12381} {h : ℕ → ℕ → ℕ}
    (hh : ∀ x y, (hF x y).val = h x.val y.val) (d : ℕ) (l : List Bls12381) :
    (Merkle.root hF 0 d l).val = Merkle.root h 0 d (l.map ZMod.val) := by
  rw [Merkle.root, Merkle.map_node ZMod.val hh, Merkle.map_pad, ZMod.val_zero, Merkle.root]

/-- **The trees agree.** Over any pair hash and any canonical leaves that fit a depth up to 30, the
frontier tree gives out the indices `0, 1, 2, …` and holds the root of the full zero-padded tree,
which is the root of the materialised tree and of the cached tree over any words that read as the
same leaves under the same hash. A full tree refuses the next leaf and keeps its state. -/
theorem trees_agree (h : ℕ → ℕ → ℕ) (leaves : List ℕ) {d : ℕ} (hd : 1 ≤ d) (hd' : d ≤ 30)
    (hlen : leaves.length ≤ 2 ^ d) (hcanon : ∀ x ∈ leaves, x < bn254) :
    ∃ t₀ t T, construct h d = .ok t₀ ∧
      insertAll h d leaves t₀ = .ok (List.range leaves.length, t) ∧
      t.getRoot = Merkle.root h 0 d leaves ∧
      Proving.buildMerkleTree h leaves d = .ok T ∧ T.root = t.getRoot ∧
      (leaves.length = 2 ^ d → ∀ x, (∃ e, insert h d x t = .error e) ∧
        (x < bn254 → insert h d x t = .error .merkleTreeFull) ∧ after (insert h d x t) t = t) ∧
      ∀ (hF : Bls12381 → Bls12381 → Bls12381), (∀ x y, (hF x y).val = h x.val y.val) →
        ∀ ws : List Stellar.Bytes32, ws.map (fun w => (Stellar.frFromBytes w).val) = leaves →
        ∃ S, (Stellar.TreeStore.initial d).appendAll hF ws = .ok S ∧ S.leaves = ws ∧
          (leaves ≠ [] → (Stellar.frFromBytes S.root).val = t.getRoot) ∧
          (leaves.length = 2 ^ d → ∀ w, S.appendLeaf hF w = .error .treeFull ∧
            after (S.appendLeaf hF w) S = S) := by
  obtain ⟨t₀, h0, hI₀, hnil⟩ := @construct_inv h d (by omega) (by omega)
  obtain ⟨t, h1, hI, hl⟩ := insertAll_spec leaves hI₀ hcanon (by simpa [hnil] using hlen)
  obtain ⟨T, hT, -, hTroot, -⟩ := @Proving.buildMerkleTree_spec h leaves d hd' hlen
  rw [hnil, List.nil_append] at hl
  have hroot : t.getRoot = Merkle.root h 0 d leaves := by rw [hI.root, hl]
  refine ⟨t₀, t, T, h0, by simpa [hnil] using h1, hroot, hT, hTroot.trans hroot.symm, ?_, ?_⟩
  · intro hfull x
    have herr : ∃ e, insert h d x t = .error e := by
      cases hx : insert h d x t with
      | error e => exact ⟨e, rfl⟩
      | ok r =>
          have := ((insert_ok_iff hI x).1 ⟨r, hx⟩).2
          rw [hl] at this
          omega
    obtain ⟨e, he⟩ := herr
    exact ⟨⟨e, he⟩, insert_full hI (by rw [hl, hfull]), by rw [he, after]⟩
  · intro hF hh ws hws
    have hwl : ws.length = leaves.length := by rw [← hws, List.length_map]
    have hcap : Stellar.capacity d = 2 ^ d := if_pos (by omega)
    obtain ⟨S, hS, hSd, hSl, hSroot⟩ := @Stellar.TreeStore.appendAll_spec hF ws
      (Stellar.TreeStore.initial d) (by simp [Stellar.TreeStore.initial, hcap, hwl, hlen])
    have hSl' : S.leaves = ws := by simpa [Stellar.TreeStore.initial] using hSl
    refine ⟨S, hS, hSl', ?_, ?_⟩
    · intro hne
      rw [hSroot (by rintro rfl; exact hne hws.symm), Stellar.frFromBytes_frToBytes, val_root hh,
        hroot]
      simp [Stellar.TreeStore.initial, Stellar.LeanIMT.scalars, Function.comp_def, ← hws]
    · intro hfull w
      have : S.appendLeaf hF w = .error .treeFull := by
        refine Stellar.TreeStore.appendLeaf_of_le ?_
        rw [hSd, hSl', hwl, hfull]
        exact hcap.le
      exact ⟨this, by rw [this, after]⟩

/-- The witness's hash: linear, on scalars of BLS12-381. -/
def linearHash (x y : ℕ) : ℕ := ((x + 2 * y : ℕ) : Bls12381).val

/-- Two leaves at depth one, through all three trees. -/
theorem trees_agree_pair : ∃ t₀ t T S, construct linearHash 1 = .ok t₀ ∧
    insertAll linearHash 1 [5, 7] t₀ = .ok ([0, 1], t) ∧
    Proving.buildMerkleTree linearHash [5, 7] 1 = .ok T ∧ T.root = t.getRoot ∧
    (Stellar.TreeStore.initial 1).appendAll (fun x y => x + 2 * y)
      [Stellar.frToBytes 5, Stellar.frToBytes 7] = .ok S ∧
    (Stellar.frFromBytes S.root).val = t.getRoot := by
  obtain ⟨t₀, t, T, h0, h1, -, hT, hr, -, hS⟩ := trees_agree linearHash [5, 7] (d := 1) (by decide)
    (by decide) (by decide) (by decide)
  obtain ⟨S, h2, -, h3, -⟩ := hS (fun x y => x + 2 * y) (by simp [linearHash])
    [Stellar.frToBytes 5, Stellar.frToBytes 7] (by simp; decide)
  exact ⟨t₀, t, T, S, h0, h1, hT, hr, h2, h3 (by simp)⟩

/-! ## Inclusion -/

section
variable {P : List Bn254 → Bn254} {d : ℕ}

/-- The root the contract holds, as a field element: the root of the field tree. -/
theorem val_eq_getRoot_iff {t : Evm.IncrementalMerkleTree} (hd : 1 ≤ d)
    (hI : Inv (wordHash P) d t) (x : Bn254) :
    x.val = t.getRoot ↔
      x = Merkle.node (hash2 P) (Merkle.pad 0 (t.leaves.map Nat.cast)) d 0 := by
  have hlt : t.getRoot < bn254 := by
    rw [hI.root, Merkle.root, ← Nat.sub_add_cancel hd, Merkle.node]
    exact ZMod.val_lt _
  rw [← cast_node, ← Merkle.root, ← hI.root]
  constructor
  · intro h
    rw [← h, ZMod.natCast_zmod_val]
  · rintro rfl
    exact ZMod.val_cast_of_lt hlt

/-- **Inclusion proofs against the contract's tree.** For every canonical leaf sequence that fits a
depth up to 30: with the siblings `getMerkleProof` returns for any index, `MerkleProof` folds the
zero-padded leaf to the root the contract holds and to nothing else; and when the pair hash has no
collision among the pairs hashed by the tree and by the fold, a fold of any leaf, index and siblings
that reaches the root has an index below `2 ^ d` and the leaf at that index. -/
theorem inclusion_complete_sound (P : List Bn254 → Bn254) (leaves : List ℕ) {d : ℕ} (hd : 1 ≤ d)
    (hd' : d ≤ 30) (hlen : leaves.length ≤ 2 ^ d) (hcanon : ∀ x ∈ leaves, x < bn254) :
    ∃ t₀ t T, construct (wordHash P) d = .ok t₀ ∧
      insertAll (wordHash P) d leaves t₀ = .ok (List.range leaves.length, t) ∧
      Proving.buildMerkleTree (wordHash P) leaves d = .ok T ∧
      (∀ i : ℕ, i < 2 ^ d → ∃ π, Proving.getMerkleProof T i = .ok π ∧ ∀ out,
        MerkleRoot P d ((Merkle.pad 0 leaves i : ℕ) : Bn254) (i : Bn254)
          (fun l => ((π.siblings.getD l 0 : ℕ) : Bn254)) out ↔ out.val = t.getRoot) ∧
      ∀ U : Set (Bn254 × Bn254), Set.InjOn (fun q => hash2 P q.1 q.2) U →
        Merkle.nodePairs (hash2 P) (Merkle.pad 0 (leaves.map Nat.cast)) d 0 ⊆ U →
        ∀ leaf leafIndex siblings out indices nodes,
          MerkleProof P d leaf leafIndex siblings out indices nodes →
          (∀ i < d, foldPair siblings indices nodes i ∈ U) → out.val = t.getRoot →
          leafIndex.val < 2 ^ d ∧ leaf.val = Merkle.pad 0 leaves leafIndex.val := by
  obtain ⟨t₀, h0, hI₀, hnil⟩ := @construct_inv (wordHash P) d (by omega) (by omega)
  obtain ⟨t, h1, hI, hl⟩ := insertAll_spec leaves hI₀ hcanon (by simpa [hnil] using hlen)
  obtain ⟨T, hT, -, -, -⟩ := @Proving.buildMerkleTree_spec (wordHash P) leaves d hd' hlen
  rw [hnil, List.nil_append] at hl
  have hcast : ∀ i, ((Merkle.pad 0 leaves i : ℕ) : Bn254) =
      Merkle.pad 0 (leaves.map Nat.cast) i := fun i => by
    simpa [Merkle.node] using @cast_node P leaves 0 i
  refine ⟨t₀, t, T, h0, by simpa [hnil] using h1, hT, ?_, ?_⟩
  · intro i hi
    obtain ⟨π, hπ, -, -, hs⟩ := Proving.getMerkleProof_spec hd' hT hlen hi
    refine ⟨π, hπ, fun out => ?_⟩
    rw [val_eq_getRoot_iff hd hI, hl, hcast]
    refine merkleRoot_iff (by omega) hi fun l hlt => ?_
    rw [hs l hlt, cast_node]
  · intro U hU htree leaf leafIndex siblings out indices nodes hproof hfold hout
    rw [val_eq_getRoot_iff hd hI, hl] at hout
    obtain ⟨hidx, hleaf⟩ := hproof.sound (by omega) hU hfold htree hout
    refine ⟨hidx, ?_⟩
    rw [hleaf, ← hcast, ZMod.val_cast_of_lt]
    -- a padded leaf is one of the leaves or zero
    rcases Nat.lt_or_ge leafIndex.val leaves.length with hin | hout
    · exact hcanon _ (Merkle.pad_of_lt hin)
    · rw [Merkle.pad_of_le hout]
      decide

/-- A hash that keeps small numbers apart. -/
def mixHash (l : List Bn254) : Bn254 := l.getD 0 0 + 100 * l.getD 1 0

/-- The pairs hashed by the tree of three leaves at depth two, and by the folds of its proofs. -/
def threePairs : Set (Bn254 × Bn254) :=
  {q | ∃ p ∈ [((5 : ℕ), (7 : ℕ)), (11, 0), (705, 11)], q = (((p.1 : ℕ) : Bn254), ((p.2 : ℕ) : Bn254))}

theorem injOn_threePairs : Set.InjOn (fun q => hash2 mixHash q.1 q.2) threePairs := by
  have hall : ∀ p ∈ [((5 : ℕ), (7 : ℕ)), (11, 0), (705, 11)],
      ∀ p' ∈ [((5 : ℕ), (7 : ℕ)), (11, 0), (705, 11)],
        hash2 mixHash p.1 p.2 = hash2 mixHash p'.1 p'.2 → p = p' := by decide
  rintro _ ⟨p, hp, rfl⟩ _ ⟨p', hp', rfl⟩ h
  rw [hall p hp p' hp' h]

/-- Three leaves at depth two: the fold of the second, and what any proof against the root opens. -/
theorem inclusion_complete_sound_three : ∃ t₀ t T π,
    construct (wordHash mixHash) 2 = .ok t₀ ∧
    insertAll (wordHash mixHash) 2 [5, 7, 11] t₀ = .ok ([0, 1, 2], t) ∧
    Proving.buildMerkleTree (wordHash mixHash) [5, 7, 11] 2 = .ok T ∧
    Proving.getMerkleProof T 1 = .ok π ∧
    (∀ out : Bn254, MerkleRoot mixHash 2 7 1
      (fun l => ((π.siblings.getD l 0 : ℕ) : Bn254)) out ↔ out.val = t.getRoot) ∧
    ∀ (leaf leafIndex : Bn254) siblings out indices nodes,
      MerkleProof mixHash 2 leaf leafIndex siblings out indices nodes →
      (∀ i < 2, foldPair siblings indices nodes i ∈ threePairs) → out.val = t.getRoot →
      leafIndex.val < 4 ∧ leaf.val = Merkle.pad 0 [5, 7, 11] leafIndex.val := by
  obtain ⟨t₀, t, T, h0, h1, hT, hc, hs⟩ := inclusion_complete_sound mixHash [5, 7, 11]
    (d := 2) (by decide) (by decide) (by decide) (by decide)
  obtain ⟨π, hπ, hout⟩ := hc 1 (by decide)
  refine ⟨t₀, t, T, π, h0, h1, hT, hπ, by simpa [Merkle.pad] using hout,
    hs threePairs injOn_threePairs ?_⟩
  have hleft : mixHash [5, 7] = 705 := by decide
  have hright : mixHash [11, 0] = 11 := by decide
  have hmem : ∀ p ∈ [((5 : ℕ), (7 : ℕ)), (11, 0), (705, 11)],
      (((p.1 : ℕ) : Bn254), ((p.2 : ℕ) : Bn254)) ∈ threePairs := fun p hp => ⟨p, hp, rfl⟩
  simpa [Merkle.nodePairs, Merkle.node, Merkle.pad, hash2, hleft, hright, Set.insert_subset_iff] using
    And.intro (hmem (705, 11) (by simp)) (And.intro (hmem (11, 0) (by simp)) (hmem (5, 7) (by simp)))

end

/-! ## Known roots -/

section
open Reentrancy

/-- **Known roots are history.** Wherever control is outside of the Arc pool, the known roots are the
non-zero roots of the prefixes of the inserted leaves, and the current root is that of all of them.
After every run of the Soroban pool, the `KnownRoot` entries are the zero word and the roots of the
non-empty prefixes of the stored leaves, and the counter is their number. -/
theorem knownRoots_exact :
    (∀ (E : Evm.Env) (s₀ : Evm.State), Evm.Deployed E s₀ → ∀ K w, Evm.Reachable E s₀ K w →
      (∀ r, w.1.pool.tree.isKnownRoot r = true ↔ r ≠ 0 ∧
        ∃ l, l <+: w.1.pool.tree.leaves ∧ r = Merkle.root E.hashLeftRight 0 E.levels l) ∧
      w.1.pool.tree.getRoot = Merkle.root E.hashLeftRight 0 E.levels w.1.pool.tree.leaves) ∧
    ∀ (E : Stellar.Env) admin usdc verifier depth poolId chainId balance ledger ts,
      let s := (Stellar.run E ts
        (Stellar.construct admin usdc verifier depth poolId chainId balance ledger)).1
      (∀ r, s.tree.knownRoot r = true ↔ r = Stellar.zeroWord ∨
        ∃ l, l ≠ [] ∧ l <+: s.tree.leaves ∧ r = Stellar.frToBytes
          (Merkle.root (hash2 E.poseidon) 0 s.tree.depth (Stellar.LeanIMT.scalars l))) ∧
      s.leafCount = s.tree.leaves.length := by
  refine ⟨fun E s₀ hd K w hr => ?_, ?_⟩
  · have hI := Evm.treeInv_reachable hd hr
    exact ⟨isKnownRoot_iff hI, hI.root⟩
  · intro E admin usdc verifier depth poolId chainId balance ledger ts
    obtain ⟨h1, h2⟩ := Stellar.roots_run (E := E) admin usdc verifier depth poolId chainId balance
      ledger ts
    exact ⟨h1, h2⟩

/-- After the deposit of a note and a withdrawal, the known roots are those of no leaf and of that
leaf; the freshly deployed Soroban pool knows the zero word. -/
theorem knownRoots_exact_withdrawal :
    (Evm.runFrom Evm.withdrawal Evm.withdrawalRun).1.pool.tree.leaves = [Evm.leafOf Evm.note₁] ∧
    (∀ r, (Evm.runFrom Evm.withdrawal Evm.withdrawalRun).1.pool.tree.isKnownRoot r = true ↔ r ≠ 0 ∧
      ∃ l, l <+: [Evm.leafOf Evm.note₁] ∧ r = Merkle.root
        (Evm.sampleEnv Evm.withdrawal).hashLeftRight 0 (Evm.sampleEnv Evm.withdrawal).levels l) ∧
    ∀ E : Stellar.Env, Stellar.fresh.tree.knownRoot Stellar.zeroWord = true ∧
      (Stellar.run E [] Stellar.fresh).1.leafCount = 0 := by
  have hrun := (@Evm.reach_run Evm.withdrawal (fun _ => True) (fun _ _ => trivial)
    Evm.withdrawalRun).of_within
  have hleaves : (Evm.runFrom Evm.withdrawal Evm.withdrawalRun).1.pool.tree.leaves =
      [Evm.leafOf Evm.note₁] := by decide
  refine ⟨hleaves, ?_, fun E => ?_⟩
  · have := (knownRoots_exact.1 _ _ Evm.deployed_fresh _ _ hrun).1
    rwa [hleaves] at this
  · obtain ⟨h1, h2⟩ := knownRoots_exact.2 E (Stellar.acct 0) (Stellar.acct 1) (Stellar.acct 0) 12 0 0
      (fun _ _ => 0) 0 []
    exact ⟨(h1 Stellar.zeroWord).2 (.inl rfl), h2⟩

end

end ShadePay
