import ShadePay.Circuit.Gadgets

/-!
# What a Merkle proof proves

`MerkleProof` against the root of a full tree. `MerkleProof.sound` is soundness: when Poseidon has no
collision among the pairs hashed by the circuit and by the tree, the leaf is the one at the index
the bits spell. `merkleRoot_iff` is completeness with uniqueness: with the siblings of a leaf's path
the circuit accepts the tree's root and nothing else. `cast_node` relates the trees of words that the
contracts and the wallet build to trees over the field.
-/

namespace ShadePay

section
variable {p : ℕ} [Fact p.Prime] {P : List (ZMod p) → ZMod p} {d : ℕ} {leaf leafIndex out : ZMod p}
  {siblings indices nodes : ℕ → ZMod p}

/-- The pair the circuit hashes at level `i`. -/
def foldPair (siblings indices nodes : ℕ → ZMod p) (i : ℕ) : ZMod p × ZMod p :=
  (mux (nodes i) (siblings i) (indices i), mux (siblings i) (nodes i) (indices i))

/-- The index of the circuit's path is the number its bits spell. -/
theorem index_pathOf (n : ℕ) (indices siblings : ℕ → ZMod p) :
    Merkle.index (pathOf n indices siblings) = Bits.natSum n indices := by
  induction n with
  | zero => simp [pathOf, Merkle.index, Bits.natSum]
  | succ n ih =>
      have hsplit : pathOf (n + 1) indices siblings =
          pathOf n indices siblings ++ [(Bits.toBool indices n, siblings n)] := by
        simp [pathOf, List.range_succ]
      rw [hsplit, Merkle.index_append, ih, length_pathOf, Bits.natSum, Bits.natSum,
        Finset.sum_range_succ]
      cases Bits.toBool indices n <;> simp [Merkle.index]

/-- Along the circuit's path, the fold passes through its `nodes`. -/
theorem MerkleProof.climb_take (h : MerkleProof P d leaf leafIndex siblings out indices nodes)
    {n : ℕ} (hn : n ≤ d) :
    nodes n = Merkle.climb (hash2 P) leaf (pathOf n indices siblings) := by
  refine (show MerkleProof P n leaf (Bits.bitSum n indices) siblings (nodes n) indices nodes from
    ⟨⟨fun i hi => h.indexToPath.bits i (by omega), rfl⟩, h.init, fun i hi => h.step i (by omega),
      rfl⟩).climb

/-- The pairs of the abstract fold are the circuit's. -/
theorem MerkleProof.climbPairs_subset
    (h : MerkleProof P d leaf leafIndex siblings out indices nodes) {U : Set (ZMod p × ZMod p)}
    (hU : ∀ i < d, foldPair siblings indices nodes i ∈ U) :
    Merkle.climbPairs (hash2 P) leaf (pathOf d indices siblings) ⊆ U := by
  have key : ∀ n ≤ d, Merkle.climbPairs (hash2 P) leaf (pathOf n indices siblings) ⊆ U := by
    intro n hn
    induction n with
    | zero => simp [pathOf, Merkle.climbPairs]
    | succ n ih =>
        have hsplit : pathOf (n + 1) indices siblings =
            pathOf n indices siblings ++ [(Bits.toBool indices n, siblings n)] := by
          simp [pathOf, List.range_succ]
        have hpair := hU n (by omega)
        rw [foldPair, h.indexToPath.bits.eq_ite (show n < d by omega), mux_ite, mux_ite] at hpair
        rw [hsplit, Merkle.climbPairs_append, ← h.climb_take (by omega : n ≤ d)]
        refine Set.union_subset (ih (by omega)) ?_
        simp only [Merkle.climbPairs, Set.insert_subset_iff, Set.empty_subset, and_true]
        cases hb : Bits.toBool indices n <;> simpa [hb] using hpair
  exact key d le_rfl

/-- **Soundness.** A proof that reaches the root of a tree opens the leaf its index names. -/
theorem MerkleProof.sound [WideModulus p] (hd : d ≤ 253)
    (h : MerkleProof P d leaf leafIndex siblings out indices nodes) {f : ℕ → ZMod p}
    {U : Set (ZMod p × ZMod p)} (hU : Set.InjOn (fun q => hash2 P q.1 q.2) U)
    (hfold : ∀ i < d, foldPair siblings indices nodes i ∈ U)
    (htree : Merkle.nodePairs (hash2 P) f d 0 ⊆ U) (hroot : out = Merkle.node (hash2 P) f d 0) :
    leafIndex.val < 2 ^ d ∧ leaf = f leafIndex.val := by
  have hp : 2 ^ d ≤ p := le_trans (Nat.pow_le_pow_right (by norm_num) hd) (le_of_lt WideModulus.wide)
  have hval : leafIndex.val = Bits.natSum d indices := by
    rw [← h.indexToPath.sum, h.indexToPath.bits.val_bitSum hp]
  refine ⟨hval ▸ Bits.natSum_lt d indices, ?_⟩
  have := Merkle.climb_sound hU (pathOf d indices siblings) 0 (h.climbPairs_subset hfold)
    (by rwa [length_pathOf]) (by rw [length_pathOf, ← h.climb, hroot])
  rwa [index_pathOf, zero_mul, zero_add, ← hval] at this

/-- The signals of a `MerkleProof` are determined by its inputs. -/
theorem MerkleProof.signals_unique [WideModulus p] (hd : d ≤ 253)
    {out' : ZMod p} {indices' nodes' : ℕ → ZMod p}
    (h : MerkleProof P d leaf leafIndex siblings out indices nodes)
    (h' : MerkleProof P d leaf leafIndex siblings out' indices' nodes') :
    (∀ i < d, indices i = indices' i) ∧ ∀ i ≤ d, nodes i = nodes' i := by
  have hp : 2 ^ d ≤ p := le_trans (Nat.pow_le_pow_right (by norm_num) hd) (le_of_lt WideModulus.wide)
  have hsum : Bits.natSum d indices = Bits.natSum d indices' := by
    rw [← h.indexToPath.bits.val_bitSum hp, ← h'.indexToPath.bits.val_bitSum hp,
      h.indexToPath.sum, h'.indexToPath.sum]
  have hbits : ∀ i < d, indices i = indices' i := by
    intro i hi
    rw [h.indexToPath.bits.eq_ite hi, h'.indexToPath.bits.eq_ite hi,
      Bits.toBool_eq_testBit hi, Bits.toBool_eq_testBit hi, hsum]
  refine ⟨hbits, fun i hi => ?_⟩
  induction i with
  | zero => rw [h.init, h'.init]
  | succ i ih => rw [h.step i hi, h'.step i hi, ih (by omega), hbits i hi]

theorem MerkleProof.unique [WideModulus p] (hd : d ≤ 253)
    {out' : ZMod p} {indices' nodes' : ℕ → ZMod p}
    (h : MerkleProof P d leaf leafIndex siblings out indices nodes)
    (h' : MerkleProof P d leaf leafIndex siblings out' indices' nodes') : out = out' := by
  rw [h.result, h'.result, (h.signals_unique hd h').2 d le_rfl]

/-- **Completeness.** With the siblings of leaf `i` the circuit outputs the root of the tree, and
only that. -/
theorem merkleRoot_iff [WideModulus p] (hd : d ≤ 253) {f : ℕ → ZMod p} {i : ℕ} (hi : i < 2 ^ d)
    (hs : ∀ l < d, siblings l = Merkle.node (hash2 P) f l
      (if i / 2 ^ l % 2 = 1 then i / 2 ^ l - 1 else i / 2 ^ l + 1)) :
    MerkleRoot P d (f i) (i : ZMod p) siblings out ↔ out = Merkle.node (hash2 P) f d 0 := by
  obtain ⟨ind, nd, hnode⟩ := merkleRoot_node P f hi
  have hnode' : MerkleProof P d (f i) (i : ZMod p) siblings (Merkle.node (hash2 P) f d 0) ind nd :=
    ⟨hnode.indexToPath, hnode.init, fun l hl => by rw [hnode.step l hl, hs l hl], hnode.result⟩
  constructor
  · rintro ⟨_, _, h⟩
    exact h.unique hd hnode'
  · rintro rfl
    exact ⟨ind, nd, hnode'⟩

end

/-! ## Trees of words -/

section
variable (P : List Bn254 → Bn254)

/-- Poseidon on two words, as the contract and the TypeScript tree call it. -/
def wordHash (l r : ℕ) : ℕ := (P [(l : Bn254), (r : Bn254)]).val

variable {P} {leaves : List ℕ}

/-- The nodes of the word tree are those of the field tree. -/
theorem cast_node (l i : ℕ) : ((Merkle.node (wordHash P) (Merkle.pad 0 leaves) l i : ℕ) : Bn254) =
    Merkle.node (hash2 P) (Merkle.pad 0 (leaves.map Nat.cast)) l i := by
  rw [Merkle.map_node (Nat.cast : ℕ → Bn254) (k := hash2 P), Merkle.map_pad, Nat.cast_zero]
  intro x y
  rw [wordHash, ZMod.natCast_zmod_val, hash2]

end

end ShadePay
