import ShadePay.Circuit.Hashing

/-!
# Honest assignments

What a wallet that knows the tree computes: the two Merkle paths of a note and of its label
(`SpendInput.honest`), with which the spend block of every template is satisfied
(`spendsNote_honest`). A range check passes on every small value (`inRange_natCast`), so a template
over honest inputs comes down to its value equations.
-/

namespace ShadePay

section
variable {p : ℕ} [Fact p.Prime]

/-- The siblings of leaf `i` in the full tree over the leaf function `f`. -/
def siblingsOf (P : List (ZMod p) → ZMod p) (f : ℕ → ZMod p) (i : ℕ) (l : ℕ) : ZMod p :=
  Merkle.node (hash2 P) f l (if i / 2 ^ l % 2 = 1 then i / 2 ^ l - 1 else i / 2 ^ l + 1)

/-- The spend input of the note at leaf `i` of the state tree `f`, with its label at leaf `j` of
the association tree `g`. -/
def SpendInput.honest (P : List (ZMod p) → ZMod p) (f g : ℕ → ZMod p) (i j : ℕ)
    (n : Note (ZMod p)) : SpendInput (ZMod p) where
  label := n.label
  nullifier := n.nullifier
  secret := n.secret
  stateIndex := i
  stateSiblings := siblingsOf P f i
  labelIndex := j
  labelSiblings := siblingsOf P g j

@[simp] theorem SpendInput.honest_note {P : List (ZMod p) → ZMod p} {f g : ℕ → ZMod p} {i j : ℕ}
    (n : Note (ZMod p)) : (SpendInput.honest P f g i j n).note n.assetId n.value = n := rfl

/-- The spend block holds of honest inputs: at the roots of the two trees, with the note's own
nullifier hash. -/
theorem spendsNote_honest {P : List (ZMod p) → ZMod p} {f g : ℕ → ZMod p} {d k i j : ℕ}
    {n : Note (ZMod p)} {poolId chainId : ZMod p} (hi : i < 2 ^ d) (hj : j < 2 ^ k)
    (hf : f i = n.commitment P) (hg : g j = n.label) :
    SpendsNote P d k (SpendInput.honest P f g i j n) n (Merkle.node (hash2 P) f d 0)
      (Merkle.node (hash2 P) g k 0) poolId chainId (n.nullifierHash P poolId chainId) where
  state := hf ▸ merkleRoot_node P f hi
  association := hg ▸ merkleRoot_node P g hj
  nullifier := rfl

/-- What an honest path hashes, the tree hashes. -/
theorem honest_foldPair [WideModulus p] {P : List (ZMod p) → ZMod p} {U : Set (List (ZMod p))}
    {f : ℕ → ZMod p} {d i : ℕ} {leaf root : ZMod p} {indices nodes : ℕ → ZMod p} (hd : d ≤ 253)
    (hi : i < 2 ^ d) (hleaf : f i = leaf) (hf : TreeHashed P U f d)
    (h : MerkleProof P d leaf i (siblingsOf P f i) root indices nodes) {l : ℕ} (hl : l < d) :
    [(foldPair (siblingsOf P f i) indices nodes l).1,
      (foldPair (siblingsOf P f i) indices nodes l).2] ∈ U := by
  subst hleaf
  obtain ⟨hind, hnodes⟩ := h.signals_unique hd (merkleProof_node P f hi)
  obtain ⟨h1, h2⟩ := mux_node (hash2 P) f i l
  have hpair : foldPair (siblingsOf P f i) indices nodes l =
      (Merkle.node (hash2 P) f l (2 * (i / 2 ^ (l + 1))),
        Merkle.node (hash2 P) f l (2 * (i / 2 ^ (l + 1)) + 1)) := by
    rw [foldPair, hind l hl, hnodes l hl.le]
    exact Prod.ext h1 h2
  rw [hpair]
  refine hf _ (Merkle.mem_nodePairs.2 ⟨l, hl, i / 2 ^ (l + 1), ?_, rfl⟩)
  rw [Nat.div_div_eq_div_mul, ← pow_add, Nat.div_eq_of_lt]
  rwa [show l + 1 + (d - 1 - l) = d by omega]

/-- **Honest inputs are hashed** when the note and the two trees are. -/
theorem SpendInput.honest_hashed [WideModulus p] {P : List (ZMod p) → ZMod p}
    {U : Set (List (ZMod p))} {f g : ℕ → ZMod p} {d k i j : ℕ} {n : Note (ZMod p)} (hd : d ≤ 253)
    (hk : k ≤ 253) (hi : i < 2 ^ d) (hj : j < 2 ^ k) (hf : f i = n.commitment P) (hg : g j = n.label)
    (hn : n.Hashed P U) (hft : TreeHashed P U f d) (hgt : TreeHashed P U g k) :
    (SpendInput.honest P f g i j n).Hashed P U d k n where
  note := hn
  state h _ hl := honest_foldPair hd hi hf hft h hl
  label h _ hl := honest_foldPair hk hj hg hgt h hl

/-- A small number passes its range check. -/
theorem inRange_natCast [WideModulus p] {n m : ℕ} (hn : n ≤ 253) (hm : m < 2 ^ n) :
    InRange n ((m : ℕ) : ZMod p) := by
  have hp : 2 ^ n ≤ p := le_trans (Nat.pow_le_pow_right (by norm_num) hn) (le_of_lt WideModulus.wide)
  rw [inRange_iff hn, ZMod.val_natCast, Nat.mod_eq_of_lt (lt_of_lt_of_le hm hp)]
  exact hm

end

end ShadePay
