import ShadePay.Field
import ShadePay.Lib.Bits
import ShadePay.Lib.Merkle

/-!
# Gadgets of the circuits

The sub-circuits that the templates instantiate, as constraints over a prime field: circomlib's
`Num2Bits`, `MultiMux1`, `LessThan` and `IsEqual`, and the repository's `CommitmentHasher`
(`circuits/lib_bn254/commitment.circom`, `circuits/lib/commitment.circom`) and `MerkleProof`
(`circuits/lib_bn254/merkleProof.circom`, `circuits/lib/merkleProof.circom`). Poseidon is a parameter
`P` on lists, so that its arity is the length. The BN254 and the BLS12-381 sources differ in that
hash only.

Signal arrays are total functions `ℕ → F`, read below their declared length.
-/

namespace ShadePay

section
variable {F : Type} [Field F]

/-- `Num2Bits(n)`: Boolean outputs that sum to the input. -/
structure Num2Bits (n : ℕ) (inp : F) (out : ℕ → F) : Prop where
  /-- `out[i] * (out[i] - 1) === 0`. -/
  bits : Bits.IsBits n out
  /-- `lc1 === in`. -/
  sum : Bits.bitSum n out = inp

/-- The input of `Num2Bits(n)` has a decomposition: what a range check asserts of it. -/
def InRange (n : ℕ) (inp : F) : Prop := ∃ out, Num2Bits n inp out

/-- One output of `MultiMux1`: `(c[1] - c[0]) * s + c[0]`. -/
def mux (c₀ c₁ s : F) : F := (c₁ - c₀) * s + c₀

/-- `LessThan(n)`: `Num2Bits(n + 1)` of `in[0] + 2^n - in[1]`, the output one minus the top bit. -/
structure LessThan (n : ℕ) (in₀ in₁ out : F) : Prop where
  n2b : ∃ bits, Num2Bits (n + 1) (in₀ + 2 ^ n - in₁) bits ∧ out = 1 - bits n

/-- `LessEqThan(n)` is `LessThan(n)` on `in[0]` and `in[1] + 1`. -/
def LessEqThan (n : ℕ) (in₀ in₁ out : F) : Prop := LessThan n in₀ (in₁ + 1) out

/-- `GreaterEqThan(n)` is `LessThan(n)` on `in[1]` and `in[0] + 1`. -/
def GreaterEqThan (n : ℕ) (in₀ in₁ out : F) : Prop := LessThan n in₁ (in₀ + 1) out

/-- `IsEqual`: `IsZero` of the difference, with its advice `inv`. -/
structure IsEqual (in₀ in₁ out : F) : Prop where
  isz : ∃ inv, out = -(in₁ - in₀) * inv + 1 ∧ (in₁ - in₀) * out = 0

/-- A note: the opening of a commitment. -/
structure Note (F : Type) where
  assetId : F
  value : F
  label : F
  nullifier : F
  secret : F
deriving DecidableEq

/-- `CommitmentHasher.commitment`:
`Poseidon(Poseidon(assetId, value, label), Poseidon(nullifier, secret))`. -/
def Note.commitment (P : List F → F) (n : Note F) : F :=
  P [P [n.assetId, n.value, n.label], P [n.nullifier, n.secret]]

/-- The domain-separated `Poseidon(nullifier, poolId, chainId)` every spend circuit exposes. -/
def Note.nullifierHash (P : List F → F) (n : Note F) (poolId chainId : F) : F :=
  P [n.nullifier, poolId, chainId]

/-- The three inputs on which opening a commitment evaluates Poseidon. -/
def Note.inputs (P : List F → F) (n : Note F) : List (List F) :=
  [[n.assetId, n.value, n.label], [n.nullifier, n.secret],
    [P [n.assetId, n.value, n.label], P [n.nullifier, n.secret]]]

/-- Poseidon on a pair, as `MerkleProof` hashes two children. -/
def hash2 (P : List F → F) (l r : F) : F := P [l, r]

/-- `MerkleProof(depth)`, with its internal signals `indices` and `nodes`. -/
structure MerkleProof (P : List F → F) (depth : ℕ) (leaf leafIndex : F) (siblings : ℕ → F)
    (out : F) (indices nodes : ℕ → F) : Prop where
  /-- `indexToPath.in <== leafIndex; indices <== indexToPath.out`. -/
  indexToPath : Num2Bits depth leafIndex indices
  /-- `nodes[0] <== leaf`. -/
  init : nodes 0 = leaf
  /-- `hashes[i].inputs <== hashInCorrectOrder[i].out; nodes[i + 1] <== hashes[i].out`. -/
  step : ∀ i < depth, nodes (i + 1) =
    P [mux (nodes i) (siblings i) (indices i), mux (siblings i) (nodes i) (indices i)]
  /-- `out <== nodes[depth]`. -/
  result : out = nodes depth

/-- `root === checker.out` for a `MerkleProof(depth)` component: some internal signals satisfy it. -/
def MerkleRoot (P : List F → F) (depth : ℕ) (leaf leafIndex : F) (siblings : ℕ → F) (root : F) :
    Prop :=
  ∃ indices nodes, MerkleProof P depth leaf leafIndex siblings root indices nodes

/-! ## The Merkle fold -/

/-- The path a `MerkleProof` folds along. -/
noncomputable def pathOf (depth : ℕ) (indices siblings : ℕ → F) : List (Bool × F) :=
  (List.range depth).map fun i => (Bits.toBool indices i, siblings i)

@[simp] theorem length_pathOf (depth : ℕ) (indices siblings : ℕ → F) :
    (pathOf depth indices siblings).length = depth := by simp [pathOf]

/-- The multiplexer on a Boolean selects. -/
theorem mux_ite (c₀ c₁ : F) (b : Bool) : mux c₀ c₁ (if b then 1 else 0) = if b then c₁ else c₀ := by
  cases b <;> simp [mux]

/-- **`MerkleProof` folds.** Its output is the fold of the leaf along the path of its signals. -/
theorem MerkleProof.climb {P : List F → F} {depth : ℕ} {leaf leafIndex out : F}
    {siblings indices nodes : ℕ → F}
    (h : MerkleProof P depth leaf leafIndex siblings out indices nodes) :
    out = Merkle.climb (hash2 P) leaf (pathOf depth indices siblings) := by
  have key : ∀ n ≤ depth, nodes n = Merkle.climb (hash2 P) leaf (pathOf n indices siblings) := by
    intro n hn
    induction n with
    | zero => simpa [pathOf, Merkle.climb] using h.init
    | succ n ih =>
        have hsplit : pathOf (n + 1) indices siblings =
            pathOf n indices siblings ++ [(Bits.toBool indices n, siblings n)] := by
          simp [pathOf, List.range_succ]
        rw [hsplit, Merkle.climb_append, ← ih (by omega), h.step n (by omega),
          h.indexToPath.bits.eq_ite (show n < depth by omega), mux_ite, mux_ite]
        cases Bits.toBool indices n <;> rfl
  rw [h.result, key depth le_rfl]

end

/-! ## Over a prime field -/

section
variable {p : ℕ} [Fact p.Prime]

/-- A 128-bit range check bounds the canonical representative, and every such value passes it. -/
theorem inRange_iff [WideModulus p] {n : ℕ} (hn : n ≤ 253) (x : ZMod p) :
    InRange n x ↔ x.val < 2 ^ n := by
  have hp : 2 ^ n ≤ p := le_trans (Nat.pow_le_pow_right (by norm_num) hn) (le_of_lt WideModulus.wide)
  rw [← Bits.exists_bits_iff hp x]
  exact ⟨fun ⟨b, h⟩ => ⟨b, h.bits, h.sum⟩, fun ⟨b, h1, h2⟩ => ⟨b, h1, h2⟩⟩

/-- The two children a `MerkleProof` on leaf `i` of a full tree hashes at level `l`, in the order
its multiplexers put them. -/
theorem mux_node (h : ZMod p → ZMod p → ZMod p) (f : ℕ → ZMod p) (i l : ℕ) :
    let node := Merkle.node h f l (i / 2 ^ l)
    let sibling := Merkle.node h f l (if i / 2 ^ l % 2 = 1 then i / 2 ^ l - 1 else i / 2 ^ l + 1)
    mux node sibling (Bits.ofNat i l) = Merkle.node h f l (2 * (i / 2 ^ (l + 1))) ∧
      mux sibling node (Bits.ofNat i l) = Merkle.node h f l (2 * (i / 2 ^ (l + 1)) + 1) := by
  rw [pow_succ, ← Nat.div_div_eq_div_mul, Bits.ofNat, Nat.testBit_eq_decide_div_mod_eq]
  by_cases hodd : i / 2 ^ l % 2 = 1
  · have h1 : 2 * (i / 2 ^ l / 2) = i / 2 ^ l - 1 := by omega
    have h2 : i / 2 ^ l - 1 + 1 = i / 2 ^ l := by omega
    rw [h1, h2]
    simp [hodd, mux]
  · have h1 : 2 * (i / 2 ^ l / 2) = i / 2 ^ l := by omega
    rw [h1]
    simp [hodd, mux]

/-- Every leaf of a full tree has a `MerkleProof` assignment: the bits of its index, the siblings
of its path, and the nodes above it. -/
theorem merkleProof_node (P : List (ZMod p) → ZMod p) (f : ℕ → ZMod p) {d i : ℕ} (hi : i < 2 ^ d) :
    MerkleProof P d (f i) (i : ZMod p)
      (fun l => Merkle.node (hash2 P) f l
        (if i / 2 ^ l % 2 = 1 then i / 2 ^ l - 1 else i / 2 ^ l + 1))
      (Merkle.node (hash2 P) f d 0) (Bits.ofNat i)
      (fun l => Merkle.node (hash2 P) f l (i / 2 ^ l)) := by
  refine ⟨?_, ?_, ?_, ?_⟩
  · exact ⟨Bits.isBits_ofNat d i, Bits.bitSum_ofNat d i hi⟩
  · simp [Merkle.node]
  · intro l _
    obtain ⟨hl, hr⟩ := mux_node (hash2 P) f i l
    rw [hl, hr, Merkle.node, hash2]
  · rw [Nat.div_eq_of_lt hi]

theorem merkleRoot_node (P : List (ZMod p) → ZMod p) (f : ℕ → ZMod p) {d i : ℕ} (hi : i < 2 ^ d) :
    MerkleRoot P d (f i) (i : ZMod p)
      (fun l => Merkle.node (hash2 P) f l
        (if i / 2 ^ l % 2 = 1 then i / 2 ^ l - 1 else i / 2 ^ l + 1))
      (Merkle.node (hash2 P) f d 0) :=
  ⟨_, _, merkleProof_node P f hi⟩

end

end ShadePay
