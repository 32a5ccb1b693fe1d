import ShadePay.Lib.Guard
import ShadePay.Lib.Merkle
import Mathlib.Data.Nat.Bitwise

/-!
# The materialised tree

`packages/proving/src/bn254/merkle.ts`: `buildMerkleTree` pads the leaves to capacity and hashes level
by level, `getMerkleProof` reads off the siblings of a leaf. `buildMerkleTree_spec` and
`getMerkleProof_spec` say that the levels are the nodes of the full tree over the zero-padded leaves.
-/

namespace ShadePay.Proving

open Guard

/-- What `buildMerkleTree` and `getMerkleProof` throw. -/
inductive Error where
  /-- `too many leaves: ... > capacity ...`. -/
  | tooManyLeaves
  /-- `leafIndex ... out of range`. -/
  | outOfRange
  /-- `new Array(0.5)`. -/
  | invalidArrayLength
deriving DecidableEq

/-- `MerkleTree`: `levels[0]` are the padded leaves, `levels[depth]` the root alone. -/
structure MerkleTree where
  depth : ℕ
  levels : List (List ℕ)
  root : ℕ

/-- `MerkleProof`. -/
structure MerkleProof where
  leafIndex : ℕ
  siblings : List ℕ
  root : ℕ

/-- `1 << n` on 32-bit integers. -/
def shiftOne (n : ℕ) : ℤ := if n % 32 = 31 then -2 ^ 31 else 2 ^ (n % 32)

theorem shiftOne_of_lt {n : ℕ} (hn : n < 31) : shiftOne n = 2 ^ n := by
  rw [shiftOne, if_neg (by omega), Nat.mod_eq_of_lt (by omega)]

section
variable (h : ℕ → ℕ → ℕ)

/-- One level from the level below: `next[i / 2] = hash2(cur[i], cur[i + 1])`. -/
def hashPairs : List ℕ → List ℕ
  | a :: b :: rest => h a b :: hashPairs rest
  | _ => []

/-- The levels from `cur` up, `n` of them above it. -/
def buildLevels : ℕ → List ℕ → List (List ℕ)
  | 0, cur => [cur]
  | n + 1, cur => cur :: buildLevels n (hashPairs h cur)

/-- `buildMerkleTree`. From depth 32 on, `1 << depth` starts over at one and the halving of the
levels goes past a single node, where `new Array` throws. -/
def buildMerkleTree (leaves : List ℕ) (depth : ℕ) : Except Error MerkleTree := do
  let capacity := shiftOne depth
  require ((leaves.length : ℤ) ≤ capacity) .tooManyLeaves
  require (depth < 32) .invalidArrayLength
  let level := leaves ++ List.replicate (capacity.toNat - leaves.length) 0
  let levels := buildLevels h depth level
  return ⟨depth, levels, (levels.getD depth []).getD 0 0⟩

/-- The loop of `getMerkleProof` from level `d` on, at index `idx`; `idx ^ 1` is the sibling's. -/
def siblingsFrom (tree : MerkleTree) : ℕ → ℕ → ℕ → List ℕ
  | 0, _, _ => []
  | n + 1, d, idx =>
      (tree.levels.getD d []).getD (idx ^^^ 1) 0 :: siblingsFrom tree n (d + 1) (idx >>> 1)

/-- `getMerkleProof`. -/
def getMerkleProof (tree : MerkleTree) (leafIndex : ℤ) : Except Error MerkleProof := do
  let capacity := shiftOne tree.depth
  require (0 ≤ leafIndex ∧ leafIndex < capacity) .outOfRange
  return ⟨leafIndex.toNat, siblingsFrom tree tree.depth 0 leafIndex.toNat, tree.root⟩

end

variable {h : ℕ → ℕ → ℕ}

/-- A level is half as long as the one below. -/
theorem length_hashPairs (l : List ℕ) : (hashPairs h l).length = l.length / 2 := by
  induction l using hashPairs.induct with
  | case1 a b rest ih => simp only [hashPairs, List.length_cons, ih]; omega
  | case2 l hl =>
      match l, hl with
      | [], _ => rfl
      | [_], _ => simp [hashPairs]
      | a :: b :: rest, hl => exact absurd rfl (hl a b rest)

/-- A node is the hash of its children. -/
theorem getD_hashPairs (l : List ℕ) {i : ℕ} (hi : 2 * i + 1 < l.length) :
    (hashPairs h l).getD i 0 = h (l.getD (2 * i) 0) (l.getD (2 * i + 1) 0) := by
  induction l using hashPairs.induct generalizing i with
  | case1 a b rest ih =>
      cases i with
      | zero => simp [hashPairs]
      | succ i =>
          simp only [List.length_cons] at hi
          have h1 : 2 * (i + 1) = 2 * i + 2 := by ring
          simpa [hashPairs, h1] using ih (by omega)
  | case2 l hl =>
      match l, hl with
      | [], _ => simp at hi
      | [_], _ => simp at hi
      | a :: b :: rest, hl => exact absurd rfl (hl a b rest)

/-- Level `l` above a row of nodes is the row of nodes `l` levels up. -/
theorem getD_buildLevels {f : ℕ → ℕ} : ∀ (n b : ℕ) (cur : List ℕ), cur.length = 2 ^ n →
    (∀ i < 2 ^ n, cur.getD i 0 = Merkle.node h f b i) → ∀ l ≤ n, ∀ i < 2 ^ (n - l),
      ((buildLevels h n cur).getD l []).getD i 0 = Merkle.node h f (b + l) i
  | n, b, cur, _, hcur, 0, _, i, hi => by
      cases n <;> simpa [buildLevels] using hcur i (by simpa using hi)
  | n + 1, b, cur, hlen, hcur, l + 1, hl, i, hi => by
      have hlen' : (hashPairs h cur).length = 2 ^ n := by
        rw [length_hashPairs, hlen, pow_succ, Nat.mul_div_cancel _ (by norm_num)]
      have hcur' : ∀ j < 2 ^ n, (hashPairs h cur).getD j 0 = Merkle.node h f (b + 1) j := by
        intro j hj
        rw [pow_succ] at hlen hcur
        rw [getD_hashPairs cur (by omega), hcur _ (by omega), hcur _ (by omega), Merkle.node]
      have := getD_buildLevels n (b + 1) _ hlen' hcur' l (by omega) i (by simpa using hi)
      rw [buildLevels, List.getD_cons_succ, this, show b + 1 + l = b + (l + 1) by omega]

/-- **The materialised tree.** Up to depth 30 a sequence that fits is accepted, and the node at level
`l` and index `i` is that of the full tree over the zero-padded leaves. -/
theorem buildMerkleTree_spec {leaves : List ℕ} {d : ℕ} (hd : d ≤ 30) (hlen : leaves.length ≤ 2 ^ d) :
    ∃ T, buildMerkleTree h leaves d = .ok T ∧ T.depth = d ∧ T.root = Merkle.root h 0 d leaves ∧
      ∀ l ≤ d, ∀ i < 2 ^ (d - l),
        (T.levels.getD l []).getD i 0 = Merkle.node h (Merkle.pad 0 leaves) l i := by
  have hcap : shiftOne d = ((2 ^ d : ℕ) : ℤ) := by rw [shiftOne_of_lt (by omega)]; norm_num
  have hnodes := @getD_buildLevels h (Merkle.pad 0 leaves) d 0
    (leaves ++ List.replicate (2 ^ d - leaves.length) 0) (by simp; omega) (by
      intro i hi
      rcases Nat.lt_or_ge i leaves.length with hlt | hge
      · rw [List.getD_append _ _ _ _ hlt]
        rfl
      · rw [List.getD_append_right _ _ _ _ hge, Merkle.node, Merkle.pad_of_le hge]
        simp)
  simp only [Nat.zero_add] at hnodes
  refine ⟨⟨d, buildLevels h d (leaves ++ List.replicate (2 ^ d - leaves.length) 0), _⟩, ?_, rfl,
    hnodes d le_rfl 0 (by simp), hnodes⟩
  rw [buildMerkleTree, hcap, require_of (by exact_mod_cast hlen), ok_bind, require_of (by omega),
    ok_bind, Int.toNat_natCast]
  rfl

/-- The index of the other child. -/
theorem xor_one (i : ℕ) : i ^^^ 1 = if i % 2 = 1 then i - 1 else i + 1 := by
  split
  · next hodd => exact Nat.xor_one_of_odd (Nat.odd_iff.2 hodd)
  · next heven => exact Nat.xor_one_of_even (Nat.even_iff.2 (by omega))

/-- The siblings on the way to the root. -/
theorem getD_siblingsFrom (T : MerkleTree) : ∀ (n d idx l : ℕ), l < n →
    (siblingsFrom T n d idx).getD l 0 =
      (T.levels.getD (d + l) []).getD ((idx / 2 ^ l) ^^^ 1) 0
  | n + 1, d, idx, 0, _ => by simp [siblingsFrom]
  | n + 1, d, idx, l + 1, hl => by
      rw [siblingsFrom, List.getD_cons_succ, getD_siblingsFrom T n (d + 1) _ l (by omega),
        Nat.shiftRight_one, Nat.div_div_eq_div_mul, pow_succ, mul_comm 2,
        show d + 1 + l = d + (l + 1) by omega]

/-- **Inclusion proofs.** The sibling at level `l` is the other child on the path of the leaf. -/
theorem getMerkleProof_spec {leaves : List ℕ} {d : ℕ} (hd : d ≤ 30) {T : MerkleTree}
    (hT : buildMerkleTree h leaves d = .ok T) (hlen : leaves.length ≤ 2 ^ d) {i : ℕ} (hi : i < 2 ^ d) :
    ∃ π, getMerkleProof T i = .ok π ∧ π.leafIndex = i ∧ π.root = T.root ∧
      ∀ l < d, π.siblings.getD l 0 = Merkle.node h (Merkle.pad 0 leaves) l
        (if i / 2 ^ l % 2 = 1 then i / 2 ^ l - 1 else i / 2 ^ l + 1) := by
  obtain ⟨T', hT', hdepth, -, hnodes⟩ := @buildMerkleTree_spec h leaves d hd hlen
  obtain rfl : T' = T := by rw [hT] at hT'; cases hT'; rfl
  have hcap : shiftOne T'.depth = ((2 ^ d : ℕ) : ℤ) := by
    rw [hdepth, shiftOne_of_lt (by omega)]; norm_num
  refine ⟨⟨i, siblingsFrom T' d 0 i, T'.root⟩, ?_, rfl, rfl, ?_⟩
  · rw [getMerkleProof, hcap, require_of ⟨by omega, by exact_mod_cast hi⟩, ok_bind, hdepth]
    rfl
  · intro l hl
    -- the sibling of a node at level `l` is a node of the same level
    have hdiv : i / 2 ^ l < 2 ^ (d - l) := by
      rw [Nat.div_lt_iff_lt_mul (by positivity), ← pow_add, Nat.sub_add_cancel (by omega)]
      exact hi
    have heven : 2 ^ (d - l) % 2 = 0 := by
      rw [show d - l = d - l - 1 + 1 by omega, pow_succ]
      omega
    simp only [getD_siblingsFrom T' d 0 i l hl, zero_add]
    rw [xor_one]
    refine hnodes l (by omega) _ ?_
    generalize i / 2 ^ l = q at hdiv ⊢
    generalize 2 ^ (d - l) = m at hdiv heven ⊢
    split <;> omega

end ShadePay.Proving
