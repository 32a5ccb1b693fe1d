import ShadePay.Stellar.Basic
import ShadePay.Lib.Merkle

/-!
# The cached tree

`contracts/stellar/lean_imt`: a tree of fixed depth that keeps a cache of one hash per level for
empty subtrees and a sparse cache of the nodes above inserted leaves, and recomputes the path of a
new leaf from them. `Inv` ties both caches to the full tree over the zero-padded leaves; it holds of
`new` (`new_inv`) and survives `insert` (`insert_inv`), so the root is the full tree's root.
-/

namespace ShadePay.Stellar

/-- `LeanIMT`. -/
structure LeanIMT where
  leaves : List Bytes32
  depth : ℕ
  capacity : ℕ
  root : Bytes32
  subtreeCache : ℕ → Option Bls12381
  sparseCache : ℕ → ℕ → Option Bls12381

namespace LeanIMT

section
variable (h : Bls12381 → Bls12381 → Bls12381)

/-- The loop of `recompute_tree`, from `level` on. -/
def recomputeLoop : ℕ → ℕ → Bls12381 → (ℕ → Option Bls12381) → Bls12381 × (ℕ → Option Bls12381)
  | 0, _, current, cache => (current, cache)
  | n + 1, level, current, cache =>
      let next := if level = 0 then 0 else h current current
      recomputeLoop n (level + 1) next (Function.update cache level (some next))

/-- `LeanIMT::new`, with `recompute_tree` on the empty tree. -/
def new (depth : ℕ) : LeanIMT :=
  let capacity := if depth < 32 then 2 ^ depth else 2 ^ 32 - 1
  if depth = 0 then
    ⟨[], depth, capacity, .ofNat 32 0, fun _ => none, fun _ _ => none⟩
  else
    let r := recomputeLoop h (depth + 1) 0 0 fun _ => none
    ⟨[], depth, capacity, frToBytes r.1, r.2, fun _ _ => none⟩

/-- `get_cached_node`: the sparse cache first, then the level's empty subtree. -/
def getCachedNode (t : LeanIMT) (level index : ℕ) : Option Bls12381 :=
  (t.sparseCache level index).or (t.subtreeCache level)

/-- A leaf as a scalar, zero where none was inserted. -/
def leafScalar (t : LeanIMT) (index : ℕ) : Bls12381 :=
  ((t.leaves[index]?).map frFromBytes).getD 0

/-- `compute_node_at_level_scalar`. -/
def computeNode (t : LeanIMT) : ℕ → ℕ → Bls12381
  | 0, index => (t.getCachedNode 0 index).getD (t.leafScalar index)
  | level + 1, index =>
      if t.depth < level + 1 then 0
      else (t.getCachedNode (level + 1) index).getD
        (h (computeNode t level (2 * index)) (computeNode t level (2 * index + 1)))

/-- `cache_sparse_node`. -/
def cacheSparseNode (t : LeanIMT) (level index : ℕ) (x : Bls12381) : LeanIMT :=
  { t with sparseCache :=
      Function.update t.sparseCache level (Function.update (t.sparseCache level) index (some x)) }

/-- Caching a node leaves the leaves. -/
@[simp] theorem cacheSparseNode_leaves (t : LeanIMT) (level index : ℕ) (x : Bls12381) :
    (t.cacheSparseNode level index x).leaves = t.leaves := rfl
/-- Caching a node leaves the depth. -/
@[simp] theorem cacheSparseNode_depth (t : LeanIMT) (level index : ℕ) (x : Bls12381) :
    (t.cacheSparseNode level index x).depth = t.depth := rfl
/-- Caching a node leaves the capacity. -/
@[simp] theorem cacheSparseNode_capacity (t : LeanIMT) (level index : ℕ) (x : Bls12381) :
    (t.cacheSparseNode level index x).capacity = t.capacity := rfl
@[simp] theorem cacheSparseNode_subtreeCache (t : LeanIMT) (level index : ℕ) (x : Bls12381) :
    (t.cacheSparseNode level index x).subtreeCache = t.subtreeCache := rfl

/-- The sibling value in `recompute_path_to_root_with_cache_update`. -/
def siblingScalar (t : LeanIMT) (level index : ℕ) : Bls12381 :=
  if level = 0 then t.leafScalar index
  else (t.getCachedNode level index).getD (computeNode h t level index)

/-- The loop of `recompute_path_to_root_with_cache_update`, with `n` levels to go. -/
def recomputePath : ℕ → ℕ → ℕ → Bls12381 → LeanIMT → Bls12381 × LeanIMT
  | 0, _, _, current, t => (current, t)
  | n + 1, level, index, current, t =>
      let sibling := siblingScalar h t level (if index % 2 = 0 then index + 1 else index - 1)
      let parent := if index % 2 = 0 then h current sibling else h sibling current
      recomputePath n (level + 1) (index / 2) parent
        (t.cacheSparseNode (level + 1) (index / 2) parent)

/-- `insert`, with `incremental_update`; `none` is the `Err` of a full tree. -/
def insert (leaf : Bytes32) (t : LeanIMT) : Option LeanIMT :=
  if t.capacity ≤ t.leaves.length then none
  else
    let index := t.leaves.length
    let x := frFromBytes leaf
    let t₁ := { t with leaves := t.leaves ++ [leaf] }
    let r := recomputePath h t.depth 0 index x (t₁.cacheSparseNode 0 index x)
    some { r.2 with root := frToBytes r.1 }

/-- Insert a sequence one by one. -/
def insertAll : List Bytes32 → LeanIMT → Option LeanIMT
  | [], t => some t
  | x :: xs, t => (insert h x t).bind (insertAll xs)

end

/-- The scalars of a list of words. -/
def scalars (l : List Bytes32) : List Bls12381 := l.map frFromBytes

/-- The leaf function of the tree: the inserted leaves, zero beyond them. -/
def leafFn (l : List Bytes32) : ℕ → Bls12381 := Merkle.pad 0 (scalars l)

section
variable (h : Bls12381 → Bls12381 → Bls12381)

/-- What the caches of a tree of depth `d` say about its leaves. -/
structure Inv (d : ℕ) (t : LeanIMT) : Prop where
  depth : t.depth = d
  capacity : t.capacity = if d < 32 then 2 ^ d else 2 ^ 32 - 1
  fits : t.leaves.length ≤ t.capacity
  subtree : ∀ l ≤ d, 0 < l → t.subtreeCache l = some (Merkle.zeroNode h 0 l)
  sparse : ∀ l ≤ d, ∀ i, t.sparseCache l i =
    if i * 2 ^ l < t.leaves.length then some (Merkle.node h (leafFn t.leaves) l i) else none
  root : t.root = frToBytes (Merkle.root h 0 d (scalars t.leaves))

end

variable {h : Bls12381 → Bls12381 → Bls12381} {d : ℕ}

@[simp] theorem leafScalar_eq (t : LeanIMT) (i : ℕ) : t.leafScalar i = leafFn t.leaves i := by
  simp [leafScalar, leafFn, Merkle.pad, scalars, List.getD_eq_getElem?_getD]

/-- A node that lies beyond the leaves is the zero node of its level. -/
theorem node_of_le {l : List Bytes32} {lv i : ℕ} (hi : l.length ≤ i * 2 ^ lv) :
    Merkle.node h (leafFn l) lv i = Merkle.zeroNode h 0 lv := by
  rw [← Merkle.node_const 0 lv i]
  refine Merkle.node_congr lv i fun j hj _ => ?_
  exact Merkle.pad_of_le (by simpa [scalars] using le_trans hi hj)

/-- A new leaf changes the nodes on its path only. -/
theorem node_append {l : List Bytes32} {x : Bytes32} {lv i : ℕ} (hi : i ≠ l.length / 2 ^ lv) :
    Merkle.node h (leafFn (l ++ [x])) lv i = Merkle.node h (leafFn l) lv i := by
  refine Merkle.node_congr lv i fun j h1 h2 => ?_
  have hj : j ≠ l.length := by
    rintro rfl
    exact hi (Nat.div_eq_of_lt_le h1 h2).symm
  simp only [leafFn, scalars, List.map_append, List.map_cons, List.map_nil]
  rcases Nat.lt_or_gt_of_ne hj with hlt | hgt
  · exact Merkle.pad_append_left (by simpa using hlt)
  · rw [Merkle.pad_of_le (by simpa using hgt), Merkle.pad_of_le (by simpa using hgt.le)]

/-- The nodes with a leaf below them, after one more leaf. -/
theorem mul_lt_succ_iff {n lv i : ℕ} : i * 2 ^ lv < n + 1 ↔ i = n / 2 ^ lv ∨ i * 2 ^ lv < n := by
  have hpos : 0 < 2 ^ lv := by positivity
  constructor
  · intro hlt
    rcases Nat.lt_succ_iff_lt_or_eq.1 hlt with h1 | h1
    · exact .inr h1
    · left
      rw [← h1, Nat.mul_div_cancel _ hpos]
  · rintro (rfl | h1)
    · exact Nat.lt_succ_of_le (Nat.div_mul_le_self n _)
    · omega

/-- The loop caches the roots of the empty subtrees. -/
theorem recomputeLoop_spec : ∀ (n level : ℕ) (current : Bls12381) (cache : ℕ → Option Bls12381),
    (0 < level → current = Merkle.zeroNode h 0 (level - 1)) →
    (∀ l < level, cache l = some (Merkle.zeroNode h 0 l)) →
    (0 < level + n → (recomputeLoop h n level current cache).1 =
      Merkle.zeroNode h 0 (level + n - 1)) ∧
      ∀ l < level + n, (recomputeLoop h n level current cache).2 l =
        some (Merkle.zeroNode h 0 l)
  | 0, _, _, _, hc, hz => ⟨hc, hz⟩
  | n + 1, level, current, cache, hc, hz => by
      have hnext : (if level = 0 then 0 else h current current) = Merkle.zeroNode h 0 level := by
        split
        · next h0 => rw [h0, Merkle.zeroNode]
        · next h0 =>
          rw [hc (by omega)]
          conv_rhs => rw [← Nat.sub_add_cancel (Nat.pos_of_ne_zero h0), Merkle.zeroNode]
      have := recomputeLoop_spec n (level + 1) (Merkle.zeroNode h 0 level)
        (Function.update cache level (some (Merkle.zeroNode h 0 level))) (fun _ => rfl) (by
          intro l hl
          rcases Nat.lt_succ_iff_lt_or_eq.1 hl with hlt | rfl
          · rw [Function.update_of_ne (by omega), hz l hlt]
          · rw [Function.update_self])
      rw [recomputeLoop, hnext, show level + (n + 1) = level + 1 + n by omega]
      exact this

/-- `new` yields the empty tree. -/
theorem new_inv (d : ℕ) : Inv h d (new h d) ∧ (new h d).leaves = [] := by
  have hroot : Merkle.root h 0 d (scalars []) = Merkle.zeroNode h 0 d :=
    @node_of_le h [] d 0 (by simp)
  rw [new]
  split
  · next h0 =>
    subst h0
    refine ⟨⟨rfl, rfl, by simp, by intro l h1 h2; omega, by simp, ?_⟩, rfl⟩
    rw [hroot]
    rfl
  · next h0 =>
    obtain ⟨htop, hcache⟩ := @recomputeLoop_spec h (d + 1) 0 0 (fun _ => none) (by simp) (by simp)
    refine ⟨⟨rfl, rfl, by simp, fun l h1 _ => hcache l (by omega), by simp, ?_⟩, rfl⟩
    rw [hroot]
    simpa using congrArg frToBytes (htop (by omega))

/-- The loop, from level `l` on: off the path the caches are the old ones, on it they are new up to
level `l`. -/
theorem recomputePath_spec {l₀ : List Bytes32} {x : Bytes32} {old : ℕ → ℕ → Option Bls12381}
    (hsparse : ∀ l ≤ d, ∀ i, old l i =
      if i * 2 ^ l < l₀.length then some (Merkle.node h (leafFn l₀) l i) else none) :
    ∀ (n l : ℕ) (t : LeanIMT), l + n = d → t.leaves = l₀ ++ [x] →
      (∀ l' ≤ d, 0 < l' → t.subtreeCache l' = some (Merkle.zeroNode h 0 l')) →
      (∀ l' i, i ≠ l₀.length / 2 ^ l' → t.sparseCache l' i = old l' i) →
      (∀ l' ≤ l, t.sparseCache l' (l₀.length / 2 ^ l') =
        some (Merkle.node h (leafFn (l₀ ++ [x])) l' (l₀.length / 2 ^ l'))) →
      let r := recomputePath h n l (l₀.length / 2 ^ l)
        (Merkle.node h (leafFn (l₀ ++ [x])) l (l₀.length / 2 ^ l)) t
      r.1 = Merkle.node h (leafFn (l₀ ++ [x])) d (l₀.length / 2 ^ d) ∧
        r.2.leaves = t.leaves ∧ r.2.depth = t.depth ∧ r.2.capacity = t.capacity ∧
        r.2.subtreeCache = t.subtreeCache ∧
        (∀ l' i, i ≠ l₀.length / 2 ^ l' → r.2.sparseCache l' i = old l' i) ∧
        ∀ l' ≤ d, r.2.sparseCache l' (l₀.length / 2 ^ l') =
          some (Merkle.node h (leafFn (l₀ ++ [x])) l' (l₀.length / 2 ^ l'))
  | 0, l, t, hl, _, _, hoff, hon => by
      obtain rfl : l = d := by omega
      exact ⟨rfl, rfl, rfl, rfl, rfl, hoff, hon⟩
  | n + 1, l, t, hl, hleaves, hsub, hoff, hon => by
      have hdiv : l₀.length / 2 ^ (l + 1) = l₀.length / 2 ^ l / 2 := by
        rw [pow_succ, Nat.div_div_eq_div_mul]
      -- off the path, every lookup at this level finds the node of the new tree
      have hsib : ∀ i, i ≠ l₀.length / 2 ^ l →
          siblingScalar h t l i = Merkle.node h (leafFn (l₀ ++ [x])) l i := by
        intro i hi
        rw [siblingScalar]
        split
        · next h0 => rw [leafScalar_eq, hleaves, h0, Merkle.node]
        · next h0 =>
          rw [node_append hi, getCachedNode, hoff l i hi, hsparse l (by omega) i,
            hsub l (by omega) (by omega)]
          split
          · simp
          · next hge => simp [node_of_le (not_lt.1 hge)]
      have hparent : (if l₀.length / 2 ^ l % 2 = 0
            then h (Merkle.node h (leafFn (l₀ ++ [x])) l (l₀.length / 2 ^ l))
              (siblingScalar h t l (if l₀.length / 2 ^ l % 2 = 0 then l₀.length / 2 ^ l + 1
                else l₀.length / 2 ^ l - 1))
            else h (siblingScalar h t l (if l₀.length / 2 ^ l % 2 = 0 then l₀.length / 2 ^ l + 1
                else l₀.length / 2 ^ l - 1))
              (Merkle.node h (leafFn (l₀ ++ [x])) l (l₀.length / 2 ^ l))) =
          Merkle.node h (leafFn (l₀ ++ [x])) (l + 1) (l₀.length / 2 ^ (l + 1)) := by
        rw [hdiv, Merkle.node]
        by_cases heven : l₀.length / 2 ^ l % 2 = 0
        · have h2 : 2 * (l₀.length / 2 ^ l / 2) = l₀.length / 2 ^ l := by omega
          rw [if_pos heven, if_pos heven, hsib _ (by omega), h2]
        · have h2 : 2 * (l₀.length / 2 ^ l / 2) = l₀.length / 2 ^ l - 1 := by omega
          have h3 : l₀.length / 2 ^ l - 1 + 1 = l₀.length / 2 ^ l := by omega
          rw [if_neg heven, if_neg heven, hsib _ (by omega), h2, h3]
      rw [recomputePath]
      simp only [hparent]
      rw [← hdiv]
      refine recomputePath_spec hsparse n (l + 1) _ (by omega) hleaves hsub ?_ ?_
      · intro l' i hi
        rw [← hoff l' i hi, cacheSparseNode]
        by_cases he : l' = l + 1
        · subst he
          simp [Function.update_of_ne hi]
        · simp [Function.update_of_ne he]
      · intro l' hl'
        rw [cacheSparseNode]
        by_cases he : l' = l + 1
        · subst he
          simp
        · simp only [Function.update_of_ne he]
          exact hon l' (by omega)

/-- There is room below the capacity, and the capacity is within the tree. -/
theorem Inv.lt_of_capacity {t : LeanIMT} (hI : Inv h d t) (hroom : t.leaves.length < t.capacity) :
    t.leaves.length < 2 ^ d := by
  rw [hI.capacity] at hroom
  split at hroom
  · exact hroom
  · next hd =>
    have : 2 ^ 32 ≤ 2 ^ d := Nat.pow_le_pow_right (by norm_num) (by omega)
    omega

/-- **One insertion.** Below capacity it succeeds, appends the leaf and keeps the invariant. -/
theorem insert_inv {t : LeanIMT} (hI : Inv h d t) (hroom : t.leaves.length < t.capacity)
    (x : Bytes32) : ∃ t', insert h x t = some t' ∧ Inv h d t' ∧ t'.leaves = t.leaves ++ [x] := by
  obtain rfl := hI.depth
  have hlt := hI.lt_of_capacity hroom
  have hx : leafFn (t.leaves ++ [x]) t.leaves.length = frFromBytes x := by
    have := @Merkle.pad_concat _ 0 (frFromBytes x) (scalars t.leaves)
    simpa [leafFn, scalars] using this
  have key := @recomputePath_spec h t.depth t.leaves x t.sparseCache hI.sparse t.depth 0
    ({ t with leaves := t.leaves ++ [x] }.cacheSparseNode 0 t.leaves.length (frFromBytes x))
    (by omega) rfl hI.subtree
    (by
      intro l' i hi
      rw [cacheSparseNode]
      by_cases he : l' = 0
      · subst he
        simp [Function.update_of_ne (by simpa using hi : i ≠ t.leaves.length)]
      · simp [Function.update_of_ne he])
    (by
      intro l' hl'
      obtain rfl : l' = 0 := by omega
      simp [cacheSparseNode, Merkle.node, hx])
  simp only [pow_zero, Nat.div_one, Merkle.node, hx, cacheSparseNode_leaves, cacheSparseNode_depth,
    cacheSparseNode_capacity, cacheSparseNode_subtreeCache] at key
  obtain ⟨htop, hle, hde, hca, hsu, hoff, hon⟩ := key
  simp only [insert, if_neg (not_le.2 hroom), Option.some.injEq, exists_eq_left']
  generalize recomputePath h t.depth 0 _ _ _ = r at *
  obtain ⟨top, t₂⟩ := r
  dsimp only at htop hle hde hca hsu hoff hon ⊢
  refine ⟨⟨hde, hca.trans hI.capacity, ?_, ?_, ?_, ?_⟩, hle⟩
  · simp only [hle, hca, List.length_append, List.length_singleton]
    omega
  · intro l h1 h2
    rw [hsu]
    exact hI.subtree l h1 h2
  · intro l hl i
    simp only [hle, List.length_append, List.length_singleton]
    by_cases hi : i = t.leaves.length / 2 ^ l
    · rw [if_pos (mul_lt_succ_iff.2 (.inl hi)), hi]
      exact hon l hl
    · rw [hoff l i hi, hI.sparse l hl i]
      simp only [mul_lt_succ_iff, hi, false_or, node_append hi]
  · simp only [hle, htop]
    rw [Nat.div_eq_of_lt hlt]
    rfl

/-- A full tree refuses. -/
theorem insert_full {t : LeanIMT} (hfull : t.capacity ≤ t.leaves.length) (x : Bytes32) :
    insert h x t = none := if_pos hfull

/-- **A sequence of insertions** goes in exactly when it fits. -/
theorem insertAll_spec (xs : List Bytes32) {t : LeanIMT} (hI : Inv h d t) :
    (t.leaves.length + xs.length ≤ t.capacity →
      ∃ t', insertAll h xs t = some t' ∧ Inv h d t' ∧ t'.leaves = t.leaves ++ xs) ∧
      (t.capacity < t.leaves.length + xs.length → insertAll h xs t = none) := by
  induction xs generalizing t with
  | nil => exact ⟨fun _ => ⟨t, rfl, hI, by simp⟩, fun hlt => absurd hI.fits (by simpa using hlt)⟩
  | cons x xs ih =>
      rcases Nat.lt_or_ge t.leaves.length t.capacity with hroom | hfull
      · obtain ⟨t₁, h1, hI₁, hl₁⟩ := insert_inv hI hroom x
        have hcap : t₁.capacity = t.capacity := by rw [hI₁.capacity, hI.capacity]
        obtain ⟨ihok, ihfull⟩ := ih hI₁
        simp only [hl₁, hcap, List.length_append, List.length_singleton] at ihok ihfull
        simp only [insertAll, h1, Option.bind_some, List.length_cons]
        refine ⟨fun hle => ?_, fun hlt => ihfull (by omega)⟩
        obtain ⟨t₂, h2, hI₂, hl₂⟩ := ihok (by omega)
        exact ⟨t₂, h2, hI₂, by simp [hl₂]⟩
      · refine ⟨fun hle => ?_, fun _ => by simp [insertAll, insert_full hfull]⟩
        simp only [List.length_cons] at hle
        omega

end LeanIMT

end ShadePay.Stellar
