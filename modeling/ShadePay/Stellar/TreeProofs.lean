import ShadePay.Stellar.LeanImt

/-!
# Queries and storage of the cached tree

The rest of `contracts/stellar/lean_imt`: `generate_proof`, `get_node` and `get_sibling`, which read
nodes through the two caches, and `to_storage` / `from_storage`, which keep the leaves and the root
and forget the caches. A tree that came back from storage fills its caches anew, so the exact account
of them that `Inv` gives is lost; `Coherent` is what remains: a remembered node is the node of the
full tree. `queries_of_run` says that no order of insertions and storage round trips can be told from
the full tree over the accepted leaves.
-/

namespace ShadePay.Stellar.LeanIMT

section
variable (h : Bls12381 → Bls12381 → Bls12381)

/-- `recompute_tree`, which `new` and `rebuild_cache_from_leaves` call on a tree without leaves. -/
def recomputeTree (t : LeanIMT) : LeanIMT :=
  if t.depth = 0 then { t with root := .ofNat 32 0 }
  else
    let r := recomputeLoop h (t.depth + 1) 0 0 t.subtreeCache
    { t with root := frToBytes r.1, subtreeCache := r.2 }

/-- `rebuild_cache_from_leaves`. -/
def rebuildCacheFromLeaves (t : LeanIMT) : LeanIMT :=
  if t.leaves = [] then recomputeTree h t
  else { t with subtreeCache := fun _ => none, sparseCache := fun _ _ => none }

/-- `to_storage`. -/
def toStorage (t : LeanIMT) : List Bytes32 × ℕ × Bytes32 := (t.leaves, t.depth, t.root)

/-- `from_storage`. -/
def fromStorage (s : List Bytes32 × ℕ × Bytes32) : LeanIMT :=
  rebuildCacheFromLeaves h
    ⟨s.1, s.2.1, if s.2.1 < 32 then 2 ^ s.2.1 else 2 ^ 32 - 1, s.2.2, fun _ => none,
      fun _ _ => none⟩

/-- The index of the other child. -/
def siblingIndex (index : ℕ) : ℕ := if index % 2 = 0 then index + 1 else index - 1

/-- The loop of `generate_proof`, with `n` levels to go. -/
def proofLoop (t : LeanIMT) : ℕ → ℕ → ℕ → List Bls12381
  | 0, _, _ => []
  | n + 1, level, index =>
      (if level = 0 then t.leafScalar (siblingIndex index)
        else computeNode h t level (siblingIndex index)) :: proofLoop t n (level + 1) (index / 2)

/-- `generate_proof`, with its special case for two leaves under a root. -/
def generateProof (t : LeanIMT) (leafIndex : ℕ) : Option (List Bls12381 × ℕ) :=
  if t.leaves.length ≤ leafIndex then none
  else if t.depth = 1 ∧ t.leaves.length = 2 then
    some ([t.leafScalar (if leafIndex = 0 then 1 else 0)], t.depth)
  else some (proofLoop h t t.depth 0 leafIndex, t.depth)

/-- `get_node`: at the bottom the word that was inserted, above it a scalar. -/
def getNode (t : LeanIMT) (level index : ℕ) : Option Bytes32 :=
  if level = 0 then t.leaves[index]?
  else if t.depth < level then none
  else some (frToBytes (computeNode h t level index))

/-- `get_sibling`. -/
def getSibling (t : LeanIMT) (level index : ℕ) : Option Bytes32 :=
  if t.depth ≤ level then none else getNode h t level (siblingIndex index)

/-- What a holder of a tree does with it between two queries. -/
inductive Op where
  | insert (leaf : Bytes32)
  /-- `from_storage` of `to_storage`. -/
  | reload

/-- One operation; a refused insertion leaves the tree. -/
def step (t : LeanIMT) : Op → LeanIMT
  | .insert leaf => (insert h leaf t).getD t
  | .reload => fromStorage h t.toStorage

/-- A sequence of operations. -/
def run (t : LeanIMT) (ops : List Op) : LeanIMT := ops.foldl (step h) t

/-- The leaf an operation offers. -/
def Op.leaf? : Op → Option Bytes32
  | .insert leaf => some leaf
  | .reload => none

end

/-! ## What a cache may remember -/

section
variable (h : Bls12381 → Bls12381 → Bls12381)

/-- At a node, what the caches remember is the node of the tree over `l`, and the level's empty
subtree is not mistaken for a node above a leaf. -/
structure Remembers (l : List Bytes32) (t : LeanIMT) (level index : ℕ) : Prop where
  sparse : ∀ v ∈ t.sparseCache level index, v = Merkle.node h (leafFn l) level index
  subtree : ∀ v ∈ t.subtreeCache level, v = Merkle.zeroNode h 0 level
  above : (t.subtreeCache level).isSome → index * 2 ^ level < l.length →
    (t.sparseCache level index).isSome

/-- A tree of depth `d` whose caches remember nodes of the full tree over its leaves, if anything. -/
structure Coherent (d : ℕ) (t : LeanIMT) : Prop where
  depth : t.depth = d
  capacity : t.capacity = if d < 32 then 2 ^ d else 2 ^ 32 - 1
  fits : t.leaves.length ≤ t.capacity
  caches : ∀ l ≤ d, ∀ i, Remembers h t.leaves t l i
  root : t.root = frToBytes (Merkle.root h 0 d (scalars t.leaves))

end

variable {h : Bls12381 → Bls12381 → Bls12381} {d : ℕ} {t : LeanIMT} {l : List Bytes32}

/-- The exact account of the caches is coherent. -/
theorem Inv.coherent (hI : Inv h d t) (hzero : ∀ v ∈ t.subtreeCache 0, v = 0) : Coherent h d t where
  depth := hI.depth
  capacity := hI.capacity
  fits := hI.fits
  caches := fun lv hlv i =>
    { sparse := fun v hv => by
        rw [hI.sparse lv hlv i] at hv
        split at hv
        · simpa using hv.symm
        · cases hv
      subtree := fun v hv => by
        rcases Nat.eq_zero_or_pos lv with rfl | hpos
        · exact hzero v hv
        · rw [hI.subtree lv hlv hpos] at hv
          simpa using hv.symm
      above := fun _ hi => by rw [hI.sparse lv hlv i, if_pos hi]; rfl }
  root := hI.root

/-- A hit of either cache is the node. -/
theorem Remembers.getCachedNode {level index : ℕ} (hR : Remembers h l t level index) :
    ∀ v ∈ t.getCachedNode level index, v = Merkle.node h (leafFn l) level index := by
  intro v hv
  rw [LeanIMT.getCachedNode] at hv
  cases hs : t.sparseCache level index with
  | some w =>
      rw [hs, Option.some_or] at hv
      exact hR.sparse v (hs ▸ hv)
  | none =>
      -- the level's empty subtree answers only where no leaf lies below
      rw [hs, Option.none_or] at hv
      have hempty : l.length ≤ index * 2 ^ level := by
        by_contra hlt
        have := hR.above (Option.isSome_iff_exists.2 ⟨v, hv⟩) (not_le.1 hlt)
        rw [hs] at this
        cases this
      rw [hR.subtree v hv, node_of_le hempty]

/-- **Reading through the caches.** Where a set of nodes is closed under children and the caches
remember the nodes of it, `compute_node_at_level_scalar` returns them. -/
theorem computeNode_eq {S : ℕ → ℕ → Prop}
    (hS : ∀ lv i, S (lv + 1) i → S lv (2 * i) ∧ S lv (2 * i + 1))
    (hR : ∀ lv ≤ t.depth, ∀ i, S lv i → Remembers h t.leaves t lv i) :
    ∀ lv ≤ t.depth, ∀ i, S lv i → computeNode h t lv i = Merkle.node h (leafFn t.leaves) lv i
  | 0, h0, i, hi => by
      rw [computeNode, leafScalar_eq, Merkle.node]
      cases hc : t.getCachedNode 0 i with
      | some v => exact (hR 0 h0 i hi).getCachedNode v hc
      | none => rfl
  | lv + 1, hlv, i, hi => by
      obtain ⟨hl, hr⟩ := hS lv i hi
      rw [computeNode, if_neg (by omega), computeNode_eq hS hR lv (by omega) _ hl,
        computeNode_eq hS hR lv (by omega) _ hr]
      cases hc : t.getCachedNode (lv + 1) i with
      | some v => exact (hR (lv + 1) hlv i hi).getCachedNode v hc
      | none => rfl

/-- A node that is computed is that of the full tree. -/
theorem Coherent.computeNode_eq (hC : Coherent h d t) {lv : ℕ} (hlv : lv ≤ d) (i : ℕ) :
    computeNode h t lv i = Merkle.node h (leafFn t.leaves) lv i := by
  obtain rfl := hC.depth
  exact @LeanIMT.computeNode_eq h t (fun _ _ => True) (fun _ _ _ => ⟨trivial, trivial⟩)
    (fun lv hlv i _ => hC.caches lv hlv i) lv hlv i trivial

/-! ## Insertion -/

/-- A node that is not above leaf `n`. -/
def Off (n level index : ℕ) : Prop := index ≠ n / 2 ^ level

/-- The children of a node off the path are off the path. -/
theorem Off.children {n level index : ℕ} (hoff : Off n (level + 1) index) :
    Off n level (2 * index) ∧ Off n level (2 * index + 1) := by
  rw [Off, pow_succ, ← Nat.div_div_eq_div_mul] at hoff
  simp only [Off]
  omega

/-- Beside the path of a new leaf, what was remembered is remembered. -/
theorem Remembers.append {x : Bytes32} {t' : LeanIMT} {lv i : ℕ} (hR : Remembers h l t lv i)
    (hoff : Off l.length lv i) (hsp : t'.sparseCache lv i = t.sparseCache lv i)
    (hsu : t'.subtreeCache = t.subtreeCache) : Remembers h (l ++ [x]) t' lv i where
  sparse v hv := by
    rw [node_append hoff]
    exact hR.sparse v (hsp ▸ hv)
  subtree v hv := hR.subtree v (hsu ▸ hv)
  above hs hi := by
    rw [List.length_append, List.length_singleton] at hi
    rcases mul_lt_succ_iff.1 hi with rfl | hlt
    · exact absurd rfl hoff
    · rw [hsp]
      exact hR.above (hsu ▸ hs) hlt

/-- On the path the loop has just written the node. -/
theorem Remembers.of_sparse {lv i : ℕ} (hsub : ∀ v ∈ t.subtreeCache lv, v = Merkle.zeroNode h 0 lv)
    (hs : t.sparseCache lv i = some (Merkle.node h (leafFn l) lv i)) : Remembers h l t lv i where
  sparse v hv := by simpa [hs] using hv.symm
  subtree := hsub
  above _ _ := by rw [hs]; rfl

/-- `recompute_path_to_root_with_cache_update` from level `lv` on, over caches that remember the
nodes beside the path and those on it up to level `lv`. -/
theorem recomputePath_coherent {l₀ : List Bytes32} {x : Bytes32} (hfit : l₀.length < 2 ^ d) :
    ∀ (n lv : ℕ) (t : LeanIMT), lv + n = d → t.depth = d → t.leaves = l₀ ++ [x] →
      (∀ l' ≤ d, ∀ i, Off l₀.length l' i ∨ l' ≤ lv → Remembers h (l₀ ++ [x]) t l' i) →
      (∀ l' ≤ d, ∀ v ∈ t.subtreeCache l', v = Merkle.zeroNode h 0 l') →
      let r := recomputePath h n lv (l₀.length / 2 ^ lv)
        (Merkle.node h (leafFn (l₀ ++ [x])) lv (l₀.length / 2 ^ lv)) t
      r.1 = Merkle.root h 0 d (scalars (l₀ ++ [x])) ∧ r.2.leaves = t.leaves ∧ r.2.depth = t.depth ∧
        r.2.capacity = t.capacity ∧ ∀ l' ≤ d, ∀ i, Remembers h (l₀ ++ [x]) r.2 l' i
  | 0, lv, t, hlv, _, _, hR, _ => by
      obtain rfl : lv = d := by omega
      refine ⟨?_, rfl, rfl, rfl, fun l' hl' i => hR l' hl' i (.inr hl')⟩
      rw [recomputePath, Nat.div_eq_of_lt hfit]
      rfl
  | n + 1, lv, t, hlv, hdepth, hleaves, hR, hsub => by
      have hdiv : l₀.length / 2 ^ (lv + 1) = l₀.length / 2 ^ lv / 2 := by
        rw [pow_succ, Nat.div_div_eq_div_mul]
      -- the sibling is beside the path, and so is everything below it
      have hsib : ∀ i, Off l₀.length lv i →
          siblingScalar h t lv i = Merkle.node h (leafFn (l₀ ++ [x])) lv i := by
        intro i hi
        rw [siblingScalar]
        split
        · next h0 => rw [leafScalar_eq, hleaves, h0, Merkle.node]
        · have hnode := LeanIMT.computeNode_eq (fun _ _ => Off.children)
            (fun l' hl' j hj => hleaves ▸ hR l' (hdepth ▸ hl') j (.inl hj)) lv (by omega) i hi
          rw [hleaves] at hnode
          cases hc : t.getCachedNode lv i with
          | some v => exact (hR lv (by omega) i (.inl hi)).getCachedNode v hc
          | none => exact hnode
      have hparent : (if l₀.length / 2 ^ lv % 2 = 0
            then h (Merkle.node h (leafFn (l₀ ++ [x])) lv (l₀.length / 2 ^ lv))
              (siblingScalar h t lv (if l₀.length / 2 ^ lv % 2 = 0 then l₀.length / 2 ^ lv + 1
                else l₀.length / 2 ^ lv - 1))
            else h (siblingScalar h t lv (if l₀.length / 2 ^ lv % 2 = 0 then l₀.length / 2 ^ lv + 1
                else l₀.length / 2 ^ lv - 1))
              (Merkle.node h (leafFn (l₀ ++ [x])) lv (l₀.length / 2 ^ lv))) =
          Merkle.node h (leafFn (l₀ ++ [x])) (lv + 1) (l₀.length / 2 ^ (lv + 1)) := by
        rw [hdiv, Merkle.node]
        by_cases heven : l₀.length / 2 ^ lv % 2 = 0
        · have h2 : 2 * (l₀.length / 2 ^ lv / 2) = l₀.length / 2 ^ lv := by omega
          rw [if_pos heven, if_pos heven, hsib _ (by rw [Off]; omega), h2]
        · have h2 : 2 * (l₀.length / 2 ^ lv / 2) = l₀.length / 2 ^ lv - 1 := by omega
          have h3 : l₀.length / 2 ^ lv - 1 + 1 = l₀.length / 2 ^ lv := by omega
          rw [if_neg heven, if_neg heven, hsib _ (by rw [Off]; omega), h2, h3]
      rw [recomputePath]
      simp only [hparent]
      rw [← hdiv]
      refine recomputePath_coherent hfit n (lv + 1) _ (by omega) hdepth hleaves ?_ hsub
      intro l' hl' i hi
      by_cases hon : l' = lv + 1 ∧ i = l₀.length / 2 ^ (lv + 1)
      · obtain ⟨rfl, rfl⟩ := hon
        refine .of_sparse (hsub _ hl') ?_
        simp [cacheSparseNode]
      · -- every other entry is the old one
        have hold : (t.cacheSparseNode (lv + 1) (l₀.length / 2 ^ (lv + 1))
            (Merkle.node h (leafFn (l₀ ++ [x])) (lv + 1) (l₀.length / 2 ^ (lv + 1)))).sparseCache l' i =
              t.sparseCache l' i := by
          by_cases he : l' = lv + 1
          · subst he
            simp [cacheSparseNode, Function.update_of_ne (fun h' => hon ⟨rfl, h'⟩)]
          · simp [cacheSparseNode, Function.update_of_ne he]
        have hR' := hR l' hl' i (by
          by_cases he : l' = lv + 1
          · subst he
            exact .inl fun h' => hon ⟨rfl, h'⟩
          · exact hi.imp_right (by omega))
        exact ⟨fun v hv => hR'.sparse v (hold ▸ hv), hR'.subtree, fun hs hlt => by
          rw [hold]
          exact hR'.above hs hlt⟩

/-- A tree below its capacity has room. -/
theorem Coherent.lt_of_capacity (hC : Coherent h d t) (hroom : t.leaves.length < t.capacity) :
    t.leaves.length < 2 ^ d := by
  rw [hC.capacity] at hroom
  split at hroom
  · exact hroom
  · next hd =>
    have : 2 ^ 32 ≤ 2 ^ d := Nat.pow_le_pow_right (by norm_num) (by omega)
    omega

/-- **One insertion**, whatever the caches still remember. -/
theorem Coherent.insert (hC : Coherent h d t) (hroom : t.leaves.length < t.capacity) (x : Bytes32) :
    ∃ t', LeanIMT.insert h x t = some t' ∧ Coherent h d t' ∧ t'.leaves = t.leaves ++ [x] := by
  obtain rfl := hC.depth
  have hx : leafFn (t.leaves ++ [x]) t.leaves.length = frFromBytes x := by
    have := @Merkle.pad_concat _ 0 (frFromBytes x) (scalars t.leaves)
    simpa [leafFn, scalars] using this
  obtain ⟨t₁, ht₁⟩ : ∃ t₁, t₁ = ({ t with leaves := t.leaves ++ [x] } : LeanIMT).cacheSparseNode 0
    t.leaves.length (frFromBytes x) := ⟨_, rfl⟩
  have hsub : ∀ l' ≤ t.depth, ∀ v ∈ t₁.subtreeCache l', v = Merkle.zeroNode h 0 l' := by
    rw [ht₁]
    exact fun l' hl' => (hC.caches l' hl' 0).subtree
  have hR : ∀ l' ≤ t.depth, ∀ i, Off t.leaves.length l' i ∨ l' ≤ 0 →
      Remembers h (t.leaves ++ [x]) t₁ l' i := by
    intro l' hl' i hi
    by_cases hon : i = t.leaves.length / 2 ^ l'
    · obtain rfl : l' = 0 := by
        rcases hi with hoff | h0
        · exact absurd hon hoff
        · omega
      obtain rfl : i = t.leaves.length := by simpa using hon
      refine .of_sparse (hsub 0 hl') ?_
      rw [ht₁, Merkle.node, hx]
      simp [cacheSparseNode]
    · refine (hC.caches l' hl' i).append hon ?_ (by rw [ht₁]; rfl)
      rw [ht₁]
      by_cases he : l' = 0
      · subst he
        simp [cacheSparseNode, Function.update_of_ne (by simpa using hon : i ≠ t.leaves.length)]
      · simp [cacheSparseNode, Function.update_of_ne he]
  have key := recomputePath_coherent (hC.lt_of_capacity hroom) t.depth 0 t₁ (by omega)
    (by rw [ht₁]; rfl) (by rw [ht₁]; rfl) hR hsub
  simp only [pow_zero, Nat.div_one, Merkle.node, hx] at key
  obtain ⟨htop, hle, hde, hca, hnew⟩ := key
  have hins : LeanIMT.insert h x t = some
      { (recomputePath h t.depth 0 t.leaves.length (frFromBytes x) t₁).2 with
        root := frToBytes (recomputePath h t.depth 0 t.leaves.length (frFromBytes x) t₁).1 } := by
    rw [LeanIMT.insert, if_neg (not_le.2 hroom), ht₁]
  generalize recomputePath h t.depth 0 t.leaves.length (frFromBytes x) t₁ = r at *
  rw [ht₁] at hle hde hca
  have hle' : r.2.leaves = t.leaves ++ [x] := hle
  refine ⟨_, hins, ⟨hde, hca.trans hC.capacity, ?_, fun l' hl' i => ?_, ?_⟩, hle'⟩
  · have hca' : r.2.capacity = t.capacity := hca
    simp only [hle', hca', List.length_append, List.length_singleton]
    omega
  · simp only [hle']
    exact ⟨(hnew l' hl' i).sparse, (hnew l' hl' i).subtree, (hnew l' hl' i).above⟩
  · simp only [hle', htop]

/-! ## Storage -/

/-- Without leaves, a tree is restored as a new one. -/
theorem fromStorage_nil (d : ℕ) (root : Bytes32) : fromStorage h ([], d, root) = new h d := by
  by_cases h0 : d = 0
  · subst h0
    rfl
  · simp [fromStorage, rebuildCacheFromLeaves, recomputeTree, new, h0]

/-- The bottom entry of the empty subtrees is the zero leaf. -/
theorem new_subtree_zero (d : ℕ) : ∀ v ∈ (new h d).subtreeCache 0, v = 0 := by
  intro v hv
  rw [new] at hv
  split at hv
  · cases hv
  · have := (@recomputeLoop_spec h (d + 1) 0 0 (fun _ => none) (by simp) (by simp)).2 0 (by omega)
    simp only [Option.mem_def] at hv
    rw [this, Merkle.zeroNode] at hv
    simpa using hv.symm

theorem new_coherent (d : ℕ) : Coherent h d (new h d) :=
  (new_inv d).1.coherent (new_subtree_zero d)

/-- **A storage round trip** keeps the leaves and the root, and what it forgets is found again. -/
theorem Coherent.reload (hC : Coherent h d t) :
    Coherent h d (fromStorage h t.toStorage) ∧ (fromStorage h t.toStorage).leaves = t.leaves := by
  obtain rfl := hC.depth
  by_cases hnil : t.leaves = []
  · have hs : fromStorage h t.toStorage = new h t.depth := by
      rw [toStorage, hnil, fromStorage_nil]
    rw [hs, hnil]
    exact ⟨new_coherent _, (new_inv _).2⟩
  · have hs : fromStorage h t.toStorage =
        { t with subtreeCache := fun _ => none, sparseCache := fun _ _ => none } := by
      rw [fromStorage, toStorage, rebuildCacheFromLeaves, if_neg hnil, hC.capacity]
    rw [hs]
    exact ⟨⟨rfl, hC.capacity, hC.fits, fun _ _ _ => ⟨by simp, by simp, by simp⟩, hC.root⟩, rfl⟩

/-! ## Runs -/

/-- One operation keeps the tree coherent and takes a leaf exactly when there is room. -/
theorem Coherent.step (hC : Coherent h d t) (op : Op) :
    Coherent h d (LeanIMT.step h t op) ∧
      (LeanIMT.step h t op).leaves = (t.leaves ++ op.leaf?.toList).take t.capacity := by
  cases op with
  | insert x =>
      rcases Nat.lt_or_ge t.leaves.length t.capacity with hroom | hfull
      · obtain ⟨t', ht', hC', hl'⟩ := hC.insert hroom x
        simp only [LeanIMT.step, ht', Option.getD_some, hl', Op.leaf?, Option.toList_some]
        exact ⟨hC', (List.take_of_length_le (by simpa using hroom)).symm⟩
      · simp only [LeanIMT.step, insert_full hfull, Option.getD_none, Op.leaf?, Option.toList_some]
        refine ⟨hC, ?_⟩
        rw [List.take_append_of_le_length hfull, List.take_of_length_le hC.fits]
  | reload =>
      obtain ⟨hC', hl'⟩ := hC.reload
      simp only [LeanIMT.step, Op.leaf?, Option.toList_none, List.append_nil]
      exact ⟨hC', by rw [hl', List.take_of_length_le hC.fits]⟩

/-- **Every run** keeps the tree coherent over the leaves it had room for. -/
theorem Coherent.run (ops : List Op) (hC : Coherent h d t) :
    Coherent h d (LeanIMT.run h t ops) ∧
      (LeanIMT.run h t ops).leaves = (t.leaves ++ ops.filterMap Op.leaf?).take t.capacity := by
  induction ops generalizing t with
  | nil =>
      refine ⟨hC, ?_⟩
      rw [List.filterMap_nil, List.append_nil, List.take_of_length_le hC.fits]
      rfl
  | cons op ops ih =>
      obtain ⟨hC₁, hl₁⟩ := hC.step op
      obtain ⟨hC₂, hl₂⟩ := ih hC₁
      have hcap : (LeanIMT.step h t op).capacity = t.capacity := by rw [hC₁.capacity, hC.capacity]
      refine ⟨hC₂, ?_⟩
      have hrun : LeanIMT.run h t (op :: ops) = LeanIMT.run h (LeanIMT.step h t op) ops := rfl
      have hsplit : (op :: ops).filterMap Op.leaf? = op.leaf?.toList ++ ops.filterMap Op.leaf? := by
        cases op <;> rfl
      rw [hrun, hl₂, hcap, hl₁, hsplit, ← List.append_assoc]
      generalize t.leaves ++ op.leaf?.toList = offered
      rw [List.take_append, List.take_append, List.take_take, min_self]
      -- a cut list leaves room for more only if nothing was cut
      rcases Nat.lt_or_ge offered.length t.capacity with hlt | hge
      · rw [List.take_of_length_le hlt.le]
      · rw [List.length_take, min_eq_left hge, Nat.sub_self, Nat.sub_eq_zero_of_le hge]

/-- **A sequence of insertions** goes in exactly when it fits. -/
theorem Coherent.insertAll (xs : List Bytes32) (hC : Coherent h d t) :
    (t.leaves.length + xs.length ≤ t.capacity →
      ∃ t', LeanIMT.insertAll h xs t = some t' ∧ Coherent h d t' ∧ t'.leaves = t.leaves ++ xs) ∧
      (t.capacity < t.leaves.length + xs.length → LeanIMT.insertAll h xs t = none) := by
  induction xs generalizing t with
  | nil => exact ⟨fun _ => ⟨t, rfl, hC, by simp⟩, fun hlt => absurd hC.fits (by simpa using hlt)⟩
  | cons x xs ih =>
      rw [List.length_cons]
      rcases Nat.lt_or_ge t.leaves.length t.capacity with hroom | hfull
      · obtain ⟨t₁, h1, hC₁, hl₁⟩ := hC.insert hroom x
        have hcap : t₁.capacity = t.capacity := by rw [hC₁.capacity, hC.capacity]
        obtain ⟨ihok, ihfull⟩ := ih hC₁
        simp only [hl₁, hcap, List.length_append, List.length_singleton] at ihok ihfull
        simp only [LeanIMT.insertAll, h1, Option.bind_some]
        refine ⟨fun hle => ?_, fun hlt => ihfull (by omega)⟩
        obtain ⟨t₂, h2, hC₂, hl₂⟩ := ihok (by omega)
        exact ⟨t₂, h2, hC₂, by simp [hl₂]⟩
      · exact ⟨fun hle => by omega, fun _ => by simp [LeanIMT.insertAll, insert_full hfull]⟩

/-! ## Queries -/

/-- The sibling is the other child. -/
theorem siblingIndex_eq (i : ℕ) : siblingIndex i = if i % 2 = 1 then i - 1 else i + 1 := by
  rw [siblingIndex]
  split <;> split <;> omega

/-- The loop collects the siblings of the path. -/
theorem Coherent.proofLoop_eq (hC : Coherent h d t) : ∀ (n lv i : ℕ), lv + n = d →
    proofLoop h t n lv (i / 2 ^ lv) = ((List.range n).map fun k =>
      Merkle.node h (leafFn t.leaves) (lv + k) (siblingIndex (i / 2 ^ (lv + k))))
  | 0, _, _, _ => rfl
  | n + 1, lv, i, hlv => by
      have hdiv : i / 2 ^ lv / 2 = i / 2 ^ (lv + 1) := by
        rw [Nat.div_div_eq_div_mul, ← pow_succ]
      have hhead : (if lv = 0 then t.leafScalar (siblingIndex (i / 2 ^ lv))
          else computeNode h t lv (siblingIndex (i / 2 ^ lv))) =
          Merkle.node h (leafFn t.leaves) lv (siblingIndex (i / 2 ^ lv)) := by
        split
        · next h0 => rw [leafScalar_eq, h0, Merkle.node]
        · exact hC.computeNode_eq (by omega) _
      rw [proofLoop, hhead, hdiv, hC.proofLoop_eq n (lv + 1) i (by omega), List.range_succ_eq_map,
        List.map_cons, List.map_map]
      simp only [Function.comp_def, Nat.succ_eq_add_one, Nat.add_assoc, Nat.add_comm 1, Nat.add_zero]

/-- **Proofs.** A leaf that was inserted has the siblings of its path as its proof; beyond the leaves
there is none. -/
theorem Coherent.generateProof_eq (hC : Coherent h d t) (i : ℕ) :
    generateProof h t i = if i < t.leaves.length
      then some ((Merkle.path h (leafFn t.leaves) d i).map Prod.snd, d) else none := by
  obtain rfl := hC.depth
  have hpath : (Merkle.path h (leafFn t.leaves) t.depth i).map Prod.snd =
      (List.range t.depth).map fun k =>
        Merkle.node h (leafFn t.leaves) k (siblingIndex (i / 2 ^ k)) := by
    rw [Merkle.path, List.map_map]
    refine List.map_congr_left fun k _ => ?_
    rw [Function.comp_apply, siblingIndex_eq]
  rw [generateProof, hpath]
  split
  · next hle => rw [if_neg (not_lt.2 hle)]
  · next hlt =>
    rw [if_pos (not_le.1 hlt)]
    split
    · next htwo =>
      -- two leaves under a root: the other one is the sibling
      obtain ⟨hd, hlen⟩ := htwo
      rw [hd, leafScalar_eq]
      have hi : i = 0 ∨ i = 1 := by omega
      rcases hi with rfl | rfl <;> rfl
    · have := hC.proofLoop_eq t.depth 0 i (by omega)
      simp only [pow_zero, Nat.div_one, zero_add] at this
      rw [this]

/-- **Nodes.** Above the leaves a query returns the node of the full tree. -/
theorem Coherent.getNode_eq (hC : Coherent h d t) (lv i : ℕ) :
    getNode h t lv i = if lv = 0 then t.leaves[i]? else if lv ≤ d
      then some (frToBytes (Merkle.node h (leafFn t.leaves) lv i)) else none := by
  obtain rfl := hC.depth
  rw [getNode]
  split
  · rfl
  · by_cases hlv : lv ≤ t.depth
    · rw [if_neg (not_lt.2 hlv), if_pos hlv, hC.computeNode_eq hlv]
    · rw [if_pos (not_le.1 hlv), if_neg hlv]

/-- A sibling is the node next to it, below the root. -/
theorem Coherent.getSibling_eq (hC : Coherent h d t) (lv i : ℕ) :
    getSibling h t lv i = if lv < d then getNode h t lv (siblingIndex i) else none := by
  obtain rfl := hC.depth
  rw [getSibling]
  split
  · next hle => rw [if_neg (not_lt.2 hle)]
  · next hlt => rw [if_pos (not_le.1 hlt)]

/-- The leaves of a tree lie within its depth. -/
theorem Coherent.length_le (hC : Coherent h d t) (hd : d ≤ 32) : t.leaves.length ≤ 2 ^ d := by
  refine hC.fits.trans ?_
  rw [hC.capacity]
  split
  · exact le_rfl
  · rw [show d = 32 by omega]
    norm_num

/-- **No run can be told from the full tree.** After any sequence of insertions and storage round
trips from the empty tree of depth `d`, the leaves are the offered ones up to the capacity, and the
root, every node, every sibling and every proof are those of the full tree over them, where an index
beyond a level above the leaves gives an empty subtree; a proof folds its leaf to the root. Below an
index `i` of level `lv` every index has 32 bits as long as `(i + 1) * 2 ^ lv` is at most `2 ^ 32`. -/
theorem queries_of_run (h : Bls12381 → Bls12381 → Bls12381) {d : ℕ} (hd : d ≤ 32) (ops : List Op) :
    let t := run h (new h d) ops
    let ls := (ops.filterMap Op.leaf?).take (new h d).capacity
    t.leaves = ls ∧ t.root = frToBytes (Merkle.root h 0 d (scalars ls)) ∧
      (∀ lv i, d < lv ∨ (i + 1) * 2 ^ lv ≤ 2 ^ 32 → getNode h t lv i =
        if lv = 0 then ls[i]? else if d < lv then none
        else if i < 2 ^ (d - lv) then some (frToBytes (Merkle.node h (leafFn ls) lv i))
        else some (frToBytes (Merkle.zeroNode h 0 lv))) ∧
      (∀ lv i, getSibling h t lv i =
        if lv < d then getNode h t lv (siblingIndex i) else none) ∧
      (∀ i, generateProof h t i = if i < ls.length
        then some ((Merkle.path h (leafFn ls) d i).map Prod.snd, d) else none) ∧
      ∀ i < ls.length, Merkle.climb h (leafFn ls i) (Merkle.path h (leafFn ls) d i) =
        frFromBytes t.root := by
  obtain ⟨hC, hl⟩ := (new_coherent (h := h) d).run ops
  simp only [(new_inv d).2, List.nil_append] at hl
  have hnodes := hC.getNode_eq
  have hproofs := hC.generateProof_eq
  have hroot := hC.root
  have hfits := hC.length_le hd
  rw [hl] at hnodes hproofs hroot hfits
  refine ⟨hl, hroot, fun lv i _ => ?_, hC.getSibling_eq, hproofs, fun i hi => ?_⟩
  · rw [hnodes]
    split
    · rfl
    · by_cases hlv : lv ≤ d
      · rw [if_pos hlv, if_neg (not_lt.2 hlv)]
        split
        · rfl
        · next hi =>
          -- the index lies beyond the leaves
          rw [node_of_le]
          calc _ ≤ 2 ^ (d - lv) * 2 ^ lv := by rw [← pow_add, Nat.sub_add_cancel hlv]; exact hfits
            _ ≤ i * 2 ^ lv := Nat.mul_le_mul_right _ (not_lt.1 hi)
      · rw [if_neg hlv, if_pos (not_le.1 hlv)]
  · rw [Merkle.climb_path, hroot, frFromBytes_frToBytes, Nat.div_eq_of_lt (by omega)]
    rfl

/-- A proof for the first of two leaves, after a reload and an insertion that finds no room. -/
theorem queries_of_run_two : generateProof (fun a b => a + b)
    (run (fun a b => a + b) (new (fun a b => a + b) 1)
      [.insert (.ofNat 32 5), .reload, .insert (.ofNat 32 7), .reload, .insert (.ofNat 32 9)]) 0 =
    some ([frFromBytes (.ofNat 32 7)], 1) :=
  (queries_of_run (fun a b => a + b) (by norm_num) _).2.2.2.2.1 0

end ShadePay.Stellar.LeanIMT
