import Mathlib.Data.Set.Function
import Mathlib.Data.List.GetD
import Mathlib.Data.List.Induction
import Mathlib.Tactic

/-!
# Zero-padded Merkle trees

The full tree of depth `d` over a leaf function, over any type with a pair hash. `node` is the
value at a level and an index, `root` the top of the tree over a list padded with a zero leaf,
`climb` the fold of an inclusion proof. `climb_path` is completeness, `climb_sound` soundness under
collision-freeness of the hash on the pairs the two computations hash, and `insertLoop_spec` the
correctness of the frontier algorithm that keeps one left sibling per level.
-/

namespace Merkle

variable {α : Type*} (h : α → α → α)

/-- The root of the subtree of height `l` all of whose leaves are `z`. -/
def zeroNode (z : α) : ℕ → α
  | 0 => z
  | l + 1 => h (zeroNode z l) (zeroNode z l)

/-- The node at level `l` and index `i` of the tree over the leaf function `f`. -/
def node (f : ℕ → α) : ℕ → ℕ → α
  | 0, i => f i
  | l + 1, i => h (node f l (2 * i)) (node f l (2 * i + 1))

/-- A list of leaves, padded with `z`. -/
def pad (z : α) (l : List α) (i : ℕ) : α := l.getD i z

/-- The root of the tree of depth `d` over the zero-padded leaves. -/
def root (z : α) (d : ℕ) (l : List α) : α := node h (pad z l) d 0

/-! ## Nodes and their leaves -/

variable {h}

/-- The leaves below a child are below its parent. -/
theorem child_range {l i c j : ℕ} (hc : c = 2 * i ∨ c = 2 * i + 1) (h1 : c * 2 ^ l ≤ j)
    (h2 : j < (c + 1) * 2 ^ l) : i * 2 ^ (l + 1) ≤ j ∧ j < (i + 1) * 2 ^ (l + 1) := by
  rw [pow_succ]
  rcases hc with rfl | rfl <;> constructor <;> nlinarith

/-- A node depends on the leaves below it only. -/
theorem node_congr {f g : ℕ → α} : ∀ (l i : ℕ),
    (∀ j, i * 2 ^ l ≤ j → j < (i + 1) * 2 ^ l → f j = g j) → node h f l i = node h g l i
  | 0, i, hfg => hfg i (by simp) (by simp)
  | l + 1, i, hfg => by
      have hl := node_congr l (2 * i) fun j h1 h2 =>
        have hr := child_range (.inl rfl) h1 h2
        hfg j hr.1 hr.2
      have hr := node_congr l (2 * i + 1) fun j h1 h2 =>
        have hr := child_range (.inr rfl) h1 h2
        hfg j hr.1 hr.2
      rw [node, node, hl, hr]

/-- A node over zero leaves is the zero node of its level. -/
theorem node_const (z : α) : ∀ l i : ℕ, node h (fun _ => z) l i = zeroNode h z l
  | 0, _ => rfl
  | l + 1, i => by rw [node, zeroNode, node_const z l, node_const z l]

/-- A hash homomorphism carries nodes to nodes. -/
theorem map_node {β : Type*} {k : β → β → β} (φ : α → β) (hφ : ∀ x y, φ (h x y) = k (φ x) (φ y))
    (f : ℕ → α) : ∀ l i, φ (node h f l i) = node k (φ ∘ f) l i
  | 0, _ => rfl
  | l + 1, i => by rw [node, node, hφ, map_node φ hφ f l, map_node φ hφ f l]

/-- Appending leaves does not change those that are there. -/
theorem pad_append_left {z : α} {l m : List α} {i : ℕ} (hi : i < l.length) :
    pad z (l ++ m) i = pad z l i := by
  rw [pad, pad, List.getD_append _ _ _ _ hi]

theorem pad_of_le {z : α} {l : List α} {i : ℕ} (hi : l.length ≤ i) : pad z l i = z := by
  rw [pad, List.getD_eq_default _ _ hi]

/-- A leaf of the list. -/
theorem pad_of_lt {z : α} {l : List α} {i : ℕ} (hi : i < l.length) : pad z l i ∈ l := by
  rw [pad, List.getD_eq_getElem _ _ hi]
  exact List.getElem_mem hi

theorem pad_concat {z x : α} {l : List α} : pad z (l ++ [x]) l.length = x := by
  simp [pad]

/-- Padded leaves are mapped with their padding. -/
theorem map_pad {β : Type*} (φ : α → β) {z : α} {l : List α} :
    φ ∘ pad z l = pad (φ z) (l.map φ) := by
  funext i
  simp [pad]

/-! ## Inclusion proofs -/

variable (h)

/-- The parent of `x` and its sibling `s`, `x` on the right when `b`. -/
def join (b : Bool) (x s : α) : α := if b then h s x else h x s

/-- Fold a leaf with the siblings of its path, from the leaf upwards. -/
def climb (x : α) : List (Bool × α) → α
  | [] => x
  | (b, s) :: p => climb (join h b x s) p

/-- The leaf index a path spells, least significant bit first. -/
def index : List (Bool × α) → ℕ
  | [] => 0
  | (b, _) :: p => b.toNat + 2 * index p

/-- The path of leaf `i` in the tree of depth `d`. -/
def path (f : ℕ → α) (d i : ℕ) : List (Bool × α) :=
  (List.range d).map fun l =>
    (decide (i / 2 ^ l % 2 = 1),
      node h f l (if i / 2 ^ l % 2 = 1 then i / 2 ^ l - 1 else i / 2 ^ l + 1))

@[simp] theorem length_path (f : ℕ → α) (d i : ℕ) : (path h f d i).length = d := by
  simp [path]

variable {h}

/-- A climb along two pieces of a path. -/
theorem climb_append (x : α) (p q : List (Bool × α)) :
    climb h x (p ++ q) = climb h (climb h x p) q := by
  induction p generalizing x with
  | nil => rfl
  | cons e p ih => obtain ⟨b, s⟩ := e; exact ih _

/-- The index along two pieces of a path. -/
theorem index_append (p q : List (Bool × α)) :
    index (p ++ q) = index p + 2 ^ p.length * index q := by
  induction p with
  | nil => simp [index]
  | cons e p ih =>
      obtain ⟨b, s⟩ := e
      simp only [List.cons_append, index, ih, List.length_cons, pow_succ]
      ring

/-- **Completeness.** Folding the leaf `i` along its path gives the node above it. -/
theorem climb_path (f : ℕ → α) (d i : ℕ) :
    climb h (f i) (path h f d i) = node h f d (i / 2 ^ d) := by
  induction d with
  | zero => simp [path, climb, node]
  | succ d ih =>
      have hsplit : path h f (d + 1) i = path h f d i ++ [(decide (i / 2 ^ d % 2 = 1),
          node h f d (if i / 2 ^ d % 2 = 1 then i / 2 ^ d - 1 else i / 2 ^ d + 1))] := by
        simp [path, List.range_succ]
      rw [hsplit, climb_append, ih, node, pow_succ, ← Nat.div_div_eq_div_mul]
      by_cases hodd : i / 2 ^ d % 2 = 1
      · have h1 : 2 * (i / 2 ^ d / 2) = i / 2 ^ d - 1 := by omega
        have h2 : 2 * (i / 2 ^ d / 2) + 1 = i / 2 ^ d := by omega
        rw [h2, h1]
        simp [climb, join, hodd]
      · have h1 : 2 * (i / 2 ^ d / 2) = i / 2 ^ d := by omega
        simp [climb, join, hodd, h1]

/-- The pairs hashed while folding `x` along a path. -/
def climbPairs (h : α → α → α) (x : α) : List (Bool × α) → Set (α × α)
  | [] => ∅
  | (b, s) :: p => insert (if b then (s, x) else (x, s)) (climbPairs h (join h b x s) p)

/-- The pairs hashed while computing a node from the leaves. -/
def nodePairs (h : α → α → α) (f : ℕ → α) : ℕ → ℕ → Set (α × α)
  | 0, _ => ∅
  | l + 1, i => insert (node h f l (2 * i), node h f l (2 * i + 1))
      (nodePairs h f l (2 * i) ∪ nodePairs h f l (2 * i + 1))

/-- The pairs a tree hashes are the pairs of children below its top. -/
theorem mem_nodePairs {f : ℕ → α} {q : α × α} : ∀ {d k : ℕ}, q ∈ nodePairs h f d k ↔
    ∃ l < d, ∃ j, j / 2 ^ (d - 1 - l) = k ∧ q = (node h f l (2 * j), node h f l (2 * j + 1))
  | 0, k => by simp [nodePairs]
  | d + 1, k => by
      have hpow : ∀ l < d, ∀ j, j / 2 ^ (d + 1 - 1 - l) = j / 2 ^ (d - 1 - l) / 2 := by
        intro l hl j
        rw [show d + 1 - 1 - l = d - 1 - l + 1 by omega, pow_succ, Nat.div_div_eq_div_mul]
      rw [nodePairs, Set.mem_insert_iff, Set.mem_union, mem_nodePairs, mem_nodePairs]
      constructor
      · rintro (rfl | ⟨l, hl, j, hj, rfl⟩ | ⟨l, hl, j, hj, rfl⟩)
        · exact ⟨d, by omega, k, by simp, rfl⟩
        · exact ⟨l, by omega, j, by rw [hpow l hl]; omega, rfl⟩
        · exact ⟨l, by omega, j, by rw [hpow l hl]; omega, rfl⟩
      · rintro ⟨l, hl, j, hj, rfl⟩
        rcases Nat.lt_succ_iff_lt_or_eq.1 hl with hlt | rfl
        · -- below the top, in the left or in the right half
          rw [hpow l hlt] at hj
          rcases Nat.mod_two_eq_zero_or_one (j / 2 ^ (d - 1 - l)) with hm | hm
          · exact .inr (.inl ⟨l, hlt, j, by omega, rfl⟩)
          · exact .inr (.inr ⟨l, hlt, j, by omega, rfl⟩)
        · simp only [Nat.add_sub_cancel, Nat.sub_self, pow_zero, Nat.div_one] at hj
          exact .inl (by rw [hj])

/-- The pairs hashed along two pieces of a path. -/
theorem climbPairs_append (x : α) (p q : List (Bool × α)) :
    climbPairs h x (p ++ q) = climbPairs h x p ∪ climbPairs h (climb h x p) q := by
  induction p generalizing x with
  | nil => simp [climbPairs, climb]
  | cons e p ih =>
      obtain ⟨b, s⟩ := e
      rw [List.cons_append, climbPairs, ih, climbPairs, climb, Set.insert_union]

/-- **Soundness.** When the hash has no collision among the pairs hashed by the fold and by the
tree, a fold that reaches a node of the tree starts at the leaf its index names. -/
theorem climb_sound {f : ℕ → α} {U : Set (α × α)} (hU : Set.InjOn (fun q => h q.1 q.2) U)
    {x : α} (p : List (Bool × α)) (i : ℕ) (hp : climbPairs h x p ⊆ U)
    (ht : nodePairs h f p.length i ⊆ U) (he : climb h x p = node h f p.length i) :
    x = f (i * 2 ^ p.length + index p) := by
  -- from the top of the path downwards: one collision-freeness step per level
  induction p using List.reverseRecOn generalizing i with
  | nil => simpa [climb, node, index] using he
  | append_singleton p e ih =>
      obtain ⟨b, s⟩ := e
      simp only [List.length_append, List.length_cons, List.length_nil, zero_add] at ht he ⊢
      rw [climbPairs_append, Set.union_subset_iff] at hp
      obtain ⟨hp, hlast⟩ := hp
      rw [nodePairs, Set.insert_subset_iff, Set.union_subset_iff] at ht
      obtain ⟨htop, hl, hr⟩ := ht
      simp only [climbPairs, Set.insert_subset_iff] at hlast
      rw [climb_append, climb, climb, node] at he
      rw [index_append, pow_succ]
      cases b with
      | false =>
          have := hU hlast.1 htop (by simpa [join] using he)
          rw [ih (2 * i) hp hl (Prod.ext_iff.1 this).1]
          simp only [index, Bool.toNat_false]
          ring_nf
      | true =>
          have := hU hlast.1 htop (by simpa [join] using he)
          rw [ih (2 * i + 1) hp hr (Prod.ext_iff.1 this).2]
          simp only [index, Bool.toNat_true]
          ring_nf

/-- **Binding.** When the hash has no collision among the pairs two trees hash, trees with the same top
have the same leaves below it. -/
theorem node_binding {f g : ℕ → α} {U : Set (α × α)} (hU : Set.InjOn (fun q => h q.1 q.2) U) :
    ∀ (d i : ℕ), nodePairs h f d i ⊆ U → nodePairs h g d i ⊆ U → node h f d i = node h g d i →
      ∀ j, i * 2 ^ d ≤ j → j < (i + 1) * 2 ^ d → f j = g j
  | 0, i, _, _, he, j, h1, h2 => by
      obtain rfl : j = i := by
        simp only [pow_zero, mul_one] at h1 h2
        omega
      exact he
  | d + 1, i, hf, hg, he, j, h1, h2 => by
      simp only [nodePairs, Set.insert_subset_iff, Set.union_subset_iff] at hf hg
      obtain ⟨hf₀, hfl, hfr⟩ := hf
      obtain ⟨hg₀, hgl, hgr⟩ := hg
      obtain ⟨hl, hr⟩ := Prod.ext_iff.1 (hU hf₀ hg₀ he)
      rw [pow_succ] at h1 h2
      -- the leaf lies below the left or below the right child
      rcases Nat.lt_or_ge j ((2 * i + 1) * 2 ^ d) with hlt | hge
      · exact node_binding hU d (2 * i) hfl hgl hl j (by nlinarith) hlt
      · exact node_binding hU d (2 * i + 1) hfr hgr hr j hge (by nlinarith)

/-! ## The frontier -/

variable (h)

/-- Insert at index `idx` of level `l` and climb `n` levels: a left child is remembered and paired
with the zero subtree, a right child is paired with the remembered left sibling. -/
def insertLoop (zeros : ℕ → α) : ℕ → ℕ → ℕ → α → (ℕ → α) → α × (ℕ → α)
  | 0, _, _, cur, filled => (cur, filled)
  | n + 1, l, idx, cur, filled =>
      if idx % 2 = 0 then
        insertLoop zeros n (l + 1) (idx / 2) (h cur (zeros l)) (Function.update filled l cur)
      else
        insertLoop zeros n (l + 1) (idx / 2) (h (filled l) cur) filled

/-- The frontier of a tree with `n` leaves, on the levels `lo ≤ l < hi`: wherever the next leaf's
path is a right child, `filled` holds the completed left sibling. -/
def Frontier (f : ℕ → α) (n lo hi : ℕ) (filled : ℕ → α) : Prop :=
  ∀ l, lo ≤ l → l < hi → n / 2 ^ l % 2 = 1 → filled l = node h f l (n / 2 ^ l - 1)

variable {h}

/-- The frontier survives a change of the leaves from `n` on: it looks at completed subtrees. -/
theorem Frontier.congr {f g : ℕ → α} {n lo hi : ℕ} {filled : ℕ → α}
    (hF : Frontier h f n lo hi filled) (hfg : ∀ j < n, f j = g j) : Frontier h g n lo hi filled := by
  intro l h1 h2 hodd
  rw [hF l h1 h2 hodd]
  refine node_congr l _ fun j _ hj => hfg j ?_
  have hle : (n / 2 ^ l - 1 + 1) * 2 ^ l ≤ n := by
    rw [Nat.sub_add_cancel (Nat.one_le_iff_ne_zero.2 fun h0 => by simp [h0] at hodd)]
    exact Nat.div_mul_le_self n (2 ^ l)
  omega

/-- Counting one leaf further moves the path's node at a level by at most one. -/
theorem succ_div_two_pow (n l : ℕ) : (n + 1) / 2 ^ l = n / 2 ^ l ∨ (n + 1) / 2 ^ l = n / 2 ^ l + 1 := by
  rw [Nat.succ_div]
  split
  · exact .inr rfl
  · exact .inl rfl

/-- The loop, from level `l` on: the running hash is the path's node, and the levels it has passed
hold the frontier of one more leaf. -/
theorem insertLoop_inv {z : α} {zeros f : ℕ → α} {n : ℕ} (d : ℕ)
    (hz : ∀ l < d, zeros l = zeroNode h z l) (hf : ∀ j, n < j → f j = z) :
    ∀ (k l : ℕ) (filled : ℕ → α), l + k = d → Frontier h f n l d filled →
      Frontier h f (n + 1) 0 l filled →
      (insertLoop h zeros k l (n / 2 ^ l) (node h f l (n / 2 ^ l)) filled).1
          = node h f d (n / 2 ^ d) ∧
        Frontier h f (n + 1) 0 d
          (insertLoop h zeros k l (n / 2 ^ l) (node h f l (n / 2 ^ l)) filled).2
  | 0, l, filled, hl, _, hnew => by
      obtain rfl : l = d := by omega
      exact ⟨rfl, hnew⟩
  | k + 1, l, filled, hl, hold, hnew => by
      have hdiv : n / 2 ^ (l + 1) = n / 2 ^ l / 2 := by
        rw [pow_succ, Nat.div_div_eq_div_mul]
      have hsucc := succ_div_two_pow n l
      by_cases heven : n / 2 ^ l % 2 = 0
      · -- left child: the right sibling holds no leaf yet
        have hright : node h f l (n / 2 ^ l + 1) = zeros l := by
          rw [hz l (by omega), ← node_const z l (n / 2 ^ l + 1)]
          refine node_congr l _ fun j hj _ => hf j ?_
          have := Nat.lt_mul_div_succ n (show 0 < 2 ^ l by positivity)
          rw [mul_comm] at this
          omega
        have hcur : h (node h f l (n / 2 ^ l)) (zeros l) = node h f (l + 1) (n / 2 ^ (l + 1)) := by
          have h2 : 2 * (n / 2 ^ l / 2) = n / 2 ^ l := by omega
          rw [hdiv, node, h2, hright]
        rw [insertLoop, if_pos heven, hcur, ← hdiv]
        refine insertLoop_inv d hz hf k (l + 1) _ (by omega) ?_ ?_
        · intro l' h1 h2 hodd
          rw [Function.update_of_ne (by omega)]
          exact hold l' (by omega) h2 hodd
        · intro l' _ h2 hodd
          rcases Nat.lt_succ_iff_lt_or_eq.1 h2 with hlt | rfl
          · rw [Function.update_of_ne (by omega)]
            exact hnew l' (by omega) hlt hodd
          · have : (n + 1) / 2 ^ l' = n / 2 ^ l' + 1 := by
              rcases hsucc with h0 | h1
              · rw [h0, heven] at hodd
                cases hodd
              · exact h1
            rw [Function.update_self, this, Nat.add_sub_cancel]
      · -- right child: its left sibling was completed earlier
        have hodd : n / 2 ^ l % 2 = 1 := by omega
        have hcur : h (filled l) (node h f l (n / 2 ^ l)) = node h f (l + 1) (n / 2 ^ (l + 1)) := by
          have h2 : 2 * (n / 2 ^ l / 2) = n / 2 ^ l - 1 := by omega
          rw [hdiv, node, h2, hold l le_rfl (by omega) hodd, Nat.sub_add_cancel (by omega)]
        rw [insertLoop, if_neg heven, hcur, ← hdiv]
        refine insertLoop_inv d hz hf k (l + 1) _ (by omega) ?_ ?_
        · exact fun l' h1 h2 ho => hold l' (by omega) h2 ho
        · intro l' _ h2 ho
          rcases Nat.lt_succ_iff_lt_or_eq.1 h2 with hlt | rfl
          · exact hnew l' (by omega) hlt ho
          · have : (n + 1) / 2 ^ l' = n / 2 ^ l' := by
              rcases hsucc with h0 | h1
              · exact h0
              · rw [h1, Nat.add_mod, hodd] at ho
                cases ho
            rw [hold l' le_rfl (by omega) hodd, this]

/-- **Correctness of the frontier.** Inserting the next leaf into the frontier of `l` computes the
root over `l ++ [x]` and leaves the frontier of `l ++ [x]`. -/
theorem insertLoop_spec {z : α} {zeros filled : ℕ → α} {d : ℕ} {l : List α} (x : α)
    (hz : ∀ i < d, zeros i = zeroNode h z i) (hlen : l.length < 2 ^ d)
    (hF : Frontier h (pad z l) l.length 0 d filled) :
    (insertLoop h zeros d 0 l.length x filled).1 = root h z d (l ++ [x]) ∧
      Frontier h (pad z (l ++ [x])) (l ++ [x]).length 0 d
        (insertLoop h zeros d 0 l.length x filled).2 := by
  have hpad : ∀ j, l.length < j → pad z (l ++ [x]) j = z := by
    intro j hj
    exact pad_of_le (by simp; omega)
  have hF' : Frontier h (pad z (l ++ [x])) l.length 0 d filled :=
    hF.congr fun j hj => (pad_append_left hj).symm
  have := insertLoop_inv (n := l.length) d hz hpad d 0 filled (by omega) hF'
    (fun l' _ h2 => absurd h2 (by omega))
  simp only [pow_zero, Nat.div_one, node, pad_concat] at this
  rw [Nat.div_eq_of_lt hlen] at this
  simpa [root] using this

/-- The empty tree has the empty frontier. -/
theorem frontier_nil {f : ℕ → α} {hi : ℕ} {filled : ℕ → α} : Frontier h f 0 0 hi filled := by
  intro l _ _ hodd
  simp at hodd

end Merkle
