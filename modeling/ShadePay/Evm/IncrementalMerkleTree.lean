import ShadePay.Evm.Basic
import ShadePay.Lib.Merkle

/-!
# The frontier tree

`contracts/arc/src/IncrementalMerkleTree.sol`, for any pair hash on words. `construct` is the
constructor and `insert` the internal `_insert`; `Inv` is what every tree built by them satisfies
(`construct_inv`, `insert_inv`): the frontier of the inserted leaves, the current root, and the
known roots as the roots of the prefixes of the leaf sequence.
-/

namespace ShadePay.Evm

open Guard

/-- The storage of `IncrementalMerkleTree`. No function reads `leaves`, the leaves in the order of
their insertion: the statements about the tree do. -/
structure IncrementalMerkleTree where
  filledSubtrees : ℕ → ℕ
  zeros : ℕ → ℕ
  nextLeafIndex : ℕ
  roots : ℕ → ℕ
  currentRootIndex : ℕ
  knownRoots : ℕ → Bool
  leaves : List ℕ

/-- `ROOT_HISTORY_SIZE`. -/
def rootHistorySize : ℕ := 30

namespace IncrementalMerkleTree

section
variable (h : ℕ → ℕ → ℕ)

/-- The constructor's loop from level `i` on: `zeros` and `filledSubtrees` receive the same hashes. -/
def constructLoop : ℕ → ℕ → ℕ → (ℕ → ℕ) → ℕ × (ℕ → ℕ)
  | 0, _, current, zeros => (current, zeros)
  | n + 1, i, current, zeros =>
      constructLoop n (i + 1) (h current current) (Function.update zeros i (h current current))

/-- The constructor. -/
def construct (levels : ℕ) : Except Error IncrementalMerkleTree := do
  require (0 < levels ∧ levels < 32) .badLevels
  let (current, zeros) := constructLoop h (levels - 1) 1 0 fun _ => 0
  let initialRoot := h current current
  return {
    filledSubtrees := zeros
    zeros := zeros
    nextLeafIndex := 0
    roots := Function.update (fun _ => 0) 0 initialRoot
    currentRootIndex := 0
    knownRoots := Function.update (fun _ => false) initialRoot true
    leaves := [] }

variable (levels : ℕ)

/-- `_insert`: the index of the new leaf, and the tree that holds it. -/
def insert (leaf : ℕ) (t : IncrementalMerkleTree) : Except Error (ℕ × IncrementalMerkleTree) := do
  require (leaf < bn254) .leafGeField
  require (t.nextLeafIndex ≠ 2 ^ levels) .merkleTreeFull
  let (currentHash, filled) :=
    Merkle.insertLoop h t.zeros levels 0 t.nextLeafIndex leaf t.filledSubtrees
  let newRootIndex := (t.currentRootIndex + 1) % rootHistorySize
  return (t.nextLeafIndex, { t with
    filledSubtrees := filled
    nextLeafIndex := t.nextLeafIndex + 1
    roots := Function.update t.roots newRootIndex currentHash
    currentRootIndex := newRootIndex
    knownRoots := Function.update t.knownRoots currentHash true
    leaves := t.leaves ++ [leaf] })

/-- `getRoot`. -/
def getRoot (t : IncrementalMerkleTree) : ℕ := t.roots t.currentRootIndex

/-- `isKnownRoot`. -/
def isKnownRoot (t : IncrementalMerkleTree) (root : ℕ) : Bool := root != 0 && t.knownRoots root

/-- Insert a sequence one by one: the indices given out, and the tree. -/
def insertAll : List ℕ → IncrementalMerkleTree → Except Error (List ℕ × IncrementalMerkleTree)
  | [], t => .ok ([], t)
  | x :: xs, t => do
      let (i, t') ← insert h levels x t
      let (is, t'') ← insertAll xs t'
      return (i :: is, t'')

/-- What the tree's storage says about the inserted leaves. -/
structure Inv (t : IncrementalMerkleTree) : Prop where
  zeros : ∀ i < levels, t.zeros i = Merkle.zeroNode h 0 i
  count : t.nextLeafIndex = t.leaves.length
  capacity : t.leaves.length ≤ 2 ^ levels
  canonical : ∀ x ∈ t.leaves, x < bn254
  frontier : Merkle.Frontier h (Merkle.pad 0 t.leaves) t.leaves.length 0 levels t.filledSubtrees
  ring : t.currentRootIndex < rootHistorySize
  root : t.getRoot = Merkle.root h 0 levels t.leaves
  known : ∀ r, t.knownRoots r = true ↔ ∃ l, l <+: t.leaves ∧ r = Merkle.root h 0 levels l

end

variable {h : ℕ → ℕ → ℕ} {levels : ℕ}

/-- The constructor's loop computes the zero nodes. -/
theorem constructLoop_spec : ∀ (n i current : ℕ) (zeros : ℕ → ℕ), 0 < i →
    current = Merkle.zeroNode h 0 (i - 1) → (∀ j < i, zeros j = Merkle.zeroNode h 0 j) →
    (constructLoop h n i current zeros).1 = Merkle.zeroNode h 0 (i + n - 1) ∧
      ∀ j < i + n, (constructLoop h n i current zeros).2 j = Merkle.zeroNode h 0 j
  | 0, _, _, _, _, hc, hz => ⟨hc, hz⟩
  | n + 1, i, current, zeros, hi, hc, hz => by
      have hnext : h current current = Merkle.zeroNode h 0 i := by
        conv_rhs => rw [← Nat.sub_add_cancel hi, Merkle.zeroNode, ← hc]
      have hz' : ∀ j < i + 1, Function.update zeros i (h current current) j =
          Merkle.zeroNode h 0 j := by
        intro j hj
        rcases Nat.lt_succ_iff_lt_or_eq.1 hj with hlt | rfl
        · rw [Function.update_of_ne (by omega), hz j hlt]
        · rw [Function.update_self, hnext]
      have := constructLoop_spec n (i + 1) (h current current) _ (by omega) hnext hz'
      rw [constructLoop, show i + (n + 1) = i + 1 + n by omega]
      exact this

/-- The root over no leaves is the zero node. -/
theorem root_nil : Merkle.root h 0 levels [] = Merkle.zeroNode h 0 levels := by
  have : Merkle.pad 0 ([] : List ℕ) = fun _ => 0 := by funext i; simp [Merkle.pad]
  rw [Merkle.root, this, Merkle.node_const]

/-- The constructor succeeds on its range of depths and yields the tree of no leaves. -/
theorem construct_inv (h0 : 0 < levels) (h1 : levels < 32) :
    ∃ t, construct h levels = .ok t ∧ Inv h levels t ∧ t.leaves = [] := by
  obtain ⟨hcur, hz⟩ := @constructLoop_spec h (levels - 1) 1 0 (fun _ => 0) (by omega)
    (by simp [Merkle.zeroNode]) (by
      intro j hj
      obtain rfl : j = 0 := by omega
      rfl)
  rw [show 1 + (levels - 1) - 1 = levels - 1 by omega] at hcur
  have hroot : h (constructLoop h (levels - 1) 1 0 fun _ => 0).1
      (constructLoop h (levels - 1) 1 0 fun _ => 0).1 = Merkle.root h 0 levels [] := by
    rw [root_nil, hcur]
    conv_rhs => rw [← Nat.sub_add_cancel h0, Merkle.zeroNode]
  refine ⟨_, by rw [construct, require_of ⟨h0, h1⟩]; rfl, ?_, rfl⟩
  refine ⟨fun i hi => hz i (by omega), rfl, by simp, by simp, Merkle.frontier_nil,
    (by decide : 0 < rootHistorySize), ?_, ?_⟩
  · simpa [getRoot] using hroot
  · intro r
    rw [hroot]
    constructor
    · intro hr
      by_cases he : r = Merkle.root h 0 levels []
      · exact ⟨[], List.nil_prefix, he⟩
      · simp [Function.update_of_ne he] at hr
    · rintro ⟨l, hl, rfl⟩
      rw [List.prefix_nil.1 hl]
      simp

/-- A leaf goes in exactly when it is canonical and there is room, at the next index. -/
theorem insert_ok_iff {t : IncrementalMerkleTree} (hI : Inv h levels t) (leaf : ℕ) :
    (∃ r, insert h levels leaf t = .ok r) ↔ leaf < bn254 ∧ t.leaves.length < 2 ^ levels := by
  have := hI.capacity
  simp only [insert, bind_eq_ok, require_eq_ok, exists_unit, hI.count, pure_eq_ok, exists_and_left,
    exists_eq', and_true]
  constructor
  · rintro ⟨h1, h2⟩
    exact ⟨h1, by omega⟩
  · rintro ⟨h1, h2⟩
    exact ⟨h1, by omega⟩

/-- A full tree refuses. -/
theorem insert_full {t : IncrementalMerkleTree} (hI : Inv h levels t)
    (hfull : t.leaves.length = 2 ^ levels) {leaf : ℕ} (hleaf : leaf < bn254) :
    insert h levels leaf t = .error .merkleTreeFull := by
  rw [insert, require_of hleaf, ok_bind]
  exact require_bind_of_not (by simp [hI.count, hfull])

/-- **One insertion.** It appends the leaf and keeps the invariant. -/
theorem insert_inv {t t' : IncrementalMerkleTree} {leaf i : ℕ} (hI : Inv h levels t)
    (hins : insert h levels leaf t = .ok (i, t')) :
    Inv h levels t' ∧ t'.leaves = t.leaves ++ [leaf] ∧ i = t.leaves.length := by
  obtain ⟨hleaf, hroom⟩ := (insert_ok_iff hI leaf).1 ⟨_, hins⟩
  obtain ⟨hroot, hfront⟩ := Merkle.insertLoop_spec leaf hI.zeros hroom hI.frontier
  simp only [insert, bind_eq_ok, require_eq_ok, exists_unit, pure_eq_ok, Prod.mk.injEq, hI.count]
    at hins
  obtain ⟨-, -, rfl, rfl⟩ := hins
  refine ⟨⟨hI.zeros, by simp, by simp; omega, ?_, hfront, ?_, ?_, ?_⟩, rfl, rfl⟩
  · intro x hx
    rcases List.mem_append.1 hx with hx | hx
    · exact hI.canonical x hx
    · rwa [List.mem_singleton.1 hx]
  · exact Nat.mod_lt _ (by decide)
  · simpa [getRoot] using hroot
  · intro r
    simp only [hroot]
    constructor
    · intro hr
      by_cases he : r = Merkle.root h 0 levels (t.leaves ++ [leaf])
      · exact ⟨_, List.prefix_refl _, he⟩
      · rw [Function.update_of_ne he] at hr
        obtain ⟨l, hl, rfl⟩ := (hI.known r).1 hr
        exact ⟨l, hl.trans (List.prefix_append _ _), rfl⟩
    · rintro ⟨l, hl, rfl⟩
      by_cases he : Merkle.root h 0 levels l = Merkle.root h 0 levels (t.leaves ++ [leaf])
      · rw [he]
        simp
      · rcases List.prefix_concat_iff.1 hl with rfl | hl
        · exact absurd rfl he
        · rw [Function.update_of_ne he]
          exact (hI.known _).2 ⟨l, hl, rfl⟩

/-- **A sequence of insertions.** A sequence of canonical leaves that fits goes in, at consecutive
indices. -/
theorem insertAll_spec (xs : List ℕ) {t : IncrementalMerkleTree} (hI : Inv h levels t)
    (hcanon : ∀ x ∈ xs, x < bn254) (hroom : t.leaves.length + xs.length ≤ 2 ^ levels) :
    ∃ t', insertAll h levels xs t =
        .ok ((List.range xs.length).map (t.leaves.length + ·), t') ∧
      Inv h levels t' ∧ t'.leaves = t.leaves ++ xs := by
  induction xs generalizing t with
  | nil => exact ⟨t, rfl, hI, by simp⟩
  | cons x xs ih =>
      simp only [List.length_cons] at hroom
      obtain ⟨⟨i, t₁⟩, h1⟩ := (insert_ok_iff hI x).2 ⟨hcanon x (by simp), by omega⟩
      obtain ⟨hI₁, hl₁, rfl⟩ := insert_inv hI h1
      obtain ⟨t₂, h2, hI₂, hl₂⟩ := ih hI₁ (fun y hy => hcanon y (by simp [hy]))
        (by rw [hl₁]; simp; omega)
      refine ⟨t₂, ?_, hI₂, by simp [hl₂, hl₁]⟩
      simp only [insertAll, h1, h2, ok_bind, hl₁, List.length_append, List.length_singleton]
      simp [List.range_succ_eq_map, pure, Except.pure, Function.comp_def, Nat.add_assoc,
        Nat.add_comm 1]

/-- `isKnownRoot` as a statement about the leaf sequence. -/
theorem isKnownRoot_iff {t : IncrementalMerkleTree} (hI : Inv h levels t) (r : ℕ) :
    t.isKnownRoot r = true ↔ r ≠ 0 ∧ ∃ l, l <+: t.leaves ∧ r = Merkle.root h 0 levels l := by
  simp [isKnownRoot, hI.known]

end IncrementalMerkleTree

end ShadePay.Evm
