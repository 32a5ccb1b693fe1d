import ShadePay.Circuit.Inclusion
import ShadePay.Circuit.Templates

/-!
# Which inputs are hashed

No hash into a field is injective on all lists, so freedom from collisions is asked on a set `U` of
inputs: those on which anybody evaluates Poseidon. `Note.Hashed` and `SpendInput.Hashed` say that an
assignment's own evaluations are in `U`; then a commitment has one opening (`Note.commitment_inj`)
and a spent note is a leaf of every tree with that root (`SpendsNote.leaf`, `SpendsNote.label`).
-/

namespace ShadePay

section
variable {F : Type}

/-- Opening the note evaluates Poseidon on inputs of `U` only. -/
def Note.Hashed (P : List F → F) (U : Set (List F)) (n : Note F) : Prop := ∀ l ∈ n.inputs P, l ∈ U

/-- A commitment has one opening. -/
theorem Note.commitment_inj {P : List F → F} {U : Set (List F)} (hU : Set.InjOn P U) {n m : Note F}
    (hn : n.Hashed P U) (hm : m.Hashed P U) (h : n.commitment P = m.commitment P) : n = m := by
  simp only [Note.Hashed, Note.inputs, List.mem_cons, List.not_mem_nil, or_false, forall_eq_or_imp,
    forall_eq] at hn hm
  have houter := hU hn.2.2 hm.2.2 h
  simp only [List.cons.injEq, and_true] at houter
  have h1 := hU hn.1 hm.1 houter.1
  have h2 := hU hn.2.1 hm.2.1 houter.2
  simp only [List.cons.injEq, and_true] at h1 h2
  cases n
  cases m
  simp_all

/-- No collision of Poseidon on `U` is none of the pair hash on the pairs of `U`. -/
theorem injOn_hash2 {P : List F → F} {U : Set (List F)} (hU : Set.InjOn P U) :
    Set.InjOn (fun q => hash2 P q.1 q.2) {q : F × F | [q.1, q.2] ∈ U} := by
  intro a ha b hb hab
  have := hU ha hb hab
  simp only [List.cons.injEq, and_true] at this
  exact Prod.ext this.1 this.2

end

section
variable {p : ℕ} [Fact p.Prime]

/-- The circuit's evaluations on an input note and on its two paths are in `U`. -/
structure SpendInput.Hashed (P : List (ZMod p) → ZMod p) (U : Set (List (ZMod p))) (d k : ℕ)
    (i : SpendInput (ZMod p)) (n : Note (ZMod p)) : Prop where
  note : n.Hashed P U
  state : ∀ {root indices nodes}, MerkleProof P d (n.commitment P) i.stateIndex i.stateSiblings root
    indices nodes → ∀ j < d, [(foldPair i.stateSiblings indices nodes j).1,
      (foldPair i.stateSiblings indices nodes j).2] ∈ U
  label : ∀ {root indices nodes}, MerkleProof P k n.label i.labelIndex i.labelSiblings root
    indices nodes → ∀ j < k, [(foldPair i.labelSiblings indices nodes j).1,
      (foldPair i.labelSiblings indices nodes j).2] ∈ U

/-- The pairs hashed by the full tree over `f` are in `U`. -/
def TreeHashed (P : List (ZMod p) → ZMod p) (U : Set (List (ZMod p))) (f : ℕ → ZMod p) (d : ℕ) :
    Prop :=
  ∀ q ∈ Merkle.nodePairs (hash2 P) f d 0, [q.1, q.2] ∈ U

variable {P : List (ZMod p) → ZMod p} {U : Set (List (ZMod p))} {d k : ℕ} {i : SpendInput (ZMod p)}
  {n : Note (ZMod p)} {stateRoot associationRoot poolId chainId nullifierHash : ZMod p}

/-- **A spent note is a leaf** of the tree whose root it was proved against. -/
theorem SpendsNote.leaf [WideModulus p] (hU : Set.InjOn P U) (hd : d ≤ 253)
    (h : SpendsNote P d k i n stateRoot associationRoot poolId chainId nullifierHash)
    (hi : i.Hashed P U d k n) {f : ℕ → ZMod p} (hf : TreeHashed P U f d)
    (hroot : stateRoot = Merkle.node (hash2 P) f d 0) :
    ∃ j < 2 ^ d, n.commitment P = f j := by
  obtain ⟨indices, nodes, hproof⟩ := h.state
  have := hproof.sound hd (injOn_hash2 hU) (hi.state hproof) hf hroot
  exact ⟨_, this⟩

/-- **A spent note's label is listed** in the tree whose root is the association root. -/
theorem SpendsNote.label [WideModulus p] (hU : Set.InjOn P U) (hk : k ≤ 253)
    (h : SpendsNote P d k i n stateRoot associationRoot poolId chainId nullifierHash)
    (hi : i.Hashed P U d k n) {f : ℕ → ZMod p} (hf : TreeHashed P U f k)
    (hroot : associationRoot = Merkle.node (hash2 P) f k 0) :
    ∃ j < 2 ^ k, n.label = f j := by
  obtain ⟨indices, nodes, hproof⟩ := h.association
  have := hproof.sound hk (injOn_hash2 hU) (hi.label hproof) hf hroot
  exact ⟨_, this⟩

end

end ShadePay
