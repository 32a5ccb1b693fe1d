import ShadePay.Circuit.Compliance
import ShadePay.Stellar.TreeProofs
import ShadePay.Lib.Json
import ShadePay.Lib.Guard

/-!
# The compliance witness

`packages/proving/src/compliance.ts`: `buildComplianceWitness` looks a label up in the allow list,
checks that the deny list ascends, looks for the two neighbours around the label and asks
`coinutils merkle-proof` (`handle_merkle_proof` of the vendored patch) for three paths. Labels are
texts: the allow list is searched by text, the deny list compared through `BigInt`.
`buildComplianceWitness_spec` says when the builder returns, and that the circuit holds of what it
returns.

How coinutils reads a decimal text, `decimal_string_to_bls_scalar`, is a parameter.
-/

namespace ShadePay.Proving

open Guard Stellar

/-- What `buildComplianceWitness` throws. -/
inductive ComplianceError where
  /-- `label not in allow set`. -/
  | notAllowed
  /-- `deny labels must be strictly sorted ascending`. -/
  | notSorted
  /-- `no adjacent deny leaves bound the label (is it denied, or out of sentinel range?)`. -/
  | notBounded
  /-- `SyntaxError`, from `BigInt`. -/
  | syntaxError
  /-- A failed `coinutils merkle-proof`. -/
  | merkleProof
deriving DecidableEq

/-- `ComplianceParams`, without the names of scratch files. -/
structure ComplianceParams where
  label : List Char
  allowLabels : List (List Char)
  denyLabels : List (List Char)
  policyId : List Char

/-- `MProof`. -/
structure MProof where
  root : Bls12381
  leafIndex : ℕ
  siblings : List Bls12381

section
variable (P : List Bls12381 → Bls12381) (scalar : List Char → Option Bls12381)

/-- The insertions of `handle_merkle_proof`. -/
def insertLabels : List (List Char) → LeanIMT → Option LeanIMT
  | [], tree => some tree
  | c :: cs, tree => do
      let fr ← scalar c
      let tree ← LeanIMT.insert (hash2 P) (frToBytes fr) tree
      insertLabels cs tree

/-- `handle_merkle_proof`. -/
def handleMerkleProof (commitments : List (List Char)) (leafIndex depth : ℕ) : Option MProof := do
  let tree ← insertLabels P scalar commitments (LeanIMT.new (hash2 P) depth)
  let (siblings, _) ← LeanIMT.generateProof (hash2 P) tree leafIndex
  return ⟨frFromBytes tree.root, leafIndex, siblings⟩

/-- `merkleProof`, at its default depth. -/
def merkleProof (leaves : List (List Char)) (index : ℕ) : Except ComplianceError MProof :=
  match handleMerkleProof P scalar leaves index 2 with
  | some π => .ok π
  | none => .error .merkleProof

/-- `BigInt(s)`. -/
def labelValue (s : List Char) : Except ComplianceError ℤ :=
  match Text.toBigInt s with
  | some z => .ok z
  | none => .error .syntaxError

/-- The loop that checks the order of the deny labels. -/
def checkSorted : List (List Char) → Except ComplianceError Unit
  | a :: b :: rest => do
      let hi ← labelValue b
      let lo ← labelValue a
      require (lo < hi) .notSorted
      checkSorted (b :: rest)
  | _ => .ok ()

/-- The loop that finds the neighbours of the label, from index `i` on. -/
def findLo (label : List Char) : ℕ → List (List Char) → Except ComplianceError ℕ
  | i, a :: b :: rest => do
      let lo ← labelValue a
      let x ← labelValue label
      if lo < x then
        let hi ← labelValue b
        if x < hi then return i
        else findLo label (i + 1) (b :: rest)
      else findLo label (i + 1) (b :: rest)
  | _, _ => .error .notBounded

/-- The witness record. -/
structure ComplianceWitness where
  allowRoot : Bls12381
  denyRoot : Bls12381
  policyId : List Char
  label : List Char
  allowIndex : ℕ
  allowSiblings : List Bls12381
  denyLo : List Char
  denyLoIndex : ℕ
  denyLoSiblings : List Bls12381
  denyHi : List Char
  denyHiIndex : ℕ
  denyHiSiblings : List Bls12381

/-- `buildComplianceWitness`. -/
def buildComplianceWitness (p : ComplianceParams) : Except ComplianceError ComplianceWitness := do
  let allowIdx := p.allowLabels.idxOf p.label
  require (allowIdx < p.allowLabels.length) .notAllowed
  checkSorted p.denyLabels
  let loIdx ← findLo p.label 0 p.denyLabels
  let allowP ← merkleProof P scalar p.allowLabels allowIdx
  let loP ← merkleProof P scalar p.denyLabels loIdx
  let hiP ← merkleProof P scalar p.denyLabels (loIdx + 1)
  return {
    allowRoot := allowP.root
    denyRoot := loP.root
    policyId := p.policyId
    label := p.label
    allowIndex := allowIdx
    allowSiblings := allowP.siblings
    denyLo := p.denyLabels.getD loIdx []
    denyLoIndex := loIdx
    denyLoSiblings := loP.siblings
    denyHi := p.denyLabels.getD (loIdx + 1) []
    denyHiIndex := loIdx + 1
    denyHiSiblings := hiP.siblings }

end

/-- A text as a signal: the witness calculator takes `BigInt` of it, modulo the prime. -/
def signalOf (s : List Char) : Option Bls12381 := (Text.toBigInt s).map Int.cast

/-- The signals a witness assigns, with the circuit's output. -/
def ComplianceWitness.signals (w : ComplianceWitness) :
    Option (CompliancePub Bls12381 × ComplianceInput Bls12381) := do
  let policyId ← signalOf w.policyId
  let label ← signalOf w.label
  let denyLo ← signalOf w.denyLo
  let denyHi ← signalOf w.denyHi
  return (⟨1, w.allowRoot, w.denyRoot, policyId⟩,
    { label := label
      allowIndex := w.allowIndex
      allowSiblings := fun i => w.allowSiblings.getD i 0
      denyLo := denyLo
      denyLoIndex := w.denyLoIndex
      denyLoSiblings := fun i => w.denyLoSiblings.getD i 0
      denyHi := denyHi
      denyHiIndex := w.denyHiIndex
      denyHiSiblings := fun i => w.denyHiSiblings.getD i 0 })

/-- A list of texts spells a list of numbers, digit by digit. -/
def SpellsAll (texts : List (List Char)) (ns : List ℕ) : Prop :=
  List.Forall₂ (fun s n => Text.ofDigits 10 s = some n) texts ns

/-! ## The paths -/

section
variable {P : List Bls12381 → Bls12381} {scalar : List Char → Option Bls12381} {texts : List (List Char)}
  {ns : List ℕ}

theorem SpellsAll.length (h : SpellsAll texts ns) : texts.length = ns.length := List.Forall₂.length_eq h

/-- The text at a place spells its number. -/
theorem SpellsAll.getD (h : SpellsAll texts ns) {i : ℕ} (hi : i < ns.length) :
    Text.ofDigits 10 (texts.getD i []) = some ns[i] := by
  have hi' : i < texts.length := h.length ▸ hi
  rw [List.getD_eq_getElem _ _ hi']
  exact List.Forall₂.get h hi' hi

/-- The insertions put in the labels as scalars. -/
theorem insertLabels_eq (hscalar : ∀ s n, Text.ofDigits 10 s = some n → n < bls12381 →
    scalar s = some ((n : ℕ) : Bls12381)) (h : SpellsAll texts ns) (hns : ∀ n ∈ ns, n < bls12381) (t : LeanIMT) :
    insertLabels P scalar texts t =
      LeanIMT.insertAll (hash2 P) (ns.map fun n : ℕ => frToBytes (n : Bls12381)) t := by
  induction h generalizing t with
  | nil => rfl
  | cons hs _ ih =>
      rw [insertLabels, hscalar _ _ hs (hns _ (by simp)), List.map_cons, LeanIMT.insertAll]
      simp only [Option.bind_eq_bind, Option.bind_some]
      congr 1
      exact funext fun t' => ih (fun n hn => hns n (by simp [hn])) t'

/-- The leaves of the tree coinutils builds are those the circuit looks at. -/
theorem leafFn_labels (ns : List ℕ) :
    LeanIMT.leafFn (ns.map fun n : ℕ => frToBytes (n : Bls12381)) = labelLeaves bls12381 ns := by
  simp only [LeanIMT.leafFn, LeanIMT.scalars, List.map_map, Function.comp_def, frFromBytes_frToBytes]
  rfl

/-- **`coinutils merkle-proof`** returns the root of the zero-padded tree and the siblings of the
leaf, when the labels fit and the leaf is one of them. -/
theorem handleMerkleProof_eq (hscalar : ∀ s n, Text.ofDigits 10 s = some n → n < bls12381 →
    scalar s = some ((n : ℕ) : Bls12381)) (h : SpellsAll texts ns) (hns : ∀ n ∈ ns, n < bls12381) {d : ℕ}
    (hd : d < 32) (i : ℕ) :
    handleMerkleProof P scalar texts i d = if ns.length ≤ 2 ^ d ∧ i < ns.length
      then some ⟨Merkle.node (hash2 P) (labelLeaves bls12381 ns) d 0, i,
        (Merkle.path (hash2 P) (labelLeaves bls12381 ns) d i).map Prod.snd⟩
      else none := by
  have hnew := LeanIMT.new_coherent (h := hash2 P) d
  have hempty := (LeanIMT.new_inv (h := hash2 P) d).2
  have hcap := hnew.capacity
  rw [if_pos hd] at hcap
  obtain ⟨hok, hfull⟩ := hnew.insertAll (ns.map fun n : ℕ => frToBytes (n : Bls12381))
  simp only [hempty, hcap, List.length_nil, zero_add, List.length_map, List.nil_append] at hok hfull
  rw [handleMerkleProof, insertLabels_eq hscalar h hns]
  rcases Nat.lt_or_ge (2 ^ d) ns.length with hlt | hge
  · rw [hfull hlt, if_neg fun hc => by omega]
    rfl
  · obtain ⟨t, ht, hC, hl⟩ := hok hge
    have hroot : frFromBytes t.root = Merkle.node (hash2 P) (labelLeaves bls12381 ns) d 0 := by
      rw [hC.root, frFromBytes_frToBytes, ← leafFn_labels, ← hl]
      rfl
    simp only [ht, Option.bind_eq_bind, Option.bind_some, hC.generateProof_eq i]
    rw [hl, List.length_map, leafFn_labels]
    by_cases hi : i < ns.length
    · rw [if_pos hi, if_pos ⟨hge, hi⟩, Option.bind_some, hroot]
      rfl
    · rw [if_neg hi, if_neg fun hc => hi hc.2]
      rfl

end

/-! ## The two searches -/

section
variable {texts : List (List Char)} {ns : List ℕ} {label : List Char} {x : ℕ}

/-- A decimal text is read as its label. -/
theorem labelValue_eq {s : List Char} {n : ℕ} (h : Text.ofDigits 10 s = some n) :
    labelValue s = .ok (n : ℤ) := by
  rw [labelValue, Text.toBigInt_of_ofDigits h]

/-- The check passes on the strictly ascending lists. -/
theorem checkSorted_eq_ok (h : SpellsAll texts ns) :
    checkSorted texts = .ok () ↔ ns.Pairwise (· < ·) := by
  rw [← List.isChain_iff_pairwise]
  induction texts generalizing ns with
  | nil =>
      obtain rfl := List.forall₂_nil_left_iff.1 h
      simp [checkSorted]
  | cons a rest ih =>
      obtain ⟨n, ns', ha, hrest, rfl⟩ := List.forall₂_cons_left_iff.1 h
      cases rest with
      | nil =>
          obtain rfl := List.forall₂_nil_left_iff.1 hrest
          simp [checkSorted]
      | cons b rest =>
          obtain ⟨m, ns'', hb, hrest', rfl⟩ := List.forall₂_cons_left_iff.1 hrest
          rw [checkSorted, labelValue_eq ha, labelValue_eq hb, List.isChain_cons_cons, ← ih hrest]
          simp

/-- The search returns the first index whose entry and successor enclose the label. -/
theorem findLo_eq_ok (h : SpellsAll texts ns) (hx : Text.ofDigits 10 label = some x) {i k : ℕ} :
    findLo label i texts = .ok k → ∃ j, ∃ hj : j + 1 < ns.length, k = i + j ∧
      ns.get ⟨j, Nat.lt_of_succ_lt hj⟩ < x ∧ x < ns.get ⟨j + 1, hj⟩ := by
  induction texts generalizing ns i with
  | nil => exact fun hk => by cases hk
  | cons a rest ih =>
      obtain ⟨n, ns', ha, hrest, rfl⟩ := List.forall₂_cons_left_iff.1 h
      cases rest with
      | nil => exact fun hk => by cases hk
      | cons b rest =>
          obtain ⟨m, ns'', hb, hrest', rfl⟩ := List.forall₂_cons_left_iff.1 hrest
          intro hk
          rw [findLo, labelValue_eq ha, labelValue_eq hb, labelValue_eq hx] at hk
          simp only [ok_bind, Nat.cast_lt] at hk
          have hskip : findLo label (i + 1) (b :: rest) = .ok k → ∃ j,
              ∃ hj : j + 1 < (n :: m :: ns'').length, k = i + j ∧
                (n :: m :: ns'').get ⟨j, Nat.lt_of_succ_lt hj⟩ < x ∧
                x < (n :: m :: ns'').get ⟨j + 1, hj⟩ := by
            intro hk
            obtain ⟨j, hj, rfl, h1, h2⟩ := ih hrest hk
            exact ⟨j + 1, by simpa using hj, by omega, h1, h2⟩
          split at hk
          · split at hk
            · cases hk
              exact ⟨0, by simp, rfl, ‹_›, ‹_›⟩
            · exact hskip hk
          · exact hskip hk

/-- The search returns when there are such neighbours. -/
theorem findLo_returns (h : SpellsAll texts ns) (hx : Text.ofDigits 10 label = some x) {i j : ℕ}
    (hj : j + 1 < ns.length) (hlo : ns.get ⟨j, Nat.lt_of_succ_lt hj⟩ < x)
    (hhi : x < ns.get ⟨j + 1, hj⟩) :
    ∃ k, findLo label i texts = .ok k := by
  induction texts generalizing ns i j with
  | nil =>
      obtain rfl := List.forall₂_nil_left_iff.1 h
      simp at hj
  | cons a rest ih =>
      obtain ⟨n, ns', ha, hrest, rfl⟩ := List.forall₂_cons_left_iff.1 h
      cases rest with
      | nil =>
          obtain rfl := List.forall₂_nil_left_iff.1 hrest
          simp at hj
      | cons b rest =>
          obtain ⟨m, ns'', hb, hrest', rfl⟩ := List.forall₂_cons_left_iff.1 hrest
          rw [findLo, labelValue_eq ha, labelValue_eq hb, labelValue_eq hx]
          simp only [ok_bind, Nat.cast_lt]
          cases j with
          | zero =>
              have hlo' : n < x := hlo
              have hhi' : x < m := hhi
              exact ⟨i, by rw [if_pos hlo', if_pos hhi']; rfl⟩
          | succ j =>
              obtain ⟨k, hk⟩ := ih (i := i + 1) hrest (by simpa using hj) hlo hhi
              split
              · split
                · exact ⟨i, rfl⟩
                · exact ⟨k, hk⟩
              · exact ⟨k, hk⟩

end

/-! ## What the builder returns -/

section
variable {P : List Bls12381 → Bls12381} {scalar : List Char → Option Bls12381} {texts : List (List Char)}
  {ns : List ℕ} {p : ComplianceParams} {allow deny : List ℕ} {x m : ℕ}

/-- The builder's proof of a place in a list of four labels at most. -/
theorem merkleProof_eq_ok (hscalar : ∀ s n, Text.ofDigits 10 s = some n → n < bls12381 →
    scalar s = some ((n : ℕ) : Bls12381)) (h : SpellsAll texts ns) (hns : ∀ n ∈ ns, n < 2 ^ 252) (i : ℕ)
    (π : MProof) : merkleProof P scalar texts i = .ok π ↔ ns.length ≤ 4 ∧ i < ns.length ∧
      π = ⟨Merkle.node (hash2 P) (labelLeaves bls12381 ns) 2 0, i,
        (Merkle.path (hash2 P) (labelLeaves bls12381 ns) 2 i).map Prod.snd⟩ := by
  have hlt : 2 ^ 252 ≤ bls12381 := by decide
  rw [merkleProof, handleMerkleProof_eq hscalar h (fun n hn => lt_of_lt_of_le (hns n hn) hlt)
    (by norm_num)]
  by_cases hc : ns.length ≤ 2 ^ 2 ∧ i < ns.length
  · rw [if_pos hc]
    constructor
    · rintro ⟨⟩
      exact ⟨hc.1, hc.2, rfl⟩
    · rintro ⟨-, -, rfl⟩
      rfl
  · rw [if_neg hc]
    exact ⟨nofun, fun he => absurd ⟨he.1, he.2.1⟩ hc⟩

/-- A decimal text is read as its signal. -/
theorem signalOf_eq {s : List Char} {n : ℕ} (h : Text.ofDigits 10 s = some n) :
    signalOf s = some ((n : ℕ) : Bls12381) := by
  rw [signalOf, Text.toBigInt_of_ofDigits h, Option.map_some, Int.cast_natCast]

/-- The siblings the builder writes are the honest ones. -/
theorem getD_path (P : List Bls12381 → Bls12381) (f : ℕ → Bls12381) {d i l : ℕ} (hl : l < d) :
    ((Merkle.path (hash2 P) f d i).map Prod.snd).getD l 0 = siblingsOf P f i l := by
  rw [Merkle.path, List.map_map, List.getD_eq_getElem _ _ (by simpa using hl)]
  simp [siblingsOf]

/-- **The compliance builder.** On texts that spell labels of the circuit's range it returns exactly
when the label is listed as allowed, the two lists fit their trees, and the deny list ascends, does not
hold the label and encloses it; and then the circuit holds of the signals, at the roots of the lists. -/
theorem buildComplianceWitness_spec (hscalar : ∀ s n, Text.ofDigits 10 s = some n → n < bls12381 →
    scalar s = some ((n : ℕ) : Bls12381)) (hallow : SpellsAll p.allowLabels allow)
    (hdeny : SpellsAll p.denyLabels deny) (hx : Text.ofDigits 10 p.label = some x)
    (hm : Text.ofDigits 10 p.policyId = some m) (hallow' : ∀ y ∈ allow, y < 2 ^ 252)
    (hdeny' : ∀ y ∈ deny, y < 2 ^ 252) :
    ((∃ w, buildComplianceWitness P scalar p = .ok w) ↔
      p.label ∈ p.allowLabels ∧ allow.length ≤ 4 ∧ deny.length ≤ 4 ∧ deny.Pairwise (· < ·) ∧
        x ∉ deny ∧ (∃ a ∈ deny, a < x) ∧ ∃ b ∈ deny, x < b) ∧
      ∀ w, buildComplianceWitness P scalar p = .ok w → ∃ s, w.signals = some s ∧
        s.1 = .ofLists P 2 2 allow deny m ∧ s.2.label = x ∧
          ComplianceMembership P 2 2 252 s.1 s.2 := by
  have hmem : p.allowLabels.idxOf p.label < p.allowLabels.length ↔ p.label ∈ p.allowLabels :=
    List.idxOf_lt_length_iff
  refine ⟨⟨?_, ?_⟩, ?_⟩
  · rintro ⟨w, hw⟩
    simp only [buildComplianceWitness, bind_eq_ok, require_eq_ok, exists_unit, hmem,
      checkSorted_eq_ok hdeny, merkleProof_eq_ok hscalar hallow hallow',
      merkleProof_eq_ok hscalar hdeny hdeny'] at hw
    obtain ⟨hin, hs, k, hk, -, ⟨ha4, -, -⟩, -, ⟨hd4, -, -⟩, -⟩ := hw
    obtain ⟨j, hj, -, hlo, hhi⟩ := findLo_eq_ok hdeny hx hk
    exact ⟨hin, ha4, hd4, hs, (between_neighbours_iff hs).1 ⟨j, hj, hlo, hhi⟩⟩
  · rintro ⟨hin, ha4, hd4, hs, hbetween⟩
    obtain ⟨j, hj, hlo, hhi⟩ := (between_neighbours_iff hs).2 hbetween
    obtain ⟨k, hk⟩ := findLo_returns (i := 0) hdeny hx hj hlo hhi
    obtain ⟨j', hj', hkj, -, -⟩ := findLo_eq_ok hdeny hx hk
    have hidx : p.allowLabels.idxOf p.label < allow.length := hallow.length ▸ hmem.2 hin
    simp only [buildComplianceWitness, bind_eq_ok, require_eq_ok, exists_unit, hmem,
      checkSorted_eq_ok hdeny, merkleProof_eq_ok hscalar hallow hallow',
      merkleProof_eq_ok hscalar hdeny hdeny']
    exact ⟨_, hin, hs, k, hk, _, ⟨ha4, hidx, rfl⟩, _, ⟨hd4, by omega, rfl⟩, _, ⟨hd4, by omega, rfl⟩, rfl⟩
  · intro w hw
    simp only [buildComplianceWitness, bind_eq_ok, require_eq_ok, exists_unit, hmem,
      checkSorted_eq_ok hdeny, merkleProof_eq_ok hscalar hallow hallow',
      merkleProof_eq_ok hscalar hdeny hdeny'] at hw
    obtain ⟨hin, hs, k, hk, πa, ⟨ha4, hia, rfl⟩, πl, ⟨hd4, hil, rfl⟩, πh, ⟨-, hih, rfl⟩, hw⟩ := hw
    cases hw
    obtain ⟨j, hj, hkj, hlo, hhi⟩ := findLo_eq_ok hdeny hx hk
    simp only [List.get_eq_getElem] at hlo hhi
    obtain rfl : k = j := by omega
    -- the text found in the allow list spells the label
    have hlabel : allow[p.allowLabels.idxOf p.label] = x := by
      have hspell := hallow.getD hia
      rw [List.getD_eq_getElem _ _ (hmem.2 hin), List.getElem_idxOf, hx] at hspell
      exact (Option.some.inj hspell).symm
    have hhonest := @complianceMembership_honest _ _ P 2 2 252 _ allow deny _ k m le_rfl hia (by omega)
      hj (by omega) (hdeny' _ (List.getElem_mem _)) ⟨by omega, by omega⟩
    refine ⟨_, by simp only [ComplianceWitness.signals, signalOf_eq hm, signalOf_eq hx,
      signalOf_eq (hdeny.getD hil), signalOf_eq (hdeny.getD hih)]; rfl, rfl, rfl, ?_⟩
    have hcongr := hhonest.congr (fun l hl => getD_path P (labelLeaves bls12381 allow) hl)
      (fun l hl => getD_path P (labelLeaves bls12381 deny) hl)
      (fun l hl => getD_path P (labelLeaves bls12381 deny) hl)
    simp only [ComplianceInput.honest, labelLeaves_of_lt hia, labelLeaves_of_lt hil,
      labelLeaves_of_lt hih, hlabel] at hcongr
    exact hcongr

/-- The label 7 is allowed, and stands between 5 and 9 on the deny list. -/
theorem buildComplianceWitness_spec_seven : ∃ w s,
    buildComplianceWitness (fun _ => 0) (fun s => (Text.ofDigits 10 s).map Nat.cast)
        ⟨['7'], [['3'], ['7']], [['5'], ['9']], ['1']⟩ = .ok w ∧
      w.signals = some s ∧ ComplianceMembership (fun _ => 0) 2 2 252 s.1 s.2 := by
  obtain ⟨hiff, hholds⟩ := @buildComplianceWitness_spec (fun _ => 0)
    (fun s => (Text.ofDigits 10 s).map Nat.cast) ⟨['7'], [['3'], ['7']], [['5'], ['9']], ['1']⟩
    [3, 7] [5, 9] 7 1 (fun s n hs _ => by rw [hs]; rfl)
    (.cons (by decide) (.cons (by decide) .nil)) (.cons (by decide) (.cons (by decide) .nil))
    (by decide) (by decide) (by simp) (by simp)
  obtain ⟨w, hw⟩ := hiff.2 (by simp)
  obtain ⟨s, hs, -, -, hm⟩ := hholds w hw
  exact ⟨w, s, hw, hs, hm⟩

end

end ShadePay.Proving
