import ShadePay.Circuit.Honest
import ShadePay.Circuit.Comparators

/-!
# The compliance circuit

`circuits/compliance_membership`: a label is a leaf of the allow tree and lies strictly between two
adjacent leaves of the sorted deny tree. `complianceMembership_iff` says what the circuit decides: the
labels it can be satisfied for, at the roots of two zero-padded trees, are the allowed ones that the
deny list brackets and does not hold. Neither padding helps a prover: a zero is never above a leaf.
-/

namespace ShadePay

/-- The public signals, the output `ok` first. -/
structure CompliancePub (α : Type) where
  ok : α
  allowRoot : α
  denyRoot : α
  policyId : α

/-- The private inputs. -/
structure ComplianceInput (F : Type) where
  label : F
  allowIndex : F
  allowSiblings : ℕ → F
  denyLo : F
  denyLoIndex : F
  denyLoSiblings : ℕ → F
  denyHi : F
  denyHiIndex : F
  denyHiSiblings : ℕ → F

/-- `ComplianceMembership(allowDepth, denyDepth, rangeBits)`. -/
structure ComplianceMembership {F : Type} [Field F] (P : List F → F)
    (allowDepth denyDepth rangeBits : ℕ) (pub : CompliancePub F) (w : ComplianceInput F) : Prop where
  /-- `allowRoot === allowP.out`. -/
  allowP : MerkleRoot P allowDepth w.label w.allowIndex w.allowSiblings pub.allowRoot
  /-- `denyRoot === loP.out`. -/
  loP : MerkleRoot P denyDepth w.denyLo w.denyLoIndex w.denyLoSiblings pub.denyRoot
  /-- `denyRoot === hiP.out`. -/
  hiP : MerkleRoot P denyDepth w.denyHi w.denyHiIndex w.denyHiSiblings pub.denyRoot
  rLo : InRange rangeBits w.denyLo
  rLab : InRange rangeBits w.label
  rHi : InRange rangeBits w.denyHi
  /-- `ltLo.out === 1`. -/
  ltLo : LessThan rangeBits w.denyLo w.label 1
  /-- `ltHi.out === 1`. -/
  ltHi : LessThan rangeBits w.label w.denyHi 1
  /-- `denyHiIndex === denyLoIndex + 1`. -/
  adjacent : w.denyHiIndex = w.denyLoIndex + 1
  /-- `ok <== 1`. -/
  ok : pub.ok = 1

/-! ## Comparing small numbers -/

section
variable {p : ℕ} [Fact p.Prime] [WideModulus p] {n : ℕ}

/-- On operands within its width, `LessThan` compares. -/
theorem lessThan_one_of_lt (hn : n ≤ 252) {a b : ZMod p} (ha : a.val < 2 ^ n) (hb : b.val < 2 ^ n) :
    LessThan n a b 1 ↔ a.val < b.val := by
  have hp : 2 ^ (n + 1) < p :=
    lt_of_le_of_lt (Nat.pow_le_pow_right (by norm_num) (by omega)) WideModulus.wide
  have hval : (a + 2 ^ n - b).val = a.val + 2 ^ n - b.val := by
    have hcast : a + 2 ^ n - b = ((a.val + 2 ^ n - b.val : ℕ) : ZMod p) := by
      rw [Nat.cast_sub (by omega)]
      push_cast
      rw [ZMod.natCast_zmod_val, ZMod.natCast_zmod_val]
    rw [hcast, ZMod.val_cast_of_lt]
    rw [pow_succ] at hp
    omega
  rw [lessThan_one_iff hn, hval]
  omega

end

/-! ## Strictly ascending lists -/

section
variable {ds : List ℕ} {x : ℕ}

/-- In an ascending list, the numbers between two neighbours are those strictly inside the list's
range that it does not hold. -/
theorem between_neighbours_iff (hs : ds.Pairwise (· < ·)) :
    (∃ i, ∃ hi : i + 1 < ds.length, ds[i] < x ∧ x < ds[i + 1]) ↔
      x ∉ ds ∧ (∃ a ∈ ds, a < x) ∧ ∃ b ∈ ds, x < b := by
  have hmono : ∀ {i j : ℕ} (hi : i < ds.length) (hj : j < ds.length), i < j → ds[i] < ds[j] :=
    fun hi hj hij => List.pairwise_iff_getElem.1 hs _ _ hi hj hij
  constructor
  · rintro ⟨i, hi, hlo, hhi⟩
    refine ⟨fun hx => ?_, ⟨_, List.getElem_mem _, hlo⟩, _, List.getElem_mem _, hhi⟩
    obtain ⟨j, hj, rfl⟩ := List.getElem_of_mem hx
    -- a listed number is not above the lower neighbour and not below the upper one
    rcases Nat.lt_or_ge i j with hij | hij
    · rcases Nat.eq_or_lt_of_le (Nat.succ_le_of_lt hij) with heq | hlt
      · simp only [← heq, Nat.succ_eq_add_one] at hhi
        omega
      · have := hmono hi hj hlt
        omega
    · rcases Nat.eq_or_lt_of_le hij with heq | hlt
      · subst heq
        omega
      · have := hmono hj (by omega) hlt
        omega
  · rintro ⟨hx, ⟨a, ha, hax⟩, b, hb, hxb⟩
    obtain ⟨j, hj, rfl⟩ := List.getElem_of_mem ha
    obtain ⟨k, hk, rfl⟩ := List.getElem_of_mem hb
    -- the first entry above `x` and the one before it
    have hex : ∃ m, ∃ hm : m < ds.length, x < ds[m] := ⟨k, hk, hxb⟩
    obtain ⟨hm, hxm⟩ := Nat.find_spec hex
    have hpos : 0 < Nat.find hex := by
      by_contra h0
      have h0' : Nat.find hex = 0 := by omega
      simp only [h0'] at hxm
      rcases Nat.eq_zero_or_pos j with rfl | hj0
      · omega
      · have := hmono (by omega) hj hj0
        omega
    obtain ⟨m, hm'⟩ := Nat.exists_eq_succ_of_ne_zero hpos.ne'
    simp only [hm', Nat.succ_eq_add_one] at hm hxm
    refine ⟨m, hm, ?_, hxm⟩
    have hnot := Nat.find_min hex (m := m) (by omega)
    push Not at hnot
    have hne : ds[m] ≠ x := fun he => hx (he ▸ List.getElem_mem _)
    have := hnot (by omega)
    omega

end

/-! ## What the circuit decides -/

section
variable {p : ℕ} [Fact p.Prime] {P : List (ZMod p) → ZMod p} {U : Set (List (ZMod p))}
  {ad dd n : ℕ} {w : ComplianceInput (ZMod p)} {pub : CompliancePub (ZMod p)}

/-- What the three paths of an assignment hash is in `U`. -/
structure ComplianceInput.Hashed (P : List (ZMod p) → ZMod p) (U : Set (List (ZMod p))) (ad dd : ℕ)
    (w : ComplianceInput (ZMod p)) : Prop where
  allow : ∀ {root indices nodes}, MerkleProof P ad w.label w.allowIndex w.allowSiblings root
    indices nodes → ∀ j < ad, [(foldPair w.allowSiblings indices nodes j).1,
      (foldPair w.allowSiblings indices nodes j).2] ∈ U
  lo : ∀ {root indices nodes}, MerkleProof P dd w.denyLo w.denyLoIndex w.denyLoSiblings root
    indices nodes → ∀ j < dd, [(foldPair w.denyLoSiblings indices nodes j).1,
      (foldPair w.denyLoSiblings indices nodes j).2] ∈ U
  hi : ∀ {root indices nodes}, MerkleProof P dd w.denyHi w.denyHiIndex w.denyHiSiblings root
    indices nodes → ∀ j < dd, [(foldPair w.denyHiSiblings indices nodes j).1,
      (foldPair w.denyHiSiblings indices nodes j).2] ∈ U

/-- The leaves of a list of labels, as the circuit sees them. -/
def labelLeaves (p : ℕ) (ds : List ℕ) : ℕ → ZMod p := Merkle.pad 0 (ds.map Nat.cast)

/-- A leaf is the label at its place. -/
theorem labelLeaves_of_lt {ds : List ℕ} {i : ℕ} (hi : i < ds.length) :
    labelLeaves p ds i = (ds[i] : ℕ) := by
  simp [labelLeaves, Merkle.pad, hi]

theorem labelLeaves_of_le {ds : List ℕ} {i : ℕ} (hi : ds.length ≤ i) : labelLeaves p ds i = 0 := by
  simp [labelLeaves, Merkle.pad, hi]

/-- The public signals at the roots of an allow list and a deny list. -/
def CompliancePub.ofLists (P : List (ZMod p) → ZMod p) (ad dd : ℕ) (allow deny : List ℕ)
    (policyId : ZMod p) : CompliancePub (ZMod p) :=
  ⟨1, Merkle.node (hash2 P) (labelLeaves p allow) ad 0,
    Merkle.node (hash2 P) (labelLeaves p deny) dd 0, policyId⟩

/-- The assignment of the label at leaf `k` of the allow list, between the leaves `i` and `i + 1` of
the deny list. -/
def ComplianceInput.honest (P : List (ZMod p) → ZMod p) (allow deny : List ℕ) (k i : ℕ) :
    ComplianceInput (ZMod p) where
  label := labelLeaves p allow k
  allowIndex := k
  allowSiblings := siblingsOf P (labelLeaves p allow) k
  denyLo := labelLeaves p deny i
  denyLoIndex := i
  denyLoSiblings := siblingsOf P (labelLeaves p deny) i
  denyHi := labelLeaves p deny (i + 1)
  denyHiIndex := (i + 1 : ℕ)
  denyHiSiblings := siblingsOf P (labelLeaves p deny) (i + 1)

/-- What an honest assignment hashes. -/
theorem ComplianceInput.honest_hashed [WideModulus p] {allow deny : List ℕ} {k i : ℕ} (had : ad ≤ 253)
    (hdd : dd ≤ 253) (hk : k < 2 ^ ad) (hi : i + 1 < 2 ^ dd)
    (ha : TreeHashed P U (labelLeaves p allow) ad) (hd : TreeHashed P U (labelLeaves p deny) dd) :
    (ComplianceInput.honest P allow deny k i).Hashed P U ad dd where
  allow h _ hj := honest_foldPair had hk rfl ha h hj
  lo h _ hj := honest_foldPair hdd (by omega) rfl hd h hj
  hi h _ hj := honest_foldPair hdd hi rfl hd h hj

/-- A label of `n` bits is read back from the field. -/
theorem val_label [WideModulus p] {n x : ℕ} (hn : n ≤ 252) (hx : x < 2 ^ n) :
    ((x : ℕ) : ZMod p).val = x := by
  have hp : 2 ^ n ≤ p :=
    le_trans (Nat.pow_le_pow_right (by norm_num) (by omega)) (le_of_lt WideModulus.wide)
  rw [ZMod.val_natCast, Nat.mod_eq_of_lt (lt_of_lt_of_le hx hp)]

/-- **Completeness.** A listed label between two neighbours of the deny list satisfies the circuit. -/
theorem complianceMembership_honest [WideModulus p] {allow deny : List ℕ} {k i : ℕ}
    {policyId : ZMod p} (hn : n ≤ 252) (hk : k < allow.length) (hka : k < 2 ^ ad)
    (hi : i + 1 < deny.length) (hid : i + 1 < 2 ^ dd) (hhi : deny[i + 1] < 2 ^ n)
    (hlt : deny[i] < allow[k] ∧ allow[k] < deny[i + 1]) :
    ComplianceMembership P ad dd n (.ofLists P ad dd allow deny policyId)
      (.honest P allow deny k i) := by
  obtain ⟨hlo, hup⟩ := hlt
  have hvlo : (labelLeaves p deny i).val = deny[i] := by
    rw [labelLeaves_of_lt (by omega), val_label hn (by omega)]
  have hvhi : (labelLeaves p deny (i + 1)).val = deny[i + 1] := by
    rw [labelLeaves_of_lt hi, val_label hn hhi]
  have hvlab : (labelLeaves p allow k).val = allow[k] := by
    rw [labelLeaves_of_lt hk, val_label hn (by omega)]
  refine ⟨merkleRoot_node P (labelLeaves p allow) hka,
    merkleRoot_node P (labelLeaves p deny) (by omega), merkleRoot_node P (labelLeaves p deny) hid,
    (inRange_iff (by omega) _).2 ?_, (inRange_iff (by omega) _).2 ?_,
    (inRange_iff (by omega) _).2 ?_, (lessThan_one_of_lt hn ?_ ?_).2 ?_,
    (lessThan_one_of_lt hn ?_ ?_).2 ?_, ?_, rfl⟩
  all_goals simp only [ComplianceInput.honest, hvlo, hvhi, hvlab]
  all_goals first | omega | push_cast; rfl

/-- `MerkleProof(depth)` reads `depth` siblings. -/
theorem MerkleRoot.congr {d : ℕ} {leaf leafIndex root : ZMod p} {s s' : ℕ → ZMod p}
    (hs : ∀ l < d, s' l = s l) (h : MerkleRoot P d leaf leafIndex s root) :
    MerkleRoot P d leaf leafIndex s' root := by
  obtain ⟨indices, nodes, hp⟩ := h
  exact ⟨indices, nodes, hp.indexToPath, hp.init, fun l hl => by rw [hp.step l hl, hs l hl], hp.result⟩

/-- Only the siblings within the depths matter. -/
theorem ComplianceMembership.congr (h : ComplianceMembership P ad dd n pub w) {sa sl sh : ℕ → ZMod p}
    (ha : ∀ l < ad, sa l = w.allowSiblings l) (hl : ∀ l < dd, sl l = w.denyLoSiblings l)
    (hh : ∀ l < dd, sh l = w.denyHiSiblings l) :
    ComplianceMembership P ad dd n pub
      { w with allowSiblings := sa, denyLoSiblings := sl, denyHiSiblings := sh } :=
  ⟨h.allowP.congr ha, h.loP.congr hl, h.hiP.congr hh, h.rLo, h.rLab, h.rHi, h.ltLo, h.ltHi, h.adjacent,
    h.ok⟩

/-- **Soundness.** Against the roots of an allow list and an ascending deny list, the label is listed
and lies between two neighbours. -/
theorem ComplianceMembership.bracketed [WideModulus p] (hU : Set.InjOn P U) {allow deny : List ℕ}
    {policyId : ZMod p} (had : ad ≤ 253) (hdd : dd ≤ 252) (hn : n ≤ 252)
    (ha : TreeHashed P U (labelLeaves p allow) ad) (hd : TreeHashed P U (labelLeaves p deny) dd)
    (hallow : ∀ y ∈ allow, y < 2 ^ n) (hdeny : ∀ y ∈ deny, y < 2 ^ n) (hw : w.Hashed P U ad dd)
    (h : ComplianceMembership P ad dd n (.ofLists P ad dd allow deny policyId) w) :
    w.label.val ∈ allow ∧
      ∃ i, ∃ hi : i + 1 < deny.length, deny[i] < w.label.val ∧ w.label.val < deny[i + 1] := by
  obtain ⟨ia, na, hpa⟩ := h.allowP
  obtain ⟨il, nl, hpl⟩ := h.loP
  obtain ⟨ih, nh, hph⟩ := h.hiP
  obtain ⟨-, hlab⟩ := hpa.sound had (injOn_hash2 hU) (hw.allow hpa) ha rfl
  obtain ⟨hilt, hlo⟩ := hpl.sound (by omega) (injOn_hash2 hU) (hw.lo hpl) hd rfl
  obtain ⟨-, hhi⟩ := hph.sound (by omega) (injOn_hash2 hU) (hw.hi hph) hd rfl
  have hrLo := (inRange_iff (by omega) _).1 h.rLo
  have hrLab := (inRange_iff (by omega) _).1 h.rLab
  have hrHi := (inRange_iff (by omega) _).1 h.rHi
  have h1 := (lessThan_one_of_lt hn hrLo hrLab).1 h.ltLo
  have h2 := (lessThan_one_of_lt hn hrLab hrHi).1 h.ltHi
  -- the two indices are neighbours as numbers: the sum does not wrap around the modulus
  have hidx : w.denyHiIndex.val = w.denyLoIndex.val + 1 := by
    have hp : 2 ^ 252 < p := lt_of_le_of_lt (Nat.pow_le_pow_right (by norm_num) (by norm_num))
      WideModulus.wide
    have hpow : 2 ^ dd ≤ 2 ^ 252 := Nat.pow_le_pow_right (by norm_num) hdd
    have hp1 : (1 : ZMod p).val = 1 := ZMod.val_one'' (by omega)
    rw [h.adjacent, ZMod.val_add_of_lt (by omega), hp1]
  rw [hidx] at hhi
  constructor
  · -- a padding leaf is zero, and the label is above a leaf
    rcases Nat.lt_or_ge w.allowIndex.val allow.length with hlt | hge
    · rw [labelLeaves_of_lt hlt] at hlab
      rw [hlab, val_label hn (hallow _ (List.getElem_mem _))]
      exact List.getElem_mem _
    · rw [labelLeaves_of_le hge] at hlab
      rw [hlab, ZMod.val_zero] at h1
      omega
  · rcases Nat.lt_or_ge (w.denyLoIndex.val + 1) deny.length with hlt | hge
    · refine ⟨_, hlt, ?_, ?_⟩
      · rw [labelLeaves_of_lt (by omega)] at hlo
        rwa [hlo, val_label hn (hdeny _ (List.getElem_mem _))] at h1
      · rw [labelLeaves_of_lt hlt] at hhi
        rwa [hhi, val_label hn (hdeny _ (List.getElem_mem _))] at h2
    · rw [labelLeaves_of_le hge] at hhi
      rw [hhi, ZMod.val_zero] at h2
      omega

/-- **What the circuit decides.** At the roots of an allow list and a strictly ascending deny list, a
label below the range can be proved compliant exactly when it is allowed, not denied, and strictly
between two denied labels. -/
theorem complianceMembership_iff [WideModulus p] (hU : Set.InjOn P U) {allow deny : List ℕ}
    (policyId : ZMod p) (had : ad ≤ 253) (hdd : dd ≤ 252) (hn : n ≤ 252)
    (ha : TreeHashed P U (labelLeaves p allow) ad) (hd : TreeHashed P U (labelLeaves p deny) dd)
    (hafit : allow.length ≤ 2 ^ ad) (hdfit : deny.length ≤ 2 ^ dd)
    (hallow : ∀ y ∈ allow, y < 2 ^ n) (hdeny : ∀ y ∈ deny, y < 2 ^ n)
    (hs : deny.Pairwise (· < ·)) (x : ZMod p) :
    (∃ w : ComplianceInput (ZMod p), w.label = x ∧ w.Hashed P U ad dd ∧
      ComplianceMembership P ad dd n (.ofLists P ad dd allow deny policyId) w) ↔
      x.val ∈ allow ∧ x.val ∉ deny ∧ (∃ a ∈ deny, a < x.val) ∧ ∃ b ∈ deny, x.val < b := by
  rw [← between_neighbours_iff hs]
  constructor
  · rintro ⟨w, rfl, hw, h⟩
    exact h.bracketed hU had hdd hn ha hd hallow hdeny hw
  · rintro ⟨hx, i, hi, hlo, hhi⟩
    obtain ⟨k, hk, hkx⟩ := List.getElem_of_mem hx
    refine ⟨.honest P allow deny k i, ?_, ?_, complianceMembership_honest hn hk (by omega) hi
      (by omega) (hdeny _ (List.getElem_mem _)) ⟨by omega, by omega⟩⟩
    · rw [ComplianceInput.honest, labelLeaves_of_lt hk, hkx, ZMod.natCast_zmod_val]
    · exact ComplianceInput.honest_hashed had (by omega) (by omega) (by omega) ha hd

/-- The label 7 is allowed, and stands between 5 and 9 on the deny list. -/
theorem complianceMembership_iff_seven : ∃ w : ComplianceInput Bls12381,
    w.label = ((7 : ℕ) : Bls12381) ∧ w.Hashed (fun _ => 0) {[((5 : ℕ) : Bls12381), (9 : ℕ)]} 0 1 ∧
      ComplianceMembership (fun _ => 0) 0 1 252
        (.ofLists (fun _ => 0) 0 1 [7] [5, 9] (3 : Bls12381)) w :=
  (complianceMembership_iff (Set.injOn_singleton _ _) 3 (by norm_num) (by norm_num) le_rfl
    (by simp [TreeHashed, Merkle.nodePairs])
    (by simp [TreeHashed, Merkle.nodePairs, Merkle.node, labelLeaves, Merkle.pad]) (by simp)
    (by simp) (by simp) (by simp) (by simp) _).2
    (by rw [val_label (n := 252) le_rfl (by norm_num)]; simp)

end

end ShadePay
