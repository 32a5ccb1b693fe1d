import Mathlib.Data.Finset.Card
import Mathlib.Data.List.Dedup
import Mathlib.Algebra.Order.Floor.Div
import Mathlib.Tactic.Linarith

/-!
# Two-thirds quorums of a list of members

`Quorum` says what a list of signers with signatures has to be to speak for a list of members, of
which some may be listed twice. Two quorums of the same members share a third of the list
(`Quorum.inter`), and renaming members and signatures keeps a quorum one (`Quorum.map_iff`).
-/

variable {K K' S S' : Type}

/-- A valid signature stands at the position of every signer. -/
def Signed (valid : K → S → Prop) : List K → List S → Prop
  | [], _ => True
  | _ :: _, [] => False
  | k :: ks, s :: ss => valid k s ∧ Signed valid ks ss

/-- At least two thirds of the members, rounded up, each once and each with its signature. -/
structure Quorum (valid : K → S → Prop) (members signers : List K) (signatures : List S) : Prop where
  nonempty : 1 ≤ members.length
  distinct : signers.Nodup
  registered : ∀ k ∈ signers, k ∈ members
  signed : ∀ (i : ℕ) k, signers[i]? = some k → ∃ s, signatures[i]? = some s ∧ valid k s
  enough : (2 * members.length) ⌈/⌉ 3 ≤ signers.length

section
variable {valid : K → S → Prop} {members signers : List K} {signatures : List S}

/-- Every signer has its signature at the same place. -/
theorem signed_iff : ∀ {signers : List K} {signatures : List S}, Signed valid signers signatures ↔
    ∀ (i : ℕ) k, signers[i]? = some k → ∃ s, signatures[i]? = some s ∧ valid k s
  | [], _ => by simp [Signed]
  | k :: ks, [] => by
      simp only [Signed, false_iff, not_forall]
      exact ⟨0, k, rfl, by simp⟩
  | k :: ks, s :: ss => by
      rw [Signed, signed_iff]
      constructor
      · rintro ⟨hs, h⟩ (_ | i) k' hk
        · obtain rfl : k = k' := by simpa using hk
          exact ⟨s, rfl, hs⟩
        · simpa using h i k' (by simpa using hk)
      · intro h
        refine ⟨?_, fun i k' hk => by simpa using h (i + 1) k' (by simpa using hk)⟩
        simpa using h 0 k rfl

/-- There are as many signatures as signers. -/
theorem Signed.length_le : ∀ {signers : List K} {signatures : List S},
    Signed valid signers signatures → signers.length ≤ signatures.length
  | [], _, _ => Nat.zero_le _
  | _ :: _, [], h => h.elim
  | _ :: _, _ :: _, h => Nat.succ_le_succ h.2.length_le

/-- Two thirds, rounded up. -/
theorem two_thirds (n : ℕ) : (2 * n) ⌈/⌉ 3 = (n * 2 + 2) / 3 := by
  rw [Nat.ceilDiv_eq_add_pred_div]
  omega

/-- What a loop over the signers checks, with the two lengths it starts with. -/
theorem quorum_iff : Quorum valid members signers signatures ↔
    members.length ≠ 0 ∧ ((members.length * 2 + 2) / 3 ≤ signers.length ∧
      (members.length * 2 + 2) / 3 ≤ signatures.length) ∧
      signers.Nodup ∧ (∀ k ∈ signers, k ∈ members) ∧ Signed valid signers signatures := by
  constructor
  · rintro ⟨hne, hd, hm, hs, he⟩
    have hsigned := signed_iff.2 hs
    rw [two_thirds] at he
    exact ⟨by omega, ⟨he, he.trans hsigned.length_le⟩, hd, hm, hsigned⟩
  · rintro ⟨hne, ⟨he, -⟩, hd, hm, hs⟩
    exact ⟨by omega, hd, hm, signed_iff.1 hs, by rwa [two_thirds]⟩

/-- Renaming keeps a quorum. -/
theorem Quorum.map_iff {valid' : K' → S' → Prop} {f : K → K'} {g : S → S'}
    (hf : Function.Injective f) (hvalid : ∀ k s, valid' (f k) (g s) ↔ valid k s) :
    Quorum valid' (members.map f) (signers.map f) (signatures.map g) ↔
      Quorum valid members signers signatures := by
  have hsigned : Signed valid' (signers.map f) (signatures.map g) ↔
      Signed valid signers signatures := by
    induction signers generalizing signatures with
    | nil => simp [Signed]
    | cons k ks ih =>
        cases signatures with
        | nil => simp [Signed]
        | cons s ss => simp [Signed, hvalid, ih]
  rw [quorum_iff, quorum_iff, hsigned, List.nodup_map_iff hf]
  simp [hf.eq_iff]

/-- **Two quorums meet.** The two may be for different messages. -/
theorem Quorum.inter [DecidableEq K] {valid' : K → S → Prop} {signers' : List K}
    {signatures' : List S} (h : Quorum valid members signers signatures)
    (h' : Quorum valid' members signers' signatures') :
    2 * ((2 * members.length) ⌈/⌉ 3) - members.length ≤
        (signers.toFinset ∩ signers'.toFinset).card ∧
      members.length ≤ 3 * (2 * ((2 * members.length) ⌈/⌉ 3) - members.length) := by
  have hunion : (signers.toFinset ∪ signers'.toFinset).card ≤ members.length := by
    refine le_trans (Finset.card_le_card fun k hk => ?_) (List.toFinset_card_le members)
    rcases Finset.mem_union.1 hk with hk | hk
    · exact List.mem_toFinset.2 (h.registered k (List.mem_toFinset.1 hk))
    · exact List.mem_toFinset.2 (h'.registered k (List.mem_toFinset.1 hk))
  have hcard := Finset.card_union_add_card_inter signers.toFinset signers'.toFinset
  rw [List.toFinset_card_of_nodup h.distinct, List.toFinset_card_of_nodup h'.distinct] at hcard
  have he := h.enough
  have he' := h'.enough
  rw [two_thirds] at he he' ⊢
  constructor <;> omega

end
