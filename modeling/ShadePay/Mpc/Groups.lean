import ShadePay.Mpc.Matching

/-!
# Groups of intents

The groups that `matchIntents` forms, in terms of the list of intents: the group of a key holds the
intents with this key (`get?_groupLoop`), and the groups come in the order in which their keys first
occur (`keys_groupLoop_before`). With that the loop over the groups is a list of rounds, one for each
key (`matchIntentsBy_eq_rounds`).

A key is split at its bars again, so an asset with a bar in its name is not found under its own key.
`splitKey_pairKey` says that a pair of names without bars is recovered, `not_barred_splitKey` that a
name with a bar never is.
-/

namespace ShadePay.Mpc

/-! ## Keys -/

/-- The name of the asset contains the separator. -/
def Barred (asset : String) : Prop := '|' ∈ asset.toList

instance (asset : String) : Decidable (Barred asset) := inferInstanceAs (Decidable (_ ∈ _))

/-- A text has one part at least. -/
theorem splitBar_ne_nil (cs : List Char) : splitBar cs ≠ [] := by
  cases cs with
  | nil => exact List.cons_ne_nil _ _
  | cons c cs =>
      rw [splitBar]
      split
      · exact List.cons_ne_nil _ _
      · split <;> exact List.cons_ne_nil _ _

/-- The parts of a longer text. -/
theorem splitBar_cons (c : Char) (cs : List Char) : ∃ p ps, splitBar cs = p :: ps ∧
    splitBar (c :: cs) = if c = '|' then [] :: p :: ps else (c :: p) :: ps := by
  obtain ⟨p, ps, h⟩ := List.exists_cons_of_ne_nil (splitBar_ne_nil cs)
  exact ⟨p, ps, h, by rw [splitBar, h]⟩

/-- No piece contains a bar. -/
theorem not_mem_splitBar {cs : List Char} : ∀ p ∈ splitBar cs, '|' ∉ p := by
  induction cs with
  | nil => simp [splitBar]
  | cons c cs ih =>
      obtain ⟨p, ps, hcs, h⟩ := splitBar_cons c cs
      rw [hcs] at ih
      rw [h]
      split
      · simpa using ih
      · next hc =>
        rw [List.forall_mem_cons] at ih ⊢
        exact ⟨by simpa [Ne.symm hc] using ih.1, ih.2⟩

/-- A text without a bar is one part. -/
theorem splitBar_of_not_mem {cs : List Char} (h : '|' ∉ cs) : splitBar cs = [cs] := by
  induction cs with
  | nil => rfl
  | cons c cs ih =>
      rw [List.mem_cons, not_or] at h
      rw [splitBar, ih h.2]
      exact if_neg (Ne.symm h.1)

/-- The part before the first bar. -/
theorem splitBar_append {x y : List Char} (h : '|' ∉ x) :
    splitBar (x ++ '|' :: y) = x :: splitBar y := by
  induction x with
  | nil =>
      obtain ⟨p, ps, hy, h'⟩ := splitBar_cons '|' y
      rw [List.nil_append, h', if_pos rfl, hy]
  | cons c x ih =>
      rw [List.mem_cons, not_or] at h
      rw [List.cons_append, splitBar, ih h.2]
      exact if_neg (Ne.symm h.1)

theorem toList_pairKey (x y : String) : (pairKey x y).toList = x.toList ++ '|' :: y.toList := by
  simp [pairKey]

/-- A key has at least two pieces. -/
theorem splitBar_pairKey (x y : String) : ∃ p q rest, splitBar (pairKey x y).toList = p :: q :: rest := by
  rw [toList_pairKey]
  induction x.toList with
  | nil =>
      obtain ⟨p, ps, hy, h⟩ := splitBar_cons '|' y.toList
      exact ⟨[], p, ps, by rw [List.nil_append, h, if_pos rfl]⟩
  | cons c cs ih =>
      obtain ⟨p, q, rest, h⟩ := ih
      obtain ⟨p', ps, hcs, hc⟩ := splitBar_cons c (cs ++ '|' :: y.toList)
      rw [h] at hcs
      cases hcs
      rw [List.cons_append, hc]
      split
      · exact ⟨_, _, _, rfl⟩
      · exact ⟨_, _, _, rfl⟩

/-- Names without bars are recovered from their key. -/
theorem splitKey_pairKey {x y : String} (hx : ¬ Barred x) (hy : ¬ Barred y) :
    splitKey (pairKey x y) = (x, y) := by
  rw [splitKey, toList_pairKey, splitBar_append hx, splitBar_of_not_mem hy]
  simp

/-- Names with bars are not. -/
theorem not_barred_splitKey (x y : String) :
    ¬ Barred (splitKey (pairKey x y)).1 ∧ ¬ Barred (splitKey (pairKey x y)).2 := by
  obtain ⟨p, q, rest, h⟩ := splitBar_pairKey x y
  have hmem := @not_mem_splitBar (pairKey x y).toList
  rw [h] at hmem
  rw [splitKey, h]
  simp only [Barred, String.toList_ofList]
  exact ⟨hmem p (by simp), hmem q (by simp)⟩

/-- The key of names without bars belongs to these names only. -/
theorem pairKey_inj {x y q p : String} (hq : ¬ Barred q) (hp : ¬ Barred p)
    (h : pairKey x y = pairKey q p) : x = q ∧ y = p := by
  have hx : ¬ Barred x ∧ ¬ Barred y := by
    have hcount := congrArg (List.count '|') (congrArg String.toList h)
    rw [toList_pairKey, toList_pairKey, List.count_append, List.count_append, List.count_cons_self,
      List.count_cons_self, List.count_eq_zero_of_not_mem hq, List.count_eq_zero_of_not_mem hp] at hcount
    simp only [Barred, ← List.count_pos_iff]
    omega
  have hsplit := congrArg splitKey h
  rw [splitKey_pairKey hx.1 hx.2, splitKey_pairKey hq hp] at hsplit
  exact Prod.mk.inj hsplit

/-! ## Groups -/

/-- The key of an intent. -/
def Reconstructed.key (i : Reconstructed) : String := pairKey i.inputAsset i.outputAsset

/-- The intents with a given key. -/
def groupOf (intents : List Reconstructed) (key : String) : List Reconstructed :=
  intents.filter (·.key = key)

/-- A group has the intents of its key. -/
theorem mem_groupOf {intents : List Reconstructed} {key : String} {i : Reconstructed} :
    i ∈ groupOf intents key ↔ i ∈ intents ∧ i.key = key := by
  simp [groupOf]

/-- The keys that the loop over the intents adds. -/
def addKeys : List String → List Reconstructed → List String
  | keys, [] => keys
  | keys, i :: is => addKeys (if i.key ∈ keys then keys else keys ++ [i.key]) is

/-- The keys of the groups in their order. -/
theorem keys_groupLoop (is : List Reconstructed) (groups : OrderedMap String (List Reconstructed)) :
    (groupLoop is groups).keys = addKeys groups.keys is := by
  induction is generalizing groups with
  | nil => rfl
  | cons i is ih =>
      rw [groupLoop, ih, addKeys, OrderedMap.keys, OrderedMap.set, OrderedMap.keys_setEntries]
      rfl

/-- A group holds what it held before and the intents with its key. -/
theorem get?_groupLoop (is : List Reconstructed) (groups : OrderedMap String (List Reconstructed))
    (key : String) : ((groupLoop is groups).get? key).getD [] =
      (groups.get? key).getD [] ++ groupOf is key := by
  induction is generalizing groups with
  | nil => simp [groupLoop, groupOf]
  | cons i is ih =>
      rw [groupLoop, ih, OrderedMap.get?_set]
      by_cases hk : key = pairKey i.inputAsset i.outputAsset
      · have : i.key = key := hk.symm
        simp [hk, groupOf, Reconstructed.key]
      · have : ¬ i.key = key := fun h => hk h.symm
        simp [hk, groupOf, this]

/-- Keys are added behind those that are there. -/
theorem addKeys_prefix (keys : List String) (is : List Reconstructed) :
    ∃ rest, addKeys keys is = keys ++ rest := by
  induction is generalizing keys with
  | nil => exact ⟨[], by simp [addKeys]⟩
  | cons i is ih =>
      rw [addKeys]
      split
      · exact ih keys
      · obtain ⟨rest, h⟩ := ih (keys ++ [i.key])
        exact ⟨i.key :: rest, by rw [h, List.append_assoc, List.singleton_append]⟩

/-- A new key keeps the list distinct. -/
theorem nodup_snoc {keys : List String} {key : String} (h : keys.Nodup) (hk : key ∉ keys) :
    (keys ++ [key]).Nodup :=
  List.nodup_append.2 ⟨h, List.nodup_singleton _, fun _ ha _ hb hab =>
    hk (List.mem_singleton.1 hb ▸ hab ▸ ha)⟩

/-- The keys of the groups are distinct. -/
theorem nodup_addKeys {keys : List String} (h : keys.Nodup) (is : List Reconstructed) :
    (addKeys keys is).Nodup := by
  induction is generalizing keys with
  | nil => exact h
  | cons i is ih =>
      rw [addKeys]
      split
      · exact ih h
      · next hi => exact ih (nodup_snoc h hi)

/-- The keys of the groups are those of the intents. -/
theorem mem_addKeys {keys : List String} {is : List Reconstructed} {k : String} :
    k ∈ addKeys keys is ↔ k ∈ keys ∨ ∃ i ∈ is, i.key = k := by
  induction is generalizing keys with
  | nil => simp [addKeys]
  | cons i is ih =>
      rw [addKeys, ih]
      split
      · next hi =>
        simp only [List.exists_mem_cons_iff]
        exact ⟨fun h => h.imp_right .inr, fun h => h.elim .inl fun h => h.elim
          (fun h => .inl (h ▸ hi)) .inr⟩
      · simp only [List.mem_append, List.mem_singleton, List.exists_mem_cons_iff, or_assoc]
        exact or_congr_right (or_congr_left eq_comm)

/-- **The order of the keys.** A key stands before another one when an intent with it comes before the
first intent with the other. -/
theorem addKeys_before {keys ks₁ ks₂ : List String} {is : List Reconstructed} {k key : String}
    (hnodup : keys.Nodup) (hkey : key ∉ keys) (h : addKeys keys is = ks₁ ++ key :: ks₂) :
    k ∈ ks₁ ↔ k ∈ keys ∨ ∃ i ∈ is.takeWhile (·.key ≠ key), i.key = k := by
  induction is generalizing keys with
  | nil =>
      have : key ∈ keys := by
        rw [addKeys] at h
        simp [h]
      exact absurd this hkey
  | cons i is ih =>
      rw [addKeys] at h
      by_cases hi : i.key = key
      · have hall := nodup_addKeys (nodup_snoc hnodup hkey) is
        rw [hi, if_neg hkey] at h
        obtain ⟨rest, hrest⟩ := addKeys_prefix (keys ++ [key]) is
        rw [h] at hrest hall
        rw [List.nodup_append, List.nodup_cons] at hall
        rw [List.append_assoc, List.singleton_append] at hrest
        have heq := (List.append_cons_inj_of_notMem
          (fun hmem => hall.2.2 key hmem key List.mem_cons_self rfl) hall.2.1.1).1 hrest
        simp [hi, heq.1]
      · have htake : (i :: is).takeWhile (·.key ≠ key) = i :: is.takeWhile (·.key ≠ key) := by
          rw [List.takeWhile_cons, if_pos (by simpa using hi)]
        rw [htake, List.exists_mem_cons_iff]
        split at h
        · next hmem =>
          rw [ih hnodup hkey h]
          exact ⟨fun h => h.imp_right .inr, fun h => h.elim .inl fun h => h.elim
            (fun h => .inl (h ▸ hmem)) .inr⟩
        · next hmem =>
          rw [ih (nodup_snoc hnodup hmem) (by simpa [hkey] using Ne.symm hi) h, List.mem_append,
            List.mem_singleton, or_assoc]
          exact or_congr_right (or_congr_left eq_comm)

/-! ## Rounds -/

section
variable (sort : List Reconstructed → List Reconstructed) (intents : List Reconstructed)

/-- The keys of the groups, in their order. -/
def groupKeys : List String := addKeys [] intents

/-- The pairing of the group of a key with the reverse group. -/
def round (key : String) (used : List String) : List MatchResult × List String :=
  pairLoop (splitKey key).1 (splitKey key).2 (sort (groupOf intents key))
    (sort (groupOf intents (pairKey (splitKey key).2 (splitKey key).1))) used

/-- The rounds for a list of keys. -/
def rounds : List String → List String → List MatchResult
  | [], _ => []
  | key :: keys, used =>
      (round sort intents key used).1 ++ rounds keys (round sort intents key used).2

end

section
variable {sort : List Reconstructed → List Reconstructed} {intents : List Reconstructed}

/-- Without intents on the other side there is no match. -/
theorem pairLoop_nil (inAsset outAsset : String) (as : List Reconstructed) (used : List String) :
    pairLoop inAsset outAsset as [] used = ([], used) := by
  induction as with
  | nil => rfl
  | cons a as ih =>
      rw [pairLoop]
      split
      · exact ih
      · rfl

/-- The loop over the groups goes through the keys in rounds. -/
theorem groupsLoop_eq_rounds (hsort : ∀ group, (sort group).Perm group)
    (es : List (String × List Reconstructed)) (hes : ∀ e ∈ es, e.2 = groupOf intents e.1)
    (used : List String) : groupsLoop sort (groupLoop intents .empty) es used =
      rounds sort intents (es.map Prod.fst) used := by
  induction es generalizing used with
  | nil => rfl
  | cons e es ih =>
      rw [List.forall_mem_cons] at hes
      have hget := get?_groupLoop intents .empty (pairKey (splitKey e.1).2 (splitKey e.1).1)
      simp only [groupsLoop, List.map_cons, rounds, round, ← hes.1]
      cases hrev : (groupLoop intents .empty).get? (pairKey (splitKey e.1).2 (splitKey e.1).1) with
      | none =>
          -- there is no reverse group to pair with
          rw [hrev] at hget
          have hnil : groupOf intents (pairKey (splitKey e.1).2 (splitKey e.1).1) = [] := by
            simpa [OrderedMap.empty, OrderedMap.get?] using hget.symm
          have hsnil : sort [] = [] := (hsort []).eq_nil
          rw [hnil, hsnil, pairLoop_nil]
          exact ih hes.2 used
      | some reverseGroup =>
          rw [hrev] at hget
          have hrev' : reverseGroup = groupOf intents (pairKey (splitKey e.1).2 (splitKey e.1).1) := by
            simpa [OrderedMap.empty, OrderedMap.get?] using hget
          rw [← hrev']
          exact congrArg _ (ih hes.2 _)

/-- **The matcher in rounds.** -/
theorem matchIntentsBy_eq_rounds (hsort : ∀ group, (sort group).Perm group) :
    matchIntentsBy sort intents = rounds sort intents (groupKeys intents) [] := by
  have hkeys : (groupLoop intents .empty).entries.map Prod.fst = groupKeys intents :=
    keys_groupLoop intents .empty
  rw [matchIntentsBy, groupsLoop_eq_rounds hsort _ (fun e he => ?_), hkeys]
  have hget := get?_groupLoop intents .empty e.1
  rw [OrderedMap.get?_of_mem he] at hget
  simpa [OrderedMap.empty, OrderedMap.get?] using hget

end

end ShadePay.Mpc
