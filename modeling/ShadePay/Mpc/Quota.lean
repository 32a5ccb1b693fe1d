import ShadePay.Mpc.Maximum

/-!
# Who is paired off

Which intents `matchIntents` uses, from the numbers alone. A round over two groups uses up a front part
of each, as long as the shorter one lasts (`usedIds_pairLoop`); a group that is its own reverse loses
two at a time (`usedIds_pairLoop_self`). So after every round the used intents of a group are the first
ones of it in the order of their amounts, and their number follows from the sizes of the groups
(`pairedOff`). `mem_usedIds_iff` says that of the whole matcher, bars or not; `quota_of_plain` gives the
number for assets without bars, the smaller of the two sides.
-/

namespace ShadePay.Mpc

/-! ## Numbers -/

/-- The key of the group that the group of a key is paired against. -/
def reverseKey (key : String) : String := pairKey (splitKey key).2 (splitKey key).1

/-- How many intents of each group the rounds for a list of keys use up, from those used before and the
sizes of the groups. -/
def pairedOff (size : String → ℕ) : List String → (String → ℕ) → String → ℕ
  | [], n => n
  | key :: keys, n =>
      let other := reverseKey key
      if other = key then
        pairedOff size keys (Function.update n key (n key + 2 * ((size key - n key) / 2)))
      else
        let m := min (size key - n key) (size other - n other)
        pairedOff size keys
          (Function.update (Function.update n key (n key + m)) other (n other + m))

/-- How many intents of a group the matcher uses. -/
def quota (intents : List Reconstructed) (key : String) : ℕ :=
  pairedOff (fun k => (groupOf intents k).length) (groupKeys intents) (fun _ => 0) key

/-! ## One round -/

section
variable {inAsset outAsset : String} {as bs pre : List Reconstructed} {used : List String}

theorem pairLoop_append (hpre : ∀ a ∈ pre, a.intentId ∈ used) :
    pairLoop inAsset outAsset (pre ++ as) bs used = pairLoop inAsset outAsset as bs used := by
  induction pre with
  | nil => rfl
  | cons a pre ih =>
      rw [List.forall_mem_cons] at hpre
      rw [List.cons_append, pairLoop_skip hpre.1, ih hpre.2]

/-- Used counterparties in front are passed over. -/
theorem dropWhile_append_used {a : Reconstructed} (hpre : ∀ b ∈ pre, b.intentId ∈ used) :
    (pre ++ bs).dropWhile (fun b => decide (b.intentId ∈ used ∨ a.intentId = b.intentId)) =
      bs.dropWhile fun b => decide (b.intentId ∈ used ∨ a.intentId = b.intentId) := by
  refine List.dropWhile_append_of_pos fun b hb => ?_
  exact decide_eq_true (.inl (hpre b hb))

/-- **Two groups** are paired off as long as the shorter one lasts. -/
theorem usedIds_pairLoop (hpre : ∀ b ∈ pre, b.intentId ∈ used)
    (has : ∀ a ∈ as, a.intentId ∉ used) (hbs : ∀ b ∈ bs, b.intentId ∉ used)
    (hids : ((as ++ bs).map (·.intentId)).Nodup) (id : String) :
    id ∈ usedIds (pairLoop inAsset outAsset as (pre ++ bs) used).1 ↔
      id ∈ (as.take (min as.length bs.length)).map (·.intentId) ∨
        id ∈ (bs.take (min as.length bs.length)).map (·.intentId) := by
  induction as generalizing bs pre used with
  | nil => simp [pairLoop, usedIds]
  | cons a as ih =>
      have ha := has a List.mem_cons_self
      cases bs with
      | nil =>
          have hdrop := @dropWhile_append_used [] pre used a hpre
          rw [pairLoop, if_neg ha, hdrop]
          simp [usedIds]
      | cons b bs =>
          have hb := hbs b List.mem_cons_self
          simp only [List.map_append, List.map_cons, List.nodup_append, List.nodup_cons,
            List.mem_map, List.mem_cons, not_exists, not_and] at hids
          obtain ⟨⟨haas, hasn⟩, ⟨hbbs, hbsn⟩, hdisj⟩ := hids
          have hab : a.intentId ≠ b.intentId := hdisj _ (.inl rfl) _ (.inl rfl)
          have hdrop : (pre ++ b :: bs).dropWhile
              (fun c => decide (c.intentId ∈ used ∨ a.intentId = c.intentId)) = b :: bs := by
            rw [dropWhile_append_used hpre, List.dropWhile_cons_of_neg]
            simp [hb, hab]
          have hrest := @ih bs [] (used ++ [a.intentId, b.intentId]) (by simp)
            (fun c hc => by
              simp only [List.mem_append, List.mem_pair, not_or]
              exact ⟨has c (List.mem_cons_of_mem _ hc), fun h => haas c hc h,
                hdisj _ (.inr ⟨c, hc, rfl⟩) _ (.inl rfl)⟩)
            (fun c hc => by
              simp only [List.mem_append, List.mem_pair, not_or]
              exact ⟨hbs c (List.mem_cons_of_mem _ hc),
                (hdisj _ (.inl rfl) _ (.inr ⟨c, hc, rfl⟩)).symm, fun h => hbbs c hc h⟩)
            (by
              rw [List.map_append, List.nodup_append]
              refine ⟨hasn, hbsn, fun x hx y hy => ?_⟩
              obtain ⟨c, hc, rfl⟩ := List.mem_map.1 hx
              obtain ⟨c', hc', rfl⟩ := List.mem_map.1 hy
              exact hdisj _ (.inr ⟨c, hc, rfl⟩) _ (.inr ⟨c', hc', rfl⟩))
          rw [List.nil_append] at hrest
          rw [pairLoop, if_neg ha, hdrop]
          simp only [usedIds_cons, MatchResult.ids, matchOf, List.mem_append, hrest,
            List.length_cons, Nat.add_min_add_right, List.take_succ_cons, List.map_cons,
            List.mem_cons]
          tauto

/-- **A group against itself** is paired off two by two. -/
theorem usedIds_pairLoop_self : ∀ {as pre : List Reconstructed} {used : List String},
    (∀ b ∈ pre, b.intentId ∈ used) → (∀ a ∈ as, a.intentId ∉ used) →
    (as.map (·.intentId)).Nodup → ∀ id,
      id ∈ usedIds (pairLoop inAsset outAsset as (pre ++ as) used).1 ↔
        id ∈ (as.take (2 * (as.length / 2))).map (·.intentId)
  | [], _, _, _, _, _, id => by simp [pairLoop, usedIds]
  | [a], pre, used, hpre, has, _, id => by
      rw [pairLoop, if_neg (has a List.mem_cons_self), dropWhile_append_used hpre]
      simp [usedIds]
  | a :: b :: as, pre, used, hpre, has, hids, id => by
      have ha := has a List.mem_cons_self
      have hb := has b (by simp)
      simp only [List.map_cons, List.nodup_cons, List.mem_cons, List.mem_map, not_or, not_exists,
        not_and] at hids
      obtain ⟨⟨hab, haas⟩, hbas, hasn⟩ := hids
      have hdrop : (pre ++ a :: b :: as).dropWhile
          (fun c => decide (c.intentId ∈ used ∨ a.intentId = c.intentId)) = b :: as := by
        rw [dropWhile_append_used hpre, List.dropWhile_cons_of_pos (by simp),
          List.dropWhile_cons_of_neg]
        simp [hb, hab]
      have hrest := @usedIds_pairLoop_self as [] (used ++ [a.intentId, b.intentId]) (by simp)
        (fun c hc => by
          simp only [List.mem_append, List.mem_pair, not_or]
          exact ⟨has c (by simp [hc]), fun h => haas c hc h, fun h => hbas c hc h⟩) hasn id
      rw [List.nil_append] at hrest
      -- the second of the two is used when its turn comes
      rw [pairLoop, if_neg ha, hdrop]
      simp only
      rw [pairLoop_skip (by simp), usedIds_cons, List.mem_append, hrest]
      have hlen : 2 * ((a :: b :: as).length / 2) = 2 * (as.length / 2) + 1 + 1 := by
        simp only [List.length_cons]
        omega
      rw [hlen, List.take_succ_cons, List.take_succ_cons]
      simp [MatchResult.ids, matchOf, or_assoc]

end

/-! ## All rounds -/

section
variable {sort : List Reconstructed → List Reconstructed} {intents : List Reconstructed}
  {used : List String} {n : String → ℕ}

/-- Of each group the first `n` in order are used. -/
structure Uses (sort : List Reconstructed → List Reconstructed) (intents : List Reconstructed)
    (n : String → ℕ) (used : List String) : Prop where
  mem_iff : ∀ i ∈ intents, i.intentId ∈ used ↔ i ∈ (sort (groupOf intents i.key)).take (n i.key)

/-- The intents of a sorted group. -/
theorem mem_sort_groupOf (hsort : ∀ group, (sort group).Perm group) {key : String}
    {i : Reconstructed} : i ∈ sort (groupOf intents key) ↔ i ∈ intents ∧ i.key = key :=
  (hsort _).mem_iff.trans mem_groupOf

/-- An intent is among others when its id is among theirs. -/
theorem mem_map_intentId (hids : (intents.map (·.intentId)).Nodup) {l : List Reconstructed}
    (hl : ∀ j ∈ l, j ∈ intents) {i : Reconstructed} (hi : i ∈ intents) :
    i.intentId ∈ l.map (·.intentId) ↔ i ∈ l := by
  refine ⟨fun h => ?_, fun h => List.mem_map_of_mem h⟩
  obtain ⟨j, hj, heq⟩ := List.mem_map.1 h
  exact eq_of_intentId hids (hl j hj) hi heq ▸ hj

/-- The group of a key, apart from those used of it. -/
theorem Uses.split (hU : Uses sort intents n used) (hsort : ∀ group, (sort group).Perm group)
    (hids : (intents.map (·.intentId)).Nodup) (key : String) :
    (∀ a ∈ (sort (groupOf intents key)).take (n key), a.intentId ∈ used) ∧
      (∀ a ∈ (sort (groupOf intents key)).drop (n key), a.intentId ∉ used) ∧
      ((sort (groupOf intents key)).map (·.intentId)).Nodup := by
  have hnodup : ((sort (groupOf intents key)).map (·.intentId)).Nodup :=
    ((hsort _).map _).nodup_iff.2 (hids.sublist (List.filter_sublist.map _))
  refine ⟨fun a ha => ?_, fun a ha hused => ?_, hnodup⟩
  · obtain ⟨hmem, rfl⟩ := (mem_sort_groupOf hsort).1 (List.mem_of_mem_take ha)
    exact (hU.mem_iff a hmem).2 ha
  · obtain ⟨hmem, rfl⟩ := (mem_sort_groupOf hsort).1 (List.mem_of_mem_drop ha)
    exact List.disjoint_take_drop (List.Nodup.of_map _ hnodup) le_rfl
      ((hU.mem_iff a hmem).1 hused) ha

/-- A round over two different groups. -/
theorem Uses.round (hU : Uses sort intents n used) (hsort : ∀ group, (sort group).Perm group)
    (hids : (intents.map (·.intentId)).Nodup) {key : String} (hne : reverseKey key ≠ key) :
    let m := min ((groupOf intents key).length - n key)
      ((groupOf intents (reverseKey key)).length - n (reverseKey key))
    Uses sort intents (Function.update (Function.update n key (n key + m)) (reverseKey key)
      (n (reverseKey key) + m)) (Mpc.round sort intents key used).2 := by
  intro m
  obtain ⟨hpreA, hA, hnodupA⟩ := hU.split hsort hids key
  obtain ⟨hpreB, hB, hnodupB⟩ := hU.split hsort hids (reverseKey key)
  set A := sort (groupOf intents key) with hAdef
  set B := sort (groupOf intents (reverseKey key)) with hBdef
  have hmemA : ∀ {i}, i ∈ A ↔ i ∈ intents ∧ i.key = key := mem_sort_groupOf hsort
  have hmemB : ∀ {i}, i ∈ B ↔ i ∈ intents ∧ i.key = reverseKey key := mem_sort_groupOf hsort
  have hround : (Mpc.round sort intents key used).2 =
      used ++ usedIds (pairLoop (splitKey key).1 (splitKey key).2 (A.drop (n key))
        (B.take (n (reverseKey key)) ++ B.drop (n (reverseKey key))) used).1 := by
    rw [round_used, Mpc.round, ← reverseKey, ← hAdef, ← hBdef, List.take_append_drop]
    conv_lhs => rw [← List.take_append_drop (n key) A, pairLoop_append hpreA]
  have hids' : ((A.drop (n key) ++ B.drop (n (reverseKey key))).map (·.intentId)).Nodup := by
    rw [List.map_append, List.nodup_append]
    refine ⟨hnodupA.sublist ((List.drop_sublist _ _).map _),
      hnodupB.sublist ((List.drop_sublist _ _).map _), fun x hx y hy hxy => ?_⟩
    obtain ⟨a, ha, rfl⟩ := List.mem_map.1 hx
    obtain ⟨b, hb, rfl⟩ := List.mem_map.1 hy
    obtain ⟨ha, hka⟩ := hmemA.1 (List.mem_of_mem_drop ha)
    obtain ⟨hb, hkb⟩ := hmemB.1 (List.mem_of_mem_drop hb)
    obtain rfl := eq_of_intentId hids ha hb hxy
    exact hne (hkb.symm.trans hka)
  have hm : min (A.drop (n key)).length (B.drop (n (reverseKey key))).length = m := by
    rw [List.length_drop, List.length_drop, hAdef, hBdef, (hsort _).length_eq, (hsort _).length_eq]
  refine ⟨fun i hi => ?_⟩
  have hused := @usedIds_pairLoop (splitKey key).1 (splitKey key).2 _ _ _ _ hpreB hA hB hids'
    i.intentId
  rw [hm, mem_map_intentId hids
      (fun j hj => (hmemA.1 (List.mem_of_mem_drop (List.mem_of_mem_take hj))).1) hi,
    mem_map_intentId hids
      (fun j hj => (hmemB.1 (List.mem_of_mem_drop (List.mem_of_mem_take hj))).1) hi] at hused
  rw [hround, List.mem_append, hU.mem_iff i hi, hused]
  by_cases hk : i.key = key
  · have hnot : i ∉ (B.drop (n (reverseKey key))).take m := fun h =>
      hne ((hmemB.1 (List.mem_of_mem_drop (List.mem_of_mem_take h))).2.symm.trans hk)
    rw [hk, Function.update_of_ne hne.symm, Function.update_self, List.take_add, List.mem_append,
      ← hAdef, or_iff_left hnot]
  · have hnot : i ∉ (A.drop (n key)).take m := fun h =>
      hk (hmemA.1 (List.mem_of_mem_drop (List.mem_of_mem_take h))).2
    rw [or_iff_right hnot]
    by_cases hk' : i.key = reverseKey key
    · rw [hk', Function.update_self, List.take_add, List.mem_append, ← hBdef]
    · have hnot' : i ∉ (B.drop (n (reverseKey key))).take m := fun h =>
        hk' (hmemB.1 (List.mem_of_mem_drop (List.mem_of_mem_take h))).2
      rw [Function.update_of_ne hk', Function.update_of_ne hk, or_iff_left hnot']

/-- A round of a group against itself. -/
theorem Uses.roundSelf (hU : Uses sort intents n used) (hsort : ∀ group, (sort group).Perm group)
    (hids : (intents.map (·.intentId)).Nodup) {key : String} (heq : reverseKey key = key) :
    Uses sort intents (Function.update n key
        (n key + 2 * (((groupOf intents key).length - n key) / 2)))
      (Mpc.round sort intents key used).2 := by
  obtain ⟨hpre, hA, hnodup⟩ := hU.split hsort hids key
  set A := sort (groupOf intents key) with hAdef
  have hmemA : ∀ {i}, i ∈ A ↔ i ∈ intents ∧ i.key = key := mem_sort_groupOf hsort
  have hround : (Mpc.round sort intents key used).2 =
      used ++ usedIds (pairLoop (splitKey key).1 (splitKey key).2 (A.drop (n key))
        (A.take (n key) ++ A.drop (n key)) used).1 := by
    rw [round_used, Mpc.round, ← reverseKey, heq, ← hAdef, List.take_append_drop]
    conv_lhs => rw [← List.take_append_drop (n key) A, pairLoop_append hpre]
    rw [List.take_append_drop]
  have hlen : (A.drop (n key)).length = (groupOf intents key).length - n key := by
    rw [List.length_drop, hAdef, (hsort _).length_eq]
  refine ⟨fun i hi => ?_⟩
  have hused := @usedIds_pairLoop_self (splitKey key).1 (splitKey key).2 _ _ _ hpre hA
    (hnodup.sublist ((List.drop_sublist _ _).map _)) i.intentId
  rw [hlen, mem_map_intentId hids
    (fun j hj => (hmemA.1 (List.mem_of_mem_drop (List.mem_of_mem_take hj))).1) hi] at hused
  rw [hround, List.mem_append, hU.mem_iff i hi, hused]
  by_cases hk : i.key = key
  · rw [hk, Function.update_self, List.take_add, List.mem_append, ← hAdef]
  · have hnot : i ∉ (A.drop (n key)).take (2 * (((groupOf intents key).length - n key) / 2)) :=
      fun h => hk (hmemA.1 (List.mem_of_mem_drop (List.mem_of_mem_take h))).2
    rw [Function.update_of_ne hk, or_iff_left hnot]

/-- The rounds for a list of keys, in numbers. -/
theorem Uses.rounds (hsort : ∀ group, (sort group).Perm group)
    (hids : (intents.map (·.intentId)).Nodup) (keys : List String) (hU : Uses sort intents n used) :
    Uses sort intents (pairedOff (fun k => (groupOf intents k).length) keys n)
      (used ++ usedIds (rounds sort intents keys used)) := by
  induction keys generalizing n used with
  | nil => simpa [Mpc.rounds, pairedOff, usedIds] using hU
  | cons key keys ih =>
      rw [Mpc.rounds, usedIds_append, ← List.append_assoc, ← round_used, pairedOff]
      dsimp only
      split
      · next heq => exact ih (hU.roundSelf hsort hids heq)
      · next hne => exact ih (hU.round hsort hids hne)

/-- **Who is matched.** An intent is in a match when it is among the first of its group, as many as the
numbers pair off. -/
theorem mem_usedIds_iff (hsort : ∀ group, (sort group).Perm group)
    (hids : (intents.map (·.intentId)).Nodup) {i : Reconstructed} (hi : i ∈ intents) :
    i.intentId ∈ usedIds (matchIntentsBy sort intents) ↔
      i ∈ (sort (groupOf intents i.key)).take (quota intents i.key) := by
  have hnone : Uses sort intents (fun _ => 0) [] := ⟨by simp⟩
  have hall := hnone.rounds hsort hids (groupKeys intents)
  rw [List.nil_append] at hall
  rw [matchIntentsBy_eq_rounds hsort]
  exact hall.mem_iff i hi

end

/-! ## Names without bars -/

/-- What is paired off of a group whose reverse no third group is paired against. -/
def pairQuota (size : String → ℕ) (key : String) : ℕ :=
  if reverseKey key = key then 2 * (size key / 2) else min (size key) (size (reverseKey key))

/-- Keys that are recovered from their reverse are paired off as if no other group were there. -/
theorem pairedOff_eq {size n : String → ℕ} {done keys : List String}
    (hkeys : ∀ key ∈ keys, reverseKey (reverseKey key) = key) (hnodup : (done ++ keys).Nodup)
    (hn : ∀ key, reverseKey (reverseKey key) = key →
      n key = if key ∈ done ∨ reverseKey key ∈ done then pairQuota size key else 0) {key : String}
    (hrev : reverseKey (reverseKey key) = key) :
    pairedOff size keys n key =
      if key ∈ done ++ keys ∨ reverseKey key ∈ done ++ keys then pairQuota size key else 0 := by
  induction keys generalizing n done with
  | nil => simpa [pairedOff] using hn key hrev
  | cons k keys ih =>
      rw [List.forall_mem_cons] at hkeys
      have happ : done ++ k :: keys = (done ++ [k]) ++ keys := by simp
      have hk : k ∉ done := fun h =>
        (List.nodup_append.1 hnodup).2.2 k h k List.mem_cons_self rfl
      have hmem : ∀ {j}, j ∈ done ++ [k] ↔ j ∈ done ∨ j = k := by simp
      rw [happ] at hnodup ⊢
      rw [pairedOff]
      dsimp only
      split
      · next heq =>
        refine ih hkeys.2 hnodup fun j hj => ?_
        have hjk : reverseKey j = k ↔ j = k :=
          ⟨fun h => by rw [← hj, h, heq], fun h => by rw [h, heq]⟩
        by_cases hj' : j = k
        · subst hj'
          have h0 : n j = 0 := by rw [hn j hj, if_neg (by simp [heq, hk])]
          rw [Function.update_self, h0, if_pos (.inl (hmem.2 (.inr rfl))), pairQuota, if_pos heq]
          simp
        · rw [Function.update_of_ne hj', hn j hj]
          simp only [hmem, hj', hjk, or_false]
      · next hne =>
        have hnk := hn k hkeys.1
        have hno := hn (reverseKey k) (by rw [hkeys.1])
        have hfull : pairQuota size (reverseKey k) = pairQuota size k := by
          rw [pairQuota, pairQuota, hkeys.1, if_neg hne, if_neg (Ne.symm hne), min_comm]
        have hfk : pairQuota size k = min (size k) (size (reverseKey k)) := if_neg hne
        rw [hkeys.1, hfull] at hno
        -- either the reverse group came before and both are done, or neither is
        have hboth : ∀ c : ℕ, n k = c → n (reverseKey k) = c → (c = pairQuota size k ∨ c = 0) →
            c + min (size k - c) (size (reverseKey k) - c) = pairQuota size k := by
          rintro c - - (rfl | rfl)
          · omega
          · omega
        have hsame : n (reverseKey k) = n k := by
          rw [hnk, hno]
          simp only [or_comm]
        have hvalue : n k = pairQuota size k ∨ n k = 0 := by
          rw [hnk]
          split
          · exact .inl rfl
          · exact .inr rfl
        have hnew := hboth (n k) rfl hsame hvalue
        rw [hsame]
        refine ih hkeys.2 hnodup fun j hj => ?_
        by_cases hjo : j = reverseKey k
        · subst hjo
          rw [Function.update_self, hnew, hkeys.1, if_pos (.inr (hmem.2 (.inr rfl))), hfull]
        · rw [Function.update_of_ne hjo]
          by_cases hjk : j = k
          · subst hjk
            rw [Function.update_self, hnew, if_pos (.inl (hmem.2 (.inr rfl)))]
          · have hjr : reverseKey j ≠ k := fun h => hjo (by rw [← hj, h])
            rw [Function.update_of_ne hjk, hn j hj]
            simp only [hmem, hjk, hjr, or_false]

theorem reverseKey_pairKey {x y : String} (hx : ¬ Barred x) (hy : ¬ Barred y) :
    reverseKey (pairKey x y) = pairKey y x := by
  rw [reverseKey, splitKey_pairKey hx hy]

/-- **Without bars** the smaller side is used up, and of those who give an asset for itself all, or all
but one. -/
theorem quota_of_plain {intents : List Reconstructed}
    (h : ∀ i ∈ intents, ¬ Barred i.inputAsset ∧ ¬ Barred i.outputAsset) {i : Reconstructed}
    (hi : i ∈ intents) :
    quota intents i.key =
      if i.inputAsset = i.outputAsset then
        2 * (intents.countP (gives i.inputAsset i.outputAsset) / 2)
      else min (intents.countP (gives i.inputAsset i.outputAsset))
        (intents.countP (gives i.outputAsset i.inputAsset)) := by
  have hsize : ∀ {x y}, ¬ Barred x → ¬ Barred y →
      (groupOf intents (pairKey x y)).length = intents.countP (gives x y) := by
    intro x y hx hy
    rw [groupOf, List.countP_eq_length_filter]
    refine congrArg List.length (List.filter_congr fun j hj => ?_)
    have := @mem_groupOf_pairKey intents x y hx hy j
    rw [mem_groupOf, and_congr_right_iff] at this
    exact Bool.eq_iff_iff.2 (decide_eq_true_iff.trans (this hj))
  have hkeys : ∀ key ∈ groupKeys intents, reverseKey (reverseKey key) = key := by
    intro key hkey
    obtain ⟨j, hj, rfl⟩ := mem_groupKeys.1 hkey
    obtain ⟨hx, hy⟩ := h j hj
    rw [Reconstructed.key, reverseKey_pairKey hx hy, reverseKey_pairKey hy hx]
  obtain ⟨hx, hy⟩ := h i hi
  have hmem : i.key ∈ groupKeys intents := mem_groupKeys.2 ⟨i, hi, rfl⟩
  have hnodup : ([] ++ groupKeys intents).Nodup := nodup_addKeys List.nodup_nil intents
  have hq : quota intents i.key = pairQuota (fun k => (groupOf intents k).length) i.key := by
    rw [quota, pairedOff_eq hkeys hnodup (by simp) (hkeys _ hmem), List.nil_append,
      if_pos (.inl hmem)]
  rw [hq, pairQuota, Reconstructed.key, reverseKey_pairKey hx hy, hsize hx hy, hsize hy hx]
  refine if_congr ⟨fun heq => ?_, fun heq => by rw [heq]⟩ rfl rfl
  exact (pairKey_inj hx hy heq).1.symm

end ShadePay.Mpc
