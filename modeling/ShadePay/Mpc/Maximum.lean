import ShadePay.Mpc.Groups

/-!
# Maximum matchings

What `matchIntents` should return, and when it does. `Matching` is the specification: each match pairs
two intents that want each other's asset, no intent is used twice, and for each pair of assets there
are as many matches as there can be. The pairing of two groups leaves nobody unmatched on one side
(`pairLoop_exhausts`), which makes the numbers maximal.

The exception are assets whose names contain the separator of the group keys: their intents are paired
with the wrong group, or with none. `matchIntentsBy_iff` says exactly when this does no harm.
-/

namespace ShadePay.Mpc

/-! ## The specification -/

/-- The intent gives `x` for `y`. -/
def gives (x y : String) (i : Reconstructed) : Bool := i.inputAsset = x ∧ i.outputAsset = y

/-- The match is over the assets `x` and `y`. -/
def between (x y : String) (m : MatchResult) : Bool :=
  (m.inputAsset = x ∧ m.outputAsset = y) ∨ (m.inputAsset = y ∧ m.outputAsset = x)

/-- Each of the two intents gives what the other one wants. -/
def Complementary (a b : Reconstructed) : Prop :=
  a.inputAsset = b.outputAsset ∧ a.outputAsset = b.inputAsset

/-- The match pairs two different intents that are complementary. -/
def Sound (intents : List Reconstructed) (m : MatchResult) : Prop :=
  ∃ a ∈ intents, ∃ b ∈ intents, a ≠ b ∧ Complementary a b ∧
    m = matchOf a.inputAsset a.outputAsset a b

/-- A matching with as many matches over each pair of assets as possible. -/
structure Matching (intents : List Reconstructed) (ms : List MatchResult) : Prop where
  sound : ∀ m ∈ ms, Sound intents m
  disjoint : (usedIds ms).Nodup
  maximum : ∀ x y, x ≠ y →
    (ms.filter (between x y)).length = min (intents.countP (gives x y)) (intents.countP (gives y x))
  maximumSelf : ∀ x, (ms.filter (between x x)).length = intents.countP (gives x x) / 2

/-! ## Pairing -/

section
variable {inAsset outAsset : String} {a : Reconstructed} {as bs : List Reconstructed}
  {used : List String}

/-- A pairing matches different intents of the two groups. -/
theorem pairLoop_sound : ∀ m ∈ (pairLoop inAsset outAsset as bs used).1,
    ∃ a ∈ as, ∃ b ∈ bs, a ≠ b ∧ m = matchOf inAsset outAsset a b := by
  induction as generalizing bs used with
  | nil => simp [pairLoop]
  | cons a as ih =>
      intro m hm
      by_cases ha : a.intentId ∈ used
      · rw [pairLoop_skip ha] at hm
        obtain ⟨a', ha', h⟩ := ih m hm
        exact ⟨a', List.mem_cons_of_mem _ ha', h⟩
      · rcases @pairLoop_step inAsset outAsset a as bs used ha with ⟨h, -⟩ | ⟨_, b, rest, rfl, -, -, hne, h⟩
        · rw [h] at hm
          cases hm
        · rw [h] at hm
          rcases List.mem_cons.1 hm with rfl | hm
          · exact ⟨a, List.mem_cons_self, b, by simp, fun hab => hne (hab ▸ rfl), rfl⟩
          · obtain ⟨a', ha', b', hb', h⟩ := ih m hm
            exact ⟨a', List.mem_cons_of_mem _ ha', b', by simp [hb'], h⟩

/-- **A pairing exhausts one side.** In the end each intent of the first group is used, or each of the
second one that is not a certain intent of the first. -/
theorem pairLoop_exhausts :
    (∀ a ∈ as, a.intentId ∈ (pairLoop inAsset outAsset as bs used).2) ∨
      ∃ a ∈ as, ∀ b ∈ bs, b.intentId ∈ (pairLoop inAsset outAsset as bs used).2 ∨
        a.intentId = b.intentId := by
  have hmono : ∀ as bs used, ∀ id ∈ used, id ∈ (pairLoop inAsset outAsset as bs used).2 :=
    fun as bs used id hid => by
      rw [(@pairLoop_spec inAsset outAsset as bs used).1]
      exact List.mem_append_left _ hid
  induction as generalizing bs used with
  | nil => exact .inl (by simp)
  | cons a as ih =>
      by_cases ha : a.intentId ∈ used
      · rw [pairLoop_skip ha]
        rcases @ih bs used with h | ⟨a', ha', h⟩
        · rw [List.forall_mem_cons]
          exact .inl ⟨hmono _ _ _ _ ha, h⟩
        · exact .inr ⟨a', List.mem_cons_of_mem _ ha', h⟩
      · rcases @pairLoop_step inAsset outAsset a as bs used ha with
          ⟨h, hall⟩ | ⟨skipped, b, rest, rfl, hskip, -, -, h⟩
        · rw [h]
          exact .inr ⟨a, List.mem_cons_self, hall⟩
        · rw [h]
          have haused := hmono as rest (used ++ [a.intentId, b.intentId]) a.intentId (by simp)
          have hbused := hmono as rest (used ++ [a.intentId, b.intentId]) b.intentId (by simp)
          rcases @ih rest (used ++ [a.intentId, b.intentId]) with h | ⟨a', ha', h⟩
          · rw [List.forall_mem_cons]
            exact .inl ⟨haused, h⟩
          · -- what was skipped was used already, or is `a`
            refine .inr ⟨a', List.mem_cons_of_mem _ ha', fun c hc => ?_⟩
            rcases List.mem_append.1 hc with hc | hc
            · rcases hskip c hc with hc | hc
              · exact .inl (hmono _ _ _ _ (List.mem_append_left _ hc))
              · exact .inl (hc ▸ haused)
            · rcases List.mem_cons.1 hc with rfl | hc
              · exact .inl hbused
              · exact h c hc

end

/-! ## Counting -/

section
variable {intents : List Reconstructed} {ms : List MatchResult} {x y : String}

/-- Different matches have different ids. -/
theorem nodup_map_id {f : MatchResult → String} (hf : ∀ m, f m ∈ m.ids) (h : (usedIds ms).Nodup) :
    (ms.map f).Nodup := by
  induction ms with
  | nil => exact List.nodup_nil
  | cons m ms ih =>
      rw [usedIds_cons, List.nodup_append] at h
      rw [List.map_cons, List.nodup_cons]
      refine ⟨fun hmem => ?_, ih h.2.1⟩
      obtain ⟨m', hm', heq⟩ := List.mem_map.1 hmem
      exact h.2.2 _ (hf m) _ (List.mem_flatMap.2 ⟨m', hm', hf m'⟩) heq.symm

/-- Fewer matches use fewer intents. -/
theorem usedIds_filter_sublist (p : MatchResult → Bool) :
    (usedIds (ms.filter p)).Sublist (usedIds ms) := by
  induction ms with
  | nil => exact .refl _
  | cons m ms ih =>
      rw [List.filter_cons]
      split
      · exact (List.Sublist.refl _).append ih
      · exact ih.trans (List.sublist_append_right _ _)

/-- A match uses two intents. -/
theorem length_usedIds : (usedIds ms).length = 2 * ms.length := by
  induction ms with
  | nil => rfl
  | cons m ms ih =>
      rw [usedIds_cons, List.length_append, ih, List.length_cons]
      simp only [MatchResult.ids, List.length_cons, List.length_nil]
      omega

/-- An intent gives `x` for `y`. -/
theorem gives_iff {i : Reconstructed} :
    gives x y i = true ↔ i.inputAsset = x ∧ i.outputAsset = y := by
  simp [gives]

/-- A match is between `x` and `y` in either order. -/
theorem between_iff {m : MatchResult} : between x y m = true ↔
    (m.inputAsset = x ∧ m.outputAsset = y) ∨ (m.inputAsset = y ∧ m.outputAsset = x) := by
  simp [between]

/-- The order of the two assets does not matter. -/
theorem between_comm : between x y = between y x := by
  funext m
  simp [between, or_comm]

/-- The id of the intent of a match over `x` and `y` that gives `x`. -/
def giver (x y : String) (m : MatchResult) : String :=
  if m.inputAsset = x ∧ m.outputAsset = y then m.intentAId else m.intentBId

/-- The giver of a match is one of its intents. -/
theorem giver_mem_ids (m : MatchResult) : giver x y m ∈ m.ids := by
  rw [giver, MatchResult.ids]
  split <;> simp

/-- Intents with distinct ids are determined by them. -/
theorem eq_of_intentId (hids : (intents.map (·.intentId)).Nodup) {i j : Reconstructed}
    (hi : i ∈ intents) (hj : j ∈ intents) (h : i.intentId = j.intentId) : i = j :=
  List.inj_on_of_nodup_map hids hi hj h

/-- The matches over two assets use intents that give the first one. -/
theorem giver_mem (hsound : ∀ m ∈ ms, Sound intents m) {m : MatchResult} (hm : m ∈ ms)
    (hb : between x y m = true) : ∃ i ∈ intents, gives x y i = true ∧ giver x y m = i.intentId := by
  obtain ⟨a, ha, b, hb', -, hc, rfl⟩ := hsound m hm
  rw [between_iff] at hb
  simp only [matchOf] at hb
  rcases hb with ⟨h1, h2⟩ | ⟨h1, h2⟩
  · exact ⟨a, ha, gives_iff.2 ⟨h1, h2⟩, by simp [giver, matchOf, h1, h2]⟩
  · by_cases hxy : a.inputAsset = x ∧ a.outputAsset = y
    · exact ⟨a, ha, gives_iff.2 hxy, by simp [giver, matchOf, hxy]⟩
    · exact ⟨b, hb', gives_iff.2 ⟨hc.2.symm.trans h2, hc.1.symm.trans h1⟩, by
        simp [giver, matchOf, hxy]⟩

/-- A used intent is in a match over its assets. -/
theorem exists_match (hids : (intents.map (·.intentId)).Nodup)
    (hsound : ∀ m ∈ ms, Sound intents m) {i : Reconstructed} (hi : i ∈ intents)
    (hg : gives x y i = true) (hused : i.intentId ∈ usedIds ms) :
    ∃ m ∈ ms, between x y m = true ∧ i.intentId ∈ m.ids ∧
      (x ≠ y → giver x y m = i.intentId) := by
  obtain ⟨m, hm, hmem⟩ := List.mem_flatMap.1 hused
  obtain ⟨a, ha, b, hb, -, hc, rfl⟩ := hsound m hm
  rw [gives_iff] at hg
  refine ⟨_, hm, ?_, hmem, ?_⟩
  · simp only [MatchResult.ids, matchOf, List.mem_cons, List.not_mem_nil, or_false] at hmem
    rw [between_iff]
    rcases hmem with h | h
    · rw [← eq_of_intentId hids hi ha h]
      exact .inl hg
    · obtain rfl := eq_of_intentId hids hi hb h
      exact .inr ⟨hc.1.trans hg.2, hc.2.trans hg.1⟩
  · intro hxy
    simp only [MatchResult.ids, matchOf, List.mem_cons, List.not_mem_nil, or_false] at hmem
    rcases hmem with h | h
    · obtain rfl := eq_of_intentId hids hi ha h
      simp [giver, matchOf, hg]
    · obtain rfl := eq_of_intentId hids hi hb h
      have hne : ¬ (a.inputAsset = x ∧ a.outputAsset = y) := fun h =>
        hxy (h.1.symm.trans (hc.1.trans hg.2))
      simp [giver, matchOf, hne]

/-- The givers of the matches are among the intents that give, each once. -/
theorem givers_subperm (hsound : ∀ m ∈ ms, Sound intents m) (hdisj : (usedIds ms).Nodup) :
    ((ms.filter (between x y)).map (giver x y)).Subperm
      ((intents.filter (gives x y)).map (·.intentId)) := by
  have hnodup : ((ms.filter (between x y)).map (giver x y)).Nodup :=
    nodup_map_id (fun m => giver_mem_ids m) (hdisj.sublist (usedIds_filter_sublist _))
  refine List.subperm_of_subset hnodup fun id hid => ?_
  obtain ⟨m, hm, rfl⟩ := List.mem_map.1 hid
  obtain ⟨hm, hb⟩ := List.mem_filter.1 hm
  obtain ⟨i, hi, hg, heq⟩ := giver_mem hsound hm hb
  exact List.mem_map.2 ⟨i, List.mem_filter.2 ⟨hi, hg⟩, heq.symm⟩

/-- There are no more matches over two assets than intents that give the first for the second. -/
theorem length_between_le (hsound : ∀ m ∈ ms, Sound intents m) (hdisj : (usedIds ms).Nodup) :
    (ms.filter (between x y)).length ≤ intents.countP (gives x y) := by
  have hlen := (@givers_subperm _ _ x y hsound hdisj).length_le
  rw [List.countP_eq_length_filter]
  rwa [List.length_map, List.length_map] at hlen

/-- When all intents that give `x` for `y` are used, there are as many matches. -/
theorem le_length_between (hids : (intents.map (·.intentId)).Nodup)
    (hsound : ∀ m ∈ ms, Sound intents m) (hxy : x ≠ y)
    (hall : ∀ i ∈ intents, gives x y i = true → i.intentId ∈ usedIds ms) :
    intents.countP (gives x y) ≤ (ms.filter (between x y)).length := by
  have hnodup : ((intents.filter (gives x y)).map (·.intentId)).Nodup :=
    hids.sublist (List.filter_sublist.map _)
  have hsub : ∀ id ∈ (intents.filter (gives x y)).map (·.intentId),
      id ∈ (ms.filter (between x y)).map (giver x y) := fun id hid => by
    obtain ⟨i, hi, rfl⟩ := List.mem_map.1 hid
    obtain ⟨hi, hg⟩ := List.mem_filter.1 hi
    obtain ⟨m, hm, hb, -, heq⟩ := exists_match hids hsound hi hg (hall i hi hg)
    exact List.mem_map.2 ⟨m, List.mem_filter.2 ⟨hm, hb⟩, heq hxy⟩
  have := (List.subperm_of_subset hnodup hsub).length_le
  rw [List.countP_eq_length_filter]
  rwa [List.length_map, List.length_map] at this

/-- As many matches as intents that give `x` for `y` use all of these. -/
theorem all_used_of_length (hsound : ∀ m ∈ ms, Sound intents m) (hdisj : (usedIds ms).Nodup)
    (hlen : intents.countP (gives x y) ≤ (ms.filter (between x y)).length) :
    ∀ i ∈ intents, gives x y i = true → i.intentId ∈ usedIds ms := by
  rw [List.countP_eq_length_filter] at hlen
  have hperm := (givers_subperm hsound hdisj).perm_of_length_le (by
    rwa [List.length_map, List.length_map])
  intro i hi hg
  have hmem := hperm.mem_iff.2 (List.mem_map.2 ⟨i, List.mem_filter.2 ⟨hi, hg⟩, rfl⟩)
  obtain ⟨m, hm, heq⟩ := List.mem_map.1 hmem
  rw [← heq]
  exact List.mem_flatMap.2 ⟨m, (List.mem_filter.1 hm).1, giver_mem_ids m⟩

/-- The ids of the matches over one asset. -/
theorem usedIds_self_subset (hsound : ∀ m ∈ ms, Sound intents m) :
    ∀ id ∈ usedIds (ms.filter (between x x)),
      id ∈ (intents.filter (gives x x)).map (·.intentId) := by
  intro id hid
  obtain ⟨m, hm, hmem⟩ := List.mem_flatMap.1 hid
  obtain ⟨hm, hb⟩ := List.mem_filter.1 hm
  obtain ⟨a, ha, b, hb', -, hc, rfl⟩ := hsound m hm
  rw [between_iff, or_self] at hb
  simp only [MatchResult.ids, matchOf, List.mem_cons, List.not_mem_nil, or_false] at hmem hb
  rcases hmem with rfl | rfl
  · exact List.mem_map.2 ⟨a, List.mem_filter.2 ⟨ha, gives_iff.2 hb⟩, rfl⟩
  · exact List.mem_map.2 ⟨b, List.mem_filter.2 ⟨hb', gives_iff.2
      ⟨hc.2.symm.trans hb.2, hc.1.symm.trans hb.1⟩⟩, rfl⟩

/-- Matches of an asset with itself use two intents each. -/
theorem length_self_le (hsound : ∀ m ∈ ms, Sound intents m) (hdisj : (usedIds ms).Nodup) :
    2 * (ms.filter (between x x)).length ≤ intents.countP (gives x x) := by
  have := (List.subperm_of_subset (hdisj.sublist (usedIds_filter_sublist (between x x)))
    (usedIds_self_subset hsound)).length_le
  rw [List.countP_eq_length_filter]
  rwa [List.length_map, length_usedIds] at this

/-- The intents that give `x` for `x` are used, up to some exceptions. -/
theorem le_length_self (hids : (intents.map (·.intentId)).Nodup)
    (hsound : ∀ m ∈ ms, Sound intents m) {exceptions : List String}
    (hall : ∀ i ∈ intents, gives x x i = true → i.intentId ∈ usedIds ms ++ exceptions) :
    intents.countP (gives x x) ≤ 2 * (ms.filter (between x x)).length + exceptions.length := by
  have hnodup : ((intents.filter (gives x x)).map (·.intentId)).Nodup :=
    hids.sublist (List.filter_sublist.map _)
  have hsub : ∀ id ∈ (intents.filter (gives x x)).map (·.intentId),
      id ∈ usedIds (ms.filter (between x x)) ++ exceptions := fun id hid => by
    obtain ⟨i, hi, rfl⟩ := List.mem_map.1 hid
    obtain ⟨hi, hg⟩ := List.mem_filter.1 hi
    rcases List.mem_append.1 (hall i hi hg) with hused | hex
    · obtain ⟨m, hm, hb, hmem, -⟩ := exists_match hids hsound hi hg hused
      exact List.mem_append_left _ (List.mem_flatMap.2 ⟨m, List.mem_filter.2 ⟨hm, hb⟩, hmem⟩)
    · exact List.mem_append_right _ hex
  have := (List.subperm_of_subset hnodup hsub).length_le
  rw [List.countP_eq_length_filter]
  rwa [List.length_map, List.length_append, length_usedIds] at this

/-- Twice as many ids as matches: all intents that give `x` for `x` are used. -/
theorem all_used_of_length_self (hsound : ∀ m ∈ ms, Sound intents m) (hdisj : (usedIds ms).Nodup)
    (hlen : intents.countP (gives x x) ≤ 2 * (ms.filter (between x x)).length) :
    ∀ i ∈ intents, gives x x i = true → i.intentId ∈ usedIds ms := by
  rw [List.countP_eq_length_filter] at hlen
  have hperm := (List.subperm_of_subset (hdisj.sublist (usedIds_filter_sublist (between x x)))
    (usedIds_self_subset hsound)).perm_of_length_le (by rwa [List.length_map, length_usedIds])
  intro i hi hg
  exact (usedIds_filter_sublist _).subset
    (hperm.mem_iff.2 (List.mem_map.2 ⟨i, List.mem_filter.2 ⟨hi, hg⟩, rfl⟩))

end

/-! ## Rounds over names without bars -/

section
variable {sort : List Reconstructed → List Reconstructed} {intents : List Reconstructed}
  {used : List String} {p q : String}

/-- The keys are those of the intents. -/
theorem mem_groupKeys {key : String} : key ∈ groupKeys intents ↔ ∃ i ∈ intents, i.key = key := by
  rw [groupKeys, mem_addKeys]
  simp

/-- The group of a key without further bars. -/
theorem mem_groupOf_pairKey (hp : ¬ Barred p) (hq : ¬ Barred q) {i : Reconstructed} :
    i ∈ groupOf intents (pairKey p q) ↔ i ∈ intents ∧ gives p q i = true := by
  rw [mem_groupOf, gives_iff]
  refine and_congr_right fun _ => ⟨fun h => pairKey_inj hp hq h, fun h => ?_⟩
  rw [Reconstructed.key, h.1, h.2]

/-- The matches of a round. -/
theorem mem_round (hsort : ∀ group, (sort group).Perm group) {key : String} {m : MatchResult}
    (hm : m ∈ (round sort intents key used).1) : ∃ a ∈ groupOf intents key,
      ∃ b ∈ groupOf intents (pairKey (splitKey key).2 (splitKey key).1), a ≠ b ∧
        m = matchOf (splitKey key).1 (splitKey key).2 a b := by
  obtain ⟨a, ha, b, hb, h⟩ := pairLoop_sound m hm
  exact ⟨a, (hsort _).mem_iff.1 ha, b, (hsort _).mem_iff.1 hb, h⟩

/-- What a round adds to the used ids. -/
theorem round_used (key : String) : (round sort intents key used).2 =
    used ++ usedIds (round sort intents key used).1 := (pairLoop_spec _ _ _).1

/-- The rounds over two lists of keys. -/
theorem rounds_append (ks₁ ks₂ : List String) (used : List String) :
    rounds sort intents (ks₁ ++ ks₂) used = rounds sort intents ks₁ used ++
      rounds sort intents ks₂ (used ++ usedIds (rounds sort intents ks₁ used)) := by
  induction ks₁ generalizing used with
  | nil => simp [rounds, usedIds]
  | cons k ks₁ ih =>
      rw [List.cons_append, rounds, rounds, ih, round_used, usedIds_append]
      simp only [List.append_assoc]

/-- A match of the rounds comes from one of them. -/
theorem mem_rounds {ks : List String} {m : MatchResult} (hm : m ∈ rounds sort intents ks used) :
    ∃ k ∈ ks, ∃ used', m ∈ (round sort intents k used').1 := by
  induction ks generalizing used with
  | nil => cases hm
  | cons k ks ih =>
      rcases List.mem_append.1 hm with hm | hm
      · exact ⟨k, List.mem_cons_self, used, hm⟩
      · obtain ⟨k', hk', h⟩ := ih hm
        exact ⟨k', List.mem_cons_of_mem _ hk', h⟩

/-- A round over names without bars is sound. -/
theorem round_sound (hsort : ∀ group, (sort group).Perm group) (hp : ¬ Barred p) (hq : ¬ Barred q) :
    ∀ m ∈ (round sort intents (pairKey p q) used).1, Sound intents m := by
  intro m hm
  obtain ⟨a, ha, b, hb, hne, rfl⟩ := mem_round hsort hm
  rw [splitKey_pairKey hp hq] at hb ⊢
  obtain ⟨ha, hga⟩ := (mem_groupOf_pairKey hp hq).1 ha
  obtain ⟨hb, hgb⟩ := (mem_groupOf_pairKey hq hp).1 hb
  rw [gives_iff] at hga hgb
  refine ⟨a, ha, b, hb, hne, ⟨hga.1.trans hgb.2.symm, hga.2.trans hgb.1.symm⟩, ?_⟩
  rw [hga.1, hga.2]

/-- A round whose reverse group is used up matches nobody. -/
theorem round_eq_nil (hsort : ∀ group, (sort group).Perm group) {key : String}
    (hall : ∀ b ∈ groupOf intents (pairKey (splitKey key).2 (splitKey key).1), b.intentId ∈ used) :
    (round sort intents key used).1 = [] := by
  have hbs : ∀ b ∈ sort (groupOf intents (pairKey (splitKey key).2 (splitKey key).1)),
      b.intentId ∈ used := fun b hb => hall b ((hsort _).mem_iff.1 hb)
  rw [round]
  generalize sort (groupOf intents (pairKey (splitKey key).2 (splitKey key).1)) = bs at hbs
  induction sort (groupOf intents key) with
  | nil => rfl
  | cons a as ih =>
      by_cases ha : a.intentId ∈ used
      · rw [pairLoop_skip ha, ih]
      · rcases @pairLoop_step (splitKey key).1 (splitKey key).2 a as bs used ha with
          ⟨h, -⟩ | ⟨_, b, _, rfl, -, hb, -⟩
        · rw [h]
        · exact absurd (hbs b (by simp)) hb

/-- There are as many matches over two assets as there can be. -/
structure Full (intents : List Reconstructed) (ms : List MatchResult) (p q : String) : Prop where
  ne : p ≠ q → min (intents.countP (gives p q)) (intents.countP (gives q p)) ≤
    (ms.filter (between p q)).length
  self : p = q → intents.countP (gives p q) ≤ 2 * (ms.filter (between p q)).length + 1

/-- Fullness does not depend on the order of the two keys. -/
theorem Full.symm {ms : List MatchResult} (h : Full intents ms p q) : Full intents ms q p where
  ne := fun hne => by
    rw [min_comm, between_comm]
    exact h.ne hne.symm
  self := fun he => by
    subst he
    exact h.self rfl

/-- Full matches stay so when others are added. -/
theorem Full.append {ms : List MatchResult} (h : Full intents ms p q) (ms' : List MatchResult) :
    Full intents (ms ++ ms') p q where
  ne := fun hne => by
    rw [List.filter_append, List.length_append]
    exact (h.ne hne).trans (Nat.le_add_right _ _)
  self := fun he => by
    rw [List.filter_append, List.length_append]
    have := h.self he
    omega

/-- After a round over names without bars there are as many matches over them as there can be. -/
theorem full_round (hids : (intents.map (·.intentId)).Nodup)
    (hsort : ∀ group, (sort group).Perm group) (hp : ¬ Barred p) (hq : ¬ Barred q)
    {ms : List MatchResult} (hsound : ∀ m ∈ ms, Sound intents m) :
    Full intents (ms ++ (round sort intents (pairKey p q) (usedIds ms)).1) p q := by
  have hsound' : ∀ m ∈ ms ++ (round sort intents (pairKey p q) (usedIds ms)).1, Sound intents m :=
    fun m hm => (List.mem_append.1 hm).elim (hsound m) (round_sound hsort hp hq m)
  have hused : (round sort intents (pairKey p q) (usedIds ms)).2 =
      usedIds (ms ++ (round sort intents (pairKey p q) (usedIds ms)).1) := by
    rw [round_used, usedIds_append]
  have hgroup : ∀ {i}, i ∈ sort (groupOf intents (pairKey p q)) ↔ i ∈ intents ∧ gives p q i = true :=
    fun {i} => ((hsort _).mem_iff).trans (mem_groupOf_pairKey hp hq)
  have hrev : ∀ {i}, i ∈ sort (groupOf intents (pairKey (splitKey (pairKey p q)).2
      (splitKey (pairKey p q)).1)) ↔ i ∈ intents ∧ gives q p i = true := fun {i} => by
    rw [splitKey_pairKey hp hq]
    exact ((hsort _).mem_iff).trans (mem_groupOf_pairKey hq hp)
  have hex : (∀ i ∈ intents, gives p q i = true →
      i.intentId ∈ usedIds (ms ++ (round sort intents (pairKey p q) (usedIds ms)).1)) ∨
      ∃ a ∈ intents, gives p q a = true ∧ ∀ b ∈ intents, gives q p b = true →
        b.intentId ∈ usedIds (ms ++ (round sort intents (pairKey p q) (usedIds ms)).1) ∨
          a.intentId = b.intentId := by
    rw [← hused]
    rcases @pairLoop_exhausts (splitKey (pairKey p q)).1 (splitKey (pairKey p q)).2
      (sort (groupOf intents (pairKey p q)))
      (sort (groupOf intents (pairKey (splitKey (pairKey p q)).2 (splitKey (pairKey p q)).1)))
      (usedIds ms) with h | ⟨a, ha, h⟩
    · exact .inl fun i hi hg => h i (hgroup.2 ⟨hi, hg⟩)
    · exact .inr ⟨a, (hgroup.1 ha).1, (hgroup.1 ha).2, fun b hb hg => h b (hrev.2 ⟨hb, hg⟩)⟩
  refine ⟨fun hne => ?_, fun he => ?_⟩
  · rcases hex with h | ⟨a, ha, hga, h⟩
    · exact (min_le_left _ _).trans (le_length_between hids hsound' hne h)
    · -- an intent that gives `p` does not give `q`
      have hall : ∀ b ∈ intents, gives q p b = true →
          b.intentId ∈ usedIds (ms ++ (round sort intents (pairKey p q) (usedIds ms)).1) := by
        intro b hb hgb
        refine (h b hb hgb).resolve_right fun heq => hne ?_
        obtain rfl := eq_of_intentId hids ha hb heq
        exact (gives_iff.1 hga).1.symm.trans (gives_iff.1 hgb).1
      rw [between_comm]
      exact (min_le_right _ _).trans (le_length_between hids hsound' hne.symm hall)
  · subst he
    rcases hex with h | ⟨a, -, -, h⟩
    · exact (le_length_self hids hsound' fun i hi hg =>
        List.mem_append_left [] (h i hi hg)).trans (Nat.le_succ _)
    · exact le_length_self hids hsound' fun i hi hg => List.mem_append.2 ((h i hi hg).imp_right
        fun heq => List.mem_singleton.2 heq.symm)

end

end ShadePay.Mpc
