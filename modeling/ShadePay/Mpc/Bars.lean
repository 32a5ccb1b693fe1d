import Mathlib.Data.List.Induction
import ShadePay.Mpc.Maximum

/-!
# Assets with a bar in their name

The keys of the groups separate the two assets by a bar and are split at the first bars again. An
intent over an asset with a bar in its name is therefore paired against the group of two other assets,
`splitKey` of its key the wrong way round. `Harmless` is the condition under which this neither
misses a match nor makes a wrong one: nobody complements such an intent, and the group it is paired
against is empty or used up when its turn comes. `matchIntentsBy_iff` says that the matcher returns a
maximum matching exactly then.
-/

namespace ShadePay.Mpc

/-- One of the intent's assets has a bar in its name. -/
def Reconstructed.Barred (i : Reconstructed) : Prop :=
  Mpc.Barred i.inputAsset ∨ Mpc.Barred i.outputAsset

/-- The intents that give `q` for `p` have all found counterparties before the group of `key` is
reached: one of the two groups over `p` and `q` comes before it, and the other side is large enough. -/
structure Taken (intents : List Reconstructed) (key p q : String) : Prop where
  before : ∃ c ∈ intents.takeWhile (·.key ≠ key), gives p q c = true ∨ gives q p c = true
  enough : p ≠ q → intents.countP (gives q p) ≤ intents.countP (gives p q)
  even : p = q → Even (intents.countP (gives p q))

/-- The intents with bars do no harm. -/
structure Harmless (intents : List Reconstructed) : Prop where
  alone : ∀ a ∈ intents, a.Barred → ∀ b ∈ intents, b ≠ a → ¬ Complementary a b
  taken : ∀ a ∈ intents, a.Barred →
    intents.countP (gives (splitKey a.key).2 (splitKey a.key).1) = 0 ∨
      Taken intents a.key (splitKey a.key).1 (splitKey a.key).2

section
variable {sort : List Reconstructed → List Reconstructed} {intents : List Reconstructed}

theorem not_barred_key (i : Reconstructed) :
    ¬ Barred (splitKey i.key).1 ∧ ¬ Barred (splitKey i.key).2 := not_barred_splitKey _ _

/-- The two pieces of a key are the assets of an intent without bars. -/
theorem Reconstructed.splitKey_key {i : Reconstructed} (h : ¬ i.Barred) :
    splitKey i.key = (i.inputAsset, i.outputAsset) :=
  splitKey_pairKey (fun h1 => h (.inl h1)) (fun h2 => h (.inr h2))

/-- An intent over plain assets is plain. -/
theorem Reconstructed.not_barred_of_gives {i : Reconstructed} {p q : String} (hp : ¬ Mpc.Barred p)
    (hq : ¬ Mpc.Barred q) (h : gives p q i = true) : ¬ i.Barred := by
  rw [gives_iff] at h
  rintro (h1 | h2)
  · exact hp (h.1 ▸ h1)
  · exact hq (h.2 ▸ h2)

/-- The matches of a list of rounds use no id twice. -/
theorem nodup_prefix (hsort : ∀ group, (sort group).Perm group) {ks₁ ks₂ : List String}
    (hkeys : groupKeys intents = ks₁ ++ ks₂) : (usedIds (rounds sort intents ks₁ [])).Nodup := by
  have h := (matchIntentsBy_spec hsort intents).1
  rw [matchIntentsBy_eq_rounds hsort, hkeys, rounds_append, usedIds_append] at h
  exact (List.nodup_append.1 h).1

/-- The place of a key among the keys. -/
theorem mem_keys_before {ks₁ ks₂ : List String} {k key : String}
    (hkeys : groupKeys intents = ks₁ ++ key :: ks₂) :
    k ∈ ks₁ ↔ ∃ c ∈ intents.takeWhile (·.key ≠ key), c.key = k := by
  have := addKeys_before (k := k) List.nodup_nil List.not_mem_nil hkeys
  simpa using this

/-- **When names with bars do no harm**: after each list of rounds the matches are sound, and over the
assets of its keys there are as many as there can be. -/
theorem Harmless.sound_full (hids : (intents.map (·.intentId)).Nodup)
    (hsort : ∀ group, (sort group).Perm group) (h : Harmless intents) (ks₁ ks₂ : List String)
    (hkeys : groupKeys intents = ks₁ ++ ks₂) :
    (∀ m ∈ rounds sort intents ks₁ [], Sound intents m) ∧
      ∀ p q, ¬ Barred p → ¬ Barred q → pairKey p q ∈ ks₁ ∨ pairKey q p ∈ ks₁ →
        Full intents (rounds sort intents ks₁ []) p q := by
  induction ks₁ using List.reverseRecOn generalizing ks₂ with
  | nil => exact ⟨by simp [rounds], by simp⟩
  | append_singleton ks₁ k ih =>
      have hkeys' : groupKeys intents = ks₁ ++ k :: ks₂ := by
        rw [hkeys, List.append_assoc, List.singleton_append]
      obtain ⟨hsound, hfull⟩ := ih (k :: ks₂) hkeys'
      have hdisj := nodup_prefix hsort hkeys'
      rw [rounds_append, rounds, rounds, List.append_nil, List.nil_append]
      obtain ⟨i, hi, rfl⟩ : ∃ i ∈ intents, i.key = k := mem_groupKeys.1 (by simp [hkeys])
      by_cases hbar : i.Barred
      · -- the group it is paired against is empty or used up
        obtain ⟨hp, hq⟩ := not_barred_key i
        have hnil : (round sort intents i.key (usedIds (rounds sort intents ks₁ []))).1 = [] := by
          refine round_eq_nil hsort fun b hb => ?_
          obtain ⟨hb, hgb⟩ := (mem_groupOf_pairKey hq hp).1 hb
          rcases h.taken i hi hbar with h0 | htaken
          · exact absurd hgb (List.countP_eq_zero.1 h0 b hb)
          · obtain ⟨c, hc, hgc⟩ := htaken.before
            have hmem : pairKey (splitKey i.key).1 (splitKey i.key).2 ∈ ks₁ ∨
                pairKey (splitKey i.key).2 (splitKey i.key).1 ∈ ks₁ := by
              simp only [gives_iff] at hgc
              refine hgc.imp (fun hg => ?_) fun hg => ?_
              · exact (mem_keys_before hkeys').2 ⟨c, hc, by rw [Reconstructed.key, hg.1, hg.2]⟩
              · exact (mem_keys_before hkeys').2 ⟨c, hc, by rw [Reconstructed.key, hg.1, hg.2]⟩
            have hF := hfull _ _ hp hq hmem
            rcases eq_or_ne (splitKey i.key).1 (splitKey i.key).2 with heq | hne
            · have heven := htaken.even heq
              rw [← heq] at heven hgb hF
              have h1 := hF.self rfl
              have h2 := length_self_le hsound hdisj (x := (splitKey i.key).1)
              obtain ⟨r, hr⟩ := heven
              exact all_used_of_length_self hsound hdisj (by omega) b hb hgb
            · have h1 := hF.ne hne
              rw [min_eq_right (htaken.enough hne), between_comm] at h1
              exact all_used_of_length hsound hdisj h1 b hb hgb
        rw [hnil, List.append_nil]
        refine ⟨hsound, fun p q hp hq hmem => hfull p q hp hq ?_⟩
        -- the key of an intent with bars is no key of names without
        have hne : ∀ p q, ¬ Barred p → ¬ Barred q → pairKey p q ≠ i.key := by
          intro p q hp hq heq
          obtain ⟨h1, h2⟩ := pairKey_inj hp hq heq.symm
          rcases hbar with hb | hb
          · exact hp (h1 ▸ hb)
          · exact hq (h2 ▸ hb)
        simpa [hne p q hp hq, hne q p hq hp] using hmem
      · have hp : ¬ Barred i.inputAsset := fun h1 => hbar (.inl h1)
        have hq : ¬ Barred i.outputAsset := fun h2 => hbar (.inr h2)
        refine ⟨fun m hm => (List.mem_append.1 hm).elim (hsound m) (round_sound hsort hp hq m),
          fun p q hp' hq' hmem => ?_⟩
        simp only [List.mem_append, List.mem_singleton] at hmem
        have hcases : (pairKey p q ∈ ks₁ ∨ pairKey q p ∈ ks₁) ∨ pairKey p q = i.key ∨
            pairKey q p = i.key := by tauto
        rcases hcases with hold | hnew | hnew
        · exact (hfull p q hp' hq' hold).append _
        · obtain ⟨rfl, rfl⟩ := pairKey_inj hp hq hnew
          exact full_round hids hsort hp hq hsound
        · obtain ⟨rfl, rfl⟩ := pairKey_inj hp hq hnew
          exact (full_round hids hsort hp hq hsound).symm

/-- Two intents that give for each other are complementary. -/
theorem complementary_of_gives {a b : Reconstructed} {x y : String} (ha : gives x y a = true)
    (hb : gives y x b = true) : Complementary a b := by
  rw [gives_iff] at ha hb
  exact ⟨ha.1.trans hb.2.symm, ha.2.trans hb.1.symm⟩

/-- An intent over a barred asset is barred. -/
theorem barred_of_gives {a : Reconstructed} {x y : String} (ha : gives x y a = true)
    (hbar : Barred x ∨ Barred y) : a.Barred := by
  rw [gives_iff] at ha
  exact hbar.imp (fun h => by rwa [ha.1]) fun h => by rwa [ha.2]

/-- Nobody can be matched over a name with a bar. -/
theorem Harmless.count_eq_zero (h : Harmless intents) {x y : String} (hxy : x ≠ y)
    (hbar : Barred x ∨ Barred y) :
    min (intents.countP (gives x y)) (intents.countP (gives y x)) = 0 := by
  by_contra hne
  obtain ⟨a, ha, hga⟩ := List.countP_pos_iff.1 (by omega : 0 < intents.countP (gives x y))
  obtain ⟨b, hb, hgb⟩ := List.countP_pos_iff.1 (by omega : 0 < intents.countP (gives y x))
  refine h.alone a ha (barred_of_gives hga hbar) b hb (fun hab => hxy ?_)
    (complementary_of_gives hga hgb)
  subst hab
  exact (gives_iff.1 hga).1.symm.trans (gives_iff.1 hgb).1

/-- A barred asset has one intent with itself at most. -/
theorem Harmless.count_self (hids : (intents.map (·.intentId)).Nodup) (h : Harmless intents)
    {x : String} (hbar : Barred x) : intents.countP (gives x x) ≤ 1 := by
  by_contra hlt
  have hnodup : (intents.filter (gives x x)).Nodup := (List.Nodup.of_map _ hids).filter _
  rw [List.countP_eq_length_filter] at hlt
  rcases hfilter : intents.filter (gives x x) with _ | ⟨a, _ | ⟨b, rest⟩⟩
  · simp [hfilter] at hlt
  · simp [hfilter] at hlt
  · rw [hfilter] at hnodup
    have hne : a ≠ b := fun hab => (List.nodup_cons.1 hnodup).1 (hab ▸ List.mem_cons_self)
    obtain ⟨ha, hga⟩ := List.mem_filter.1 (hfilter ▸ List.mem_cons_self : a ∈ intents.filter _)
    obtain ⟨hb, hgb⟩ := List.mem_filter.1
      (hfilter ▸ List.mem_cons_of_mem _ List.mem_cons_self : b ∈ intents.filter _)
    exact h.alone a ha (barred_of_gives hga (.inl hbar)) b hb hne.symm
      (complementary_of_gives hga hgb)

/-- Harmless names give a maximum matching. -/
theorem Harmless.matching (hids : (intents.map (·.intentId)).Nodup)
    (hsort : ∀ group, (sort group).Perm group) (h : Harmless intents) :
    Matching intents (matchIntentsBy sort intents) := by
  have hdisj := (matchIntentsBy_spec hsort intents).1
  obtain ⟨hsound, hfull⟩ := h.sound_full hids hsort (groupKeys intents) []
    (List.append_nil _).symm
  rw [matchIntentsBy_eq_rounds hsort] at hdisj ⊢
  have hle : ∀ {x y}, ((rounds sort intents (groupKeys intents) []).filter (between x y)).length ≤
      min (intents.countP (gives x y)) (intents.countP (gives y x)) := fun {x y} =>
    le_min (length_between_le hsound hdisj) (by
      rw [between_comm]
      exact length_between_le hsound hdisj)
  refine ⟨hsound, hdisj, fun x y hxy => le_antisymm hle ?_, fun x => ?_⟩
  · by_cases hbar : Barred x ∨ Barred y
    · rw [h.count_eq_zero hxy hbar]
      exact Nat.zero_le _
    · rw [not_or] at hbar
      by_cases hpos : intents.countP (gives x y) = 0
      · rw [hpos, Nat.zero_min]
        exact Nat.zero_le _
      · obtain ⟨a, ha, hga⟩ := List.countP_pos_iff.1 (Nat.pos_of_ne_zero hpos)
        refine (hfull x y hbar.1 hbar.2 (.inl (mem_groupKeys.2 ⟨a, ha, ?_⟩))).ne hxy
        rw [Reconstructed.key, (gives_iff.1 hga).1, (gives_iff.1 hga).2]
  · have h2 := length_self_le hsound hdisj (x := x)
    by_cases hbar : Barred x
    · have := h.count_self hids hbar
      omega
    · by_cases hpos : intents.countP (gives x x) = 0
      · omega
      · obtain ⟨a, ha, hga⟩ := List.countP_pos_iff.1 (Nat.pos_of_ne_zero hpos)
        have hkey : a.key = pairKey x x := by
          rw [Reconstructed.key, (gives_iff.1 hga).1, (gives_iff.1 hga).2]
        have h1 := (hfull x x hbar hbar (.inl (mem_groupKeys.2 ⟨a, ha, hkey⟩))).self rfl
        omega

/-- The matcher reports names without bars only. -/
theorem not_barred_of_mem_rounds (hsort : ∀ group, (sort group).Perm group) {ks : List String}
    {used : List String} (hks : ∀ k ∈ ks, k ∈ groupKeys intents) {m : MatchResult}
    (hm : m ∈ rounds sort intents ks used) :
    ¬ Barred m.inputAsset ∧ ¬ Barred m.outputAsset := by
  obtain ⟨k, hk, used', hm⟩ := mem_rounds hm
  obtain ⟨i, -, rfl⟩ := mem_groupKeys.1 (hks k hk)
  obtain ⟨a, -, b, -, -, rfl⟩ := mem_round hsort hm
  exact not_barred_key i

/-- A sound match holds no intent with bars, when it reports names without. -/
theorem Sound.not_barred (hids : (intents.map (·.intentId)).Nodup) {m : MatchResult}
    (hs : Sound intents m) (hm : ¬ Barred m.inputAsset ∧ ¬ Barred m.outputAsset)
    {i : Reconstructed} (hi : i ∈ intents) (hmem : i.intentId ∈ m.ids) : ¬ i.Barred := by
  obtain ⟨a, ha, b, hb, -, hc, rfl⟩ := hs
  simp only [MatchResult.ids, matchOf, List.mem_cons, List.not_mem_nil, or_false] at hmem hm
  rcases hmem with heq | heq
  · obtain rfl := eq_of_intentId hids hi ha heq
    exact fun h => h.elim hm.1 hm.2
  · obtain rfl := eq_of_intentId hids hi hb heq
    exact fun h => h.elim (fun h => hm.2 (hc.2 ▸ h)) fun h => hm.1 (hc.1 ▸ h)

/-- A maximum matching has left no intent with bars that could be matched. -/
theorem Matching.alone (hsort : ∀ group, (sort group).Perm group)
    (hM : Matching intents (rounds sort intents (groupKeys intents) [])) :
    ∀ a ∈ intents, a.Barred → ∀ b ∈ intents, b ≠ a → ¬ Complementary a b := by
  intro a ha hbar b hb hne hc
  have hga : gives a.inputAsset a.outputAsset a = true := gives_iff.2 ⟨rfl, rfl⟩
  have hgb : gives a.outputAsset a.inputAsset b = true := gives_iff.2 ⟨hc.2.symm, hc.1.symm⟩
  -- no match reports the names of `a`
  have hnil : (rounds sort intents (groupKeys intents) []).filter
      (between a.inputAsset a.outputAsset) = [] := by
    refine List.filter_eq_nil_iff.2 fun m hm hbet => ?_
    obtain ⟨h1, h2⟩ := not_barred_of_mem_rounds hsort (fun _ hk => hk) hm
    rcases between_iff.1 hbet with ⟨h3, h4⟩ | ⟨h3, h4⟩
    · exact hbar.elim (h3 ▸ h1) (h4 ▸ h2)
    · exact hbar.elim (h4 ▸ h2) (h3 ▸ h1)
  rcases eq_or_ne a.inputAsset a.outputAsset with heq | hxy
  · have hself := hM.maximumSelf a.inputAsset
    rw [← heq] at hnil hga hgb
    rw [hnil, List.length_nil, List.countP_eq_length_filter] at hself
    have hsub : [a, b].Subperm (intents.filter (gives a.inputAsset a.inputAsset)) := by
      refine List.subperm_of_subset (by simpa using hne.symm) fun i hi => ?_
      rcases List.mem_pair.1 hi with rfl | rfl
      · exact List.mem_filter.2 ⟨ha, hga⟩
      · exact List.mem_filter.2 ⟨hb, hgb⟩
    have := hsub.length_le
    simp only [List.length_cons, List.length_nil] at this
    omega
  · have hmax := hM.maximum _ _ hxy
    rw [hnil, List.length_nil] at hmax
    have h1 := List.countP_pos_iff.2 ⟨a, ha, hga⟩
    have h2 := List.countP_pos_iff.2 ⟨b, hb, hgb⟩
    omega

/-- Intents with the key of an intent with bars have bars. -/
theorem Reconstructed.Barred.of_key {a i : Reconstructed} (h : a.Barred) (hkey : i.key = a.key) :
    i.Barred := by
  by_contra hi
  obtain ⟨h1, h2⟩ := pairKey_inj (fun h => hi (.inl h)) (fun h => hi (.inr h)) hkey.symm
  exact hi (h.imp (fun h => h1 ▸ h) fun h => h2 ▸ h)

/-- The group that an intent with bars is paired against was used up before, in a sound matching. -/
theorem Matching.all_used (hids : (intents.map (·.intentId)).Nodup)
    (hsort : ∀ group, (sort group).Perm group)
    (hM : Matching intents (rounds sort intents (groupKeys intents) [])) {a : Reconstructed}
    (ha : a ∈ intents) (hbar : a.Barred) {ks₁ ks₂ : List String}
    (hkeys : groupKeys intents = ks₁ ++ a.key :: ks₂) :
    ∀ b ∈ intents, gives (splitKey a.key).2 (splitKey a.key).1 b = true →
      b.intentId ∈ usedIds (rounds sort intents ks₁ []) := by
  obtain ⟨hp, hq⟩ := not_barred_key a
  have hsound := hM.sound
  rw [hkeys, rounds_append, rounds, List.nil_append] at hsound
  have hks₁ : ∀ k ∈ ks₁, k ∈ groupKeys intents := fun k hk => by
    rw [hkeys]
    exact List.mem_append_left _ hk
  -- a match of the round would hold an intent with bars
  have hnil : (round sort intents a.key (usedIds (rounds sort intents ks₁ []))).1 = [] := by
    refine List.eq_nil_iff_forall_not_mem.2 fun m hm => ?_
    have hs := hsound m (List.mem_append_right _ (List.mem_append_left _ hm))
    obtain ⟨a', ha', b', -, -, rfl⟩ := mem_round hsort hm
    obtain ⟨ha', hkey⟩ := mem_groupOf.1 ha'
    exact hs.not_barred hids ⟨hp, hq⟩ ha' List.mem_cons_self (hbar.of_key hkey)
  have hused := @round_used sort intents (usedIds (rounds sort intents ks₁ [])) a.key
  have hnone : usedIds [] = [] := rfl
  rw [hnil, hnone, List.append_nil] at hused
  intro b hb hgb
  have hbg : b ∈ sort (groupOf intents (pairKey (splitKey a.key).2 (splitKey a.key).1)) :=
    (hsort _).mem_iff.2 ((mem_groupOf_pairKey hq hp).2 ⟨hb, hgb⟩)
  rw [← hused]
  rcases @pairLoop_exhausts (splitKey a.key).1 (splitKey a.key).2 (sort (groupOf intents a.key))
    (sort (groupOf intents (pairKey (splitKey a.key).2 (splitKey a.key).1)))
    (usedIds (rounds sort intents ks₁ [])) with h | ⟨a', ha', h⟩
  · -- `a` itself is in no match
    have hmem : a.intentId ∈ (round sort intents a.key (usedIds (rounds sort intents ks₁ []))).2 :=
      h a ((hsort _).mem_iff.2 (mem_groupOf.2 ⟨ha, rfl⟩))
    rw [hused] at hmem
    obtain ⟨m, hm, hmem⟩ := List.mem_flatMap.1 hmem
    exact absurd hbar ((hsound m (List.mem_append_left _ hm)).not_barred hids
      (not_barred_of_mem_rounds hsort hks₁ hm) ha hmem)
  · refine (h b hbg).resolve_right fun heq => ?_
    obtain ⟨ha', hkey⟩ := mem_groupOf.1 ((hsort _).mem_iff.1 ha')
    obtain rfl := eq_of_intentId hids ha' hb heq
    exact Reconstructed.not_barred_of_gives hq hp hgb (hbar.of_key hkey)

/-- A maximum matching has used up what an intent with bars is paired against. -/
theorem Matching.taken (hids : (intents.map (·.intentId)).Nodup)
    (hsort : ∀ group, (sort group).Perm group)
    (hM : Matching intents (rounds sort intents (groupKeys intents) [])) :
    ∀ a ∈ intents, a.Barred →
      intents.countP (gives (splitKey a.key).2 (splitKey a.key).1) = 0 ∨
        Taken intents a.key (splitKey a.key).1 (splitKey a.key).2 := by
  intro a ha hbar
  obtain ⟨ks₁, ks₂, hkeys⟩ := List.append_of_mem (mem_groupKeys.2 ⟨a, ha, rfl⟩)
  have hall := hM.all_used hids hsort ha hbar hkeys
  have hdisj := nodup_prefix hsort hkeys
  have hsound : ∀ m ∈ rounds sort intents ks₁ [], Sound intents m := fun m hm => by
    refine hM.sound m ?_
    rw [hkeys, rounds_append]
    exact List.mem_append_left _ hm
  have hks₁ : ∀ k ∈ ks₁, k ∈ groupKeys intents := fun k hk => by
    rw [hkeys]
    exact List.mem_append_left _ hk
  rcases Nat.eq_zero_or_pos (intents.countP (gives (splitKey a.key).2 (splitKey a.key).1)) with
    h0 | hpos
  · exact .inl h0
  refine .inr ⟨?_, fun hne => ?_, fun heq => ?_⟩
  · -- the round that used them is over the same two names
    obtain ⟨b, hb, hgb⟩ := List.countP_pos_iff.1 hpos
    obtain ⟨m, hm, hbet, -⟩ := exists_match hids hsound hb hgb (hall b hb hgb)
    have hbar' := not_barred_of_mem_rounds hsort hks₁ hm
    have hs := hsound m hm
    obtain ⟨k, hk, used', hm⟩ := mem_rounds hm
    obtain ⟨a', ha', b', -, -, rfl⟩ := mem_round hsort hm
    obtain ⟨hia', rfl⟩ := mem_groupOf.1 ha'
    have hna := hs.not_barred hids hbar' hia' List.mem_cons_self
    obtain ⟨c, hc, hkey⟩ := (mem_keys_before hkeys).1 hk
    obtain ⟨h1, h2⟩ := pairKey_inj (fun h => hna (.inl h)) (fun h => hna (.inr h)) hkey
    rw [between_iff, Reconstructed.splitKey_key hna] at hbet
    refine ⟨c, hc, ?_⟩
    rw [gives_iff, gives_iff, h1, h2]
    exact hbet.symm
  · have h1 := le_length_between hids hsound hne.symm hall
    rw [between_comm] at h1
    exact h1.trans (length_between_le hsound hdisj)
  · rw [← heq] at hall ⊢
    have h1 := le_length_self hids hsound fun i hi hg => List.mem_append_left [] (hall i hi hg)
    have h2 := length_self_le hsound hdisj (x := (splitKey a.key).1)
    rw [List.length_nil] at h1
    exact ⟨((rounds sort intents ks₁ []).filter
      (between (splitKey a.key).1 (splitKey a.key).1)).length, by omega⟩

end

/-- **Maximum matchings.** Whatever the order within the groups, the matcher returns a maximum
matching exactly when the intents with bars do no harm. -/
theorem matchIntentsBy_iff {sort : List Reconstructed → List Reconstructed}
    {intents : List Reconstructed} (hsort : ∀ group, (sort group).Perm group)
    (hids : (intents.map (·.intentId)).Nodup) :
    Matching intents (matchIntentsBy sort intents) ↔ Harmless intents := by
  refine ⟨fun hM => ?_, fun h => h.matching hids hsort⟩
  rw [matchIntentsBy_eq_rounds hsort] at hM
  exact ⟨hM.alone hsort, hM.taken hids hsort⟩

/-- Names without bars do no harm. -/
theorem harmless_of_not_barred {intents : List Reconstructed} (h : ∀ a ∈ intents, ¬ a.Barred) :
    Harmless intents :=
  ⟨fun a ha hbar => absurd hbar (h a ha), fun a ha hbar => absurd hbar (h a ha)⟩

instance (i : Reconstructed) : Decidable i.Barred := inferInstanceAs (Decidable (_ ∨ _))

/-- Two sellers of euros, a buyer, and three who give dollars for dollars. -/
def plainIntents : List Reconstructed :=
  [⟨"1", 5, "EUR", "USD"⟩, ⟨"2", 7, "USD", "EUR"⟩, ⟨"3", 5, "EUR", "USD"⟩, ⟨"4", 1, "USD", "USD"⟩,
    ⟨"5", 2, "USD", "USD"⟩, ⟨"6", 3, "USD", "USD"⟩]

/-- Intents over plain assets are matched in full. -/
theorem matchIntentsBy_iff_plain : Matching plainIntents (matchIntentsBy sortByAmount plainIntents) :=
  (matchIntentsBy_iff sortByAmount_perm (by decide)).2 (harmless_of_not_barred (by decide))

/-- The seller of `A|B` for `C` and its counterparty are not matched; and the seller of `A|B` for `C`
is matched with a seller of `B` for `A`. -/
theorem matchIntents_barred :
    (matchIntents [⟨"1", 5, "A|B", "C"⟩, ⟨"2", 5, "C", "A|B"⟩] = [] ∧
      ¬ Matching [⟨"1", 5, "A|B", "C"⟩, ⟨"2", 5, "C", "A|B"⟩] []) ∧
    matchIntents [⟨"1", 5, "A|B", "C"⟩, ⟨"2", 5, "B", "A"⟩] = [⟨"1", "2", "5", "A", "B"⟩] ∧
      ¬ Matching [⟨"1", 5, "A|B", "C"⟩, ⟨"2", 5, "B", "A"⟩] [⟨"1", "2", "5", "A", "B"⟩] := by
  refine ⟨⟨by decide, fun h => ?_⟩, by decide, fun h => ?_⟩
  · have := h.maximum "A|B" "C" (by decide)
    revert this
    decide
  · obtain ⟨a, ha, b, hb, -, hc, -⟩ := h.sound _ List.mem_cons_self
    rcases List.mem_pair.1 ha with rfl | rfl <;> rcases List.mem_pair.1 hb with rfl | rfl
    all_goals
      have h1 := hc.1
      revert h1
      decide

end ShadePay.Mpc
