import ShadePay.Lib.Guard
import Mathlib.Data.List.Nodup
import Mathlib.Data.Int.Order.Basic
import Mathlib.Tactic.Linarith

/-!
# The priced matcher

`matchPricedPair` settles two intents over complementary assets at the limit price of the first, and
`matchPricedIntents` tries every ordered pair of intents that are still free, in the order of the
list. `Crosses` says over the integers when two intents fit; `matchPricedPair_eq` compares the code
with it. They differ in one case: the rate that the second intent gets is computed by a division by
its amount, so that a pair that fits with nothing to pay on that side throws, and with it the round.
The pairs that the loops come to are those of the first-come matching of the list (`Chosen`).
-/

namespace ShadePay.Mpc

open Guard

/-- `PRICE_SCALE`. -/
def priceScale : ℤ := 1000000000

/-- `PricedIntent`. -/
structure PricedIntent where
  intentId : String
  inputAsset : String
  outputAsset : String
  amount : ℤ
  minOutput : ℤ
  limitPriceScaled : ℤ
deriving DecidableEq

/-- `PricedMatch`. -/
structure PricedMatch where
  intentAId : String
  intentBId : String
  inputAssetA : String
  outputAssetA : String
  inputAssetB : String
  outputAssetB : String
  matchedAmountA : String
  matchedAmountB : String
  priceScaled : String
  minOutputA : String
  minOutputB : String
deriving DecidableEq

/-- The two intents of a match. -/
def PricedMatch.ids (m : PricedMatch) : List String := [m.intentAId, m.intentBId]

/-- `RangeError: Division by zero`. -/
inductive RangeError where
  | divisionByZero
deriving DecidableEq

/-- `x / y` on `bigint`: towards zero, and not by zero. -/
def bigDiv (x y : ℤ) : Except RangeError ℤ :=
  if y = 0 then .error .divisionByZero else .ok (x.tdiv y)

/-- `matchPricedPair`. -/
def matchPricedPair (a b : PricedIntent) : Except RangeError (Option PricedMatch) := do
  if a.inputAsset ≠ b.outputAsset then return none
  if a.outputAsset ≠ b.inputAsset then return none
  if a.inputAsset = a.outputAsset then return none
  let priceScaled := a.limitPriceScaled
  let outputForA ← bigDiv (a.amount * priceScaled) priceScale
  let outputForB := a.amount
  if b.amount ≠ outputForA then return none
  if outputForA < a.minOutput then return none
  if outputForB < b.minOutput then return none
  let rateForB ← bigDiv (outputForB * priceScale) b.amount
  if rateForB < b.limitPriceScaled then return none
  return some
    { intentAId := a.intentId
      intentBId := b.intentId
      inputAssetA := a.inputAsset
      outputAssetA := a.outputAsset
      inputAssetB := b.inputAsset
      outputAssetB := b.outputAsset
      matchedAmountA := toString a.amount
      matchedAmountB := toString outputForA
      priceScaled := toString priceScaled
      minOutputA := toString a.minOutput
      minOutputB := toString b.minOutput }

/-- The inner loop of `matchPricedIntents` from index `j` on, for the intent `a` at index `i`: the
first free counterparty, with which it breaks off. -/
def counterpartyLoop (i : ℕ) (a : PricedIntent) (used : List String) :
    List PricedIntent → ℕ → Except RangeError (Option PricedMatch)
  | [], _ => return none
  | b :: bs, j =>
      if i = j ∨ b.intentId ∈ used ∨ a.intentId ∈ used then counterpartyLoop i a used bs (j + 1)
      else do
        match ← matchPricedPair a b with
        | some m => return some m
        | none => counterpartyLoop i a used bs (j + 1)

/-- The outer loop of `matchPricedIntents` from index `i` on. -/
def pricedLoop (intents : List PricedIntent) :
    List PricedIntent → ℕ → List String → Except RangeError (List PricedMatch)
  | [], _, _ => return []
  | a :: as, i, used =>
      if a.intentId ∈ used then pricedLoop intents as (i + 1) used
      else do
        match ← counterpartyLoop i a used intents 0 with
        | none => pricedLoop intents as (i + 1) used
        | some m =>
            let ms ← pricedLoop intents as (i + 1) (used ++ m.ids)
            return m :: ms

/-- `matchPricedIntents`. -/
def matchPricedIntents (intents : List PricedIntent) : Except RangeError (List PricedMatch) :=
  pricedLoop intents intents 0 []

/-- The ids a list of priced matches uses, in order. -/
def pricedIds (ms : List PricedMatch) : List String := ms.flatMap PricedMatch.ids

@[simp] theorem pricedIds_nil : pricedIds [] = [] := rfl

@[simp] theorem pricedIds_cons (m : PricedMatch) (ms : List PricedMatch) :
    pricedIds (m :: ms) = m.ids ++ pricedIds ms := rfl

/-! ## What fits -/

/-- `a` and `b` fit at the limit price of `a`: each spends its whole amount and gets at least its
minimum output, and `b` gets at least its limit price. -/
structure Crosses (a b : PricedIntent) : Prop where
  given : a.inputAsset = b.outputAsset
  wanted : a.outputAsset = b.inputAsset
  cross : a.inputAsset ≠ a.outputAsset
  price : b.amount = a.amount * a.limitPriceScaled / priceScale
  minA : a.minOutput ≤ b.amount
  minB : b.minOutput ≤ a.amount
  limitB : b.limitPriceScaled * b.amount ≤ a.amount * priceScale

/-- Two intents cross if their assets are opposite and the amounts meet both limits. -/
theorem crosses_iff {a b : PricedIntent} : Crosses a b ↔
    (a.inputAsset = b.outputAsset ∧ a.outputAsset = b.inputAsset ∧ a.inputAsset ≠ a.outputAsset) ∧
      b.amount = a.amount * a.limitPriceScaled / priceScale ∧ a.minOutput ≤ b.amount ∧
      b.minOutput ≤ a.amount ∧ b.limitPriceScaled * b.amount ≤ a.amount * priceScale :=
  ⟨fun ⟨h1, h2, h3, h4, h5, h6, h7⟩ => ⟨⟨h1, h2, h3⟩, h4, h5, h6, h7⟩,
    fun ⟨⟨h1, h2, h3⟩, h4, h5, h6, h7⟩ => ⟨h1, h2, h3, h4, h5, h6, h7⟩⟩

instance Crosses.decidable (a b : PricedIntent) : Decidable (Crosses a b) :=
  decidable_of_iff' _ crosses_iff

/-- The match of `a` with `b`. -/
def pricedMatchOf (a b : PricedIntent) : PricedMatch where
  intentAId := a.intentId
  intentBId := b.intentId
  inputAssetA := a.inputAsset
  outputAssetA := a.outputAsset
  inputAssetB := b.inputAsset
  outputAssetB := b.outputAsset
  matchedAmountA := toString a.amount
  matchedAmountB := toString b.amount
  priceScaled := toString a.limitPriceScaled
  minOutputA := toString a.minOutput
  minOutputB := toString b.minOutput

/-- An intent with no negative number in it. -/
structure PricedIntent.Nonneg (a : PricedIntent) : Prop where
  amount : 0 ≤ a.amount
  minOutput : 0 ≤ a.minOutput
  limit : 0 ≤ a.limitPriceScaled

/-- The numbers of an intent have the sizes that the circuits work with. -/
structure PricedIntent.Bounded (a : PricedIntent) : Prop where
  amount : 0 ≤ a.amount ∧ a.amount < 2 ^ 64
  minOutput : 0 ≤ a.minOutput ∧ a.minOutput < 2 ^ 64
  limit : 0 ≤ a.limitPriceScaled ∧ a.limitPriceScaled < 2 ^ 63

theorem PricedIntent.Bounded.nonneg {a : PricedIntent} (h : a.Bounded) : a.Nonneg :=
  ⟨h.amount.1, h.minOutput.1, h.limit.1⟩

theorem bigDiv_of_nonneg {x y : ℤ} (hx : 0 ≤ x) (hy : y ≠ 0) : bigDiv x y = .ok (x / y) := by
  rw [bigDiv, if_neg hy, Int.tdiv_eq_ediv_of_nonneg hx]

theorem bigDiv_zero (x : ℤ) : bigDiv x 0 = .error .divisionByZero := if_pos rfl

/-- Nobody crosses with themselves. -/
theorem Crosses.ne {a b : PricedIntent} (h : Crosses a b) : a ≠ b := by
  rintro rfl
  exact h.cross h.given

theorem Crosses.nonneg {a b : PricedIntent} (h : Crosses a b) (ha : a.Nonneg) : 0 ≤ b.amount :=
  h.price ▸ Int.ediv_nonneg (mul_nonneg ha.amount ha.limit) (by norm_num [priceScale])

/-- Who pays something is paid something. -/
theorem Crosses.amount_ne {a b : PricedIntent} (h : Crosses a b) (hb : b.amount ≠ 0) :
    a.amount ≠ 0 := by
  intro ha
  exact hb (by rw [h.price, ha]; simp)

/-- Two intents that cross are matched, unless the second amount is zero. -/
theorem matchPricedPair_crosses {a b : PricedIntent} (h : Crosses a b) (ha : a.Nonneg) :
    matchPricedPair a b =
      if b.amount = 0 then .error .divisionByZero else .ok (some (pricedMatchOf a b)) := by
  have hscale : priceScale ≠ 0 := by norm_num [priceScale]
  have hdivA : bigDiv (a.amount * a.limitPriceScaled) priceScale = .ok b.amount := by
    rw [bigDiv_of_nonneg (mul_nonneg ha.amount ha.limit) hscale, h.price]
  have hbuild : matchPricedPair a b = (do
      let rateForB ← bigDiv (a.amount * priceScale) b.amount
      if rateForB < b.limitPriceScaled then return none
      return some (pricedMatchOf a b)) := by
    simp only [matchPricedPair, hdivA, ok_bind, h.given, h.wanted, ne_eq, not_true, if_false,
      not_lt.2 h.minA, not_lt.2 h.minB, pricedMatchOf]
    rw [if_neg (fun heq => h.cross (by rw [h.given, h.wanted, heq]))]
  rw [hbuild]
  by_cases hb : b.amount = 0
  · rw [if_pos hb, hb, bigDiv_zero]
    rfl
  · -- the rate that `b` gets is rounded down, and the limit is an integer
    have hpos : 0 < b.amount := lt_of_le_of_ne (h.nonneg ha) (Ne.symm hb)
    have hrate : b.limitPriceScaled ≤ a.amount * priceScale / b.amount :=
      (Int.le_ediv_iff_mul_le hpos).2 h.limitB
    rw [if_neg hb, bigDiv_of_nonneg (mul_nonneg ha.amount (by norm_num [priceScale])) hb, ok_bind,
      if_neg (not_lt.2 hrate)]
    rfl

/-- Two intents that do not cross are not matched. -/
theorem matchPricedPair_not_crosses {a b : PricedIntent} (h : ¬ Crosses a b) (ha : a.Nonneg)
    (hb : b.Nonneg) : matchPricedPair a b = .ok none := by
  have hscale : priceScale ≠ 0 := by norm_num [priceScale]
  have hdivA := bigDiv_of_nonneg (mul_nonneg ha.amount ha.limit) hscale
  simp only [matchPricedPair, hdivA, ok_bind]
  split
  · rfl
  split
  · rfl
  split
  · rfl
  split
  · rfl
  split
  · rfl
  split
  · rfl
  next hgiven hwanted hcross hprice hminA hminB =>
  rw [not_not] at hgiven hwanted hprice
  rw [not_lt] at hminA hminB
  have hlimit : ¬ b.limitPriceScaled * b.amount ≤ a.amount * priceScale := fun hle =>
    h ⟨hgiven, hwanted, hcross, hprice, hprice ▸ hminA, hminB, hle⟩
  have hne : b.amount ≠ 0 := by
    intro hzero
    rw [hzero, mul_zero] at hlimit
    exact hlimit (mul_nonneg ha.amount (by norm_num [priceScale]))
  have hpos : 0 < b.amount := lt_of_le_of_ne hb.amount (Ne.symm hne)
  rw [bigDiv_of_nonneg (mul_nonneg ha.amount (by norm_num [priceScale])) hne, ok_bind, if_pos]
  · rfl
  · exact lt_of_not_ge fun hge => hlimit ((Int.le_ediv_iff_mul_le hpos).1 hge)

/-! ## First come -/

/-- The intents at positions `i` and `k` fit. -/
def Fits (intents : List PricedIntent) (i k : ℕ) : Prop :=
  ∃ a b, intents[i]? = some a ∧ intents[k]? = some b ∧ Crosses a b

/-- The first-come matching of a list: pairs of positions that fit are taken in the order of the first
position, then of the second, as long as neither of the two is in a pair taken before. -/
def Chosen (intents : List PricedIntent) (i k : ℕ) : Prop :=
  Fits intents i k ∧ ∀ c d, (c < i ∨ c = i ∧ d < k) → (c = i ∨ c = k ∨ d = i ∨ d = k) →
    ¬ Chosen intents c d
termination_by (i, k)
decreasing_by
  rename_i hbefore hmeets
  rcases hbefore with h | ⟨rfl, h⟩
  · exact Prod.Lex.left _ _ h
  · exact Prod.Lex.right _ h

section
variable {intents : List PricedIntent} {a b : PricedIntent} {i k k' : ℕ}

/-- A pair is chosen if it fits and no pair that came before it shares an intent. -/
theorem chosen_iff : Chosen intents i k ↔
    Fits intents i k ∧ ∀ c d, (c < i ∨ c = i ∧ d < k) → (c = i ∨ c = k ∨ d = i ∨ d = k) →
      ¬ Chosen intents c d := by
  rw [Chosen]

/-- The intents of a pair that fits cross. -/
theorem Fits.crosses (h : Fits intents i k) (ha : intents[i]? = some a)
    (hb : intents[k]? = some b) : Crosses a b := by
  obtain ⟨a', b', ha', hb', hc⟩ := h
  rw [ha] at ha'
  rw [hb] at hb'
  cases ha'
  cases hb'
  exact hc

theorem Chosen.fits (h : Chosen intents i k) : Fits intents i k := (chosen_iff.1 h).1

/-- A position is first in one pair at most. -/
theorem Chosen.unique (h : Chosen intents i k) (h' : Chosen intents i k') : k = k' := by
  rcases lt_trichotomy k k' with hlt | heq | hgt
  · exact absurd h ((chosen_iff.1 h').2 i k (.inr ⟨rfl, hlt⟩) (.inl rfl))
  · exact heq
  · exact absurd h' ((chosen_iff.1 h).2 i k' (.inr ⟨rfl, hgt⟩) (.inl rfl))

/-- The intent at position `k` is in a pair that the first `i` rows chose. -/
def ChosenBefore (intents : List PricedIntent) (i k : ℕ) : Prop :=
  ∃ c d, c < i ∧ Chosen intents c d ∧ (c = k ∨ d = k)

/-- A row whose own intent is taken chooses nobody. -/
theorem ChosenBefore.not_chosen (h : ChosenBefore intents i i) : ¬ Chosen intents i k := by
  obtain ⟨c, d, hc, hchosen, hmeets⟩ := h
  exact fun h' => (chosen_iff.1 h').2 c d (.inl hc) (by tauto) hchosen

/-- A row with nobody before `k` chooses `k` when the two fit and are free. -/
theorem chosen_iff_of_first (hfirst : ∀ j < k, ¬ Chosen intents i j)
    (hfree : ¬ ChosenBefore intents i i) : Chosen intents i k ↔ Fits intents i k ∧ ¬ ChosenBefore intents i k := by
  rw [chosen_iff]
  refine and_congr_right fun _ => ⟨?_, ?_⟩
  · rintro h ⟨c, d, hc, hchosen, hmeets⟩
    exact h c d (.inl hc) (by tauto) hchosen
  · rintro h c d (hc | ⟨rfl, hd⟩) hmeets hchosen
    · rcases hmeets with rfl | rfl | rfl | rfl
      · exact absurd hc (lt_irrefl _)
      · exact h ⟨c, d, hc, hchosen, .inl rfl⟩
      · exact hfree ⟨c, d, hc, hchosen, .inr rfl⟩
      · exact h ⟨c, d, hc, hchosen, .inr rfl⟩
    · exact hfirst d hd hchosen

/-- The rows up to `i` took what those before it did, and the pair of row `i`. -/
theorem chosenBefore_succ : ChosenBefore intents (i + 1) k ↔
    ChosenBefore intents i k ∨ ∃ d, Chosen intents i d ∧ (i = k ∨ d = k) := by
  constructor
  · rintro ⟨c, d, hc, hchosen, hmeets⟩
    rcases Nat.lt_succ_iff_lt_or_eq.1 hc with hc | rfl
    · exact .inl ⟨c, d, hc, hchosen, hmeets⟩
    · exact .inr ⟨d, hchosen, hmeets⟩
  · rintro (⟨c, d, hc, hchosen, hmeets⟩ | ⟨d, hchosen, hmeets⟩)
    · exact ⟨c, d, by omega, hchosen, hmeets⟩
    · exact ⟨i, d, by omega, hchosen, hmeets⟩

end

/-! ## The loops -/

section
variable {i j : ℕ} {a b : PricedIntent} {as bs intents : List PricedIntent} {used : List String}
  {m : PricedMatch} {ms : List PricedMatch}

/-- One step of the inner loop. -/
theorem counterpartyLoop_cons (ha : a.Nonneg) (hb : b.Nonneg) :
    counterpartyLoop i a used (b :: bs) j =
      if i = j ∨ b.intentId ∈ used ∨ a.intentId ∈ used ∨ ¬ Crosses a b then
        counterpartyLoop i a used bs (j + 1)
      else if b.amount = 0 then .error .divisionByZero
      else .ok (some (pricedMatchOf a b)) := by
  by_cases hskip : i = j ∨ b.intentId ∈ used ∨ a.intentId ∈ used
  · rw [counterpartyLoop, if_pos hskip, if_pos (by tauto)]
  · rw [counterpartyLoop, if_neg hskip]
    by_cases hc : Crosses a b
    · rw [if_neg (by tauto), matchPricedPair_crosses hc ha]
      split <;> rfl
    · rw [if_pos (by tauto), matchPricedPair_not_crosses hc ha hb]
      rfl

/-- The inner loop finds a free counterparty that fits. -/
theorem counterpartyLoop_some (ha : a.Nonneg) (hbs : ∀ b ∈ bs, b.Nonneg)
    (h : counterpartyLoop i a used bs j = .ok (some m)) :
    ∃ b ∈ bs, b.intentId ∉ used ∧ Crosses a b ∧ b.amount ≠ 0 ∧ m = pricedMatchOf a b := by
  induction bs generalizing j with
  | nil => simp [counterpartyLoop] at h
  | cons b bs ih =>
      rw [counterpartyLoop_cons ha (hbs b List.mem_cons_self)] at h
      split at h
      · obtain ⟨b', hb', hrest⟩ := ih (fun b hb => hbs b (List.mem_cons_of_mem _ hb)) h
        exact ⟨b', List.mem_cons_of_mem _ hb', hrest⟩
      · next hstop =>
        split at h
        · cases h
        · next hzero =>
          cases h
          push Not at hstop
          exact ⟨b, List.mem_cons_self, hstop.2.1, hstop.2.2.2, hzero, rfl⟩

/-- When the inner loop finds nobody, no free intent fits. The index `i` is that of `a` itself. -/
theorem counterpartyLoop_none (ha : a.Nonneg) (hbs : ∀ b ∈ bs, b.Nonneg)
    (hself : ∀ k b, bs[k]? = some b → i = j + k → b = a) (hfree : a.intentId ∉ used)
    (h : counterpartyLoop i a used bs j = .ok none) :
    ∀ b ∈ bs, b.intentId ∉ used → ¬ Crosses a b := by
  induction bs generalizing j with
  | nil => simp
  | cons b bs ih =>
      rw [counterpartyLoop_cons ha (hbs b List.mem_cons_self)] at h
      split at h
      · next hskip =>
        intro c hc hused
        rcases List.mem_cons.1 hc with rfl | hc
        · rcases hskip with hij | h1 | h2 | h3
          · rw [hself 0 c rfl hij]
            exact fun hcross => hcross.ne rfl
          · exact absurd h1 hused
          · exact absurd h2 hfree
          · exact h3
        · refine ih (fun b hb => hbs b (List.mem_cons_of_mem _ hb)) (fun k d hd hk => ?_) h c hc hused
          exact hself (k + 1) d hd (by omega)
      · split at h <;> cases h

/-- One step of the outer loop: the intent is taken or finds nobody, or it is matched. -/
theorem pricedLoop_cons (h : pricedLoop intents (a :: as) i used = .ok ms) :
    ((a.intentId ∈ used ∨ a.intentId ∉ used ∧ counterpartyLoop i a used intents 0 = .ok none) ∧
        pricedLoop intents as (i + 1) used = .ok ms) ∨
      ∃ m ms', a.intentId ∉ used ∧ counterpartyLoop i a used intents 0 = .ok (some m) ∧
        pricedLoop intents as (i + 1) (used ++ m.ids) = .ok ms' ∧ ms = m :: ms' := by
  by_cases hused : a.intentId ∈ used
  · rw [pricedLoop, if_pos hused] at h
    exact .inl ⟨.inl hused, h⟩
  · rw [pricedLoop, if_neg hused] at h
    obtain ⟨r, hr, h⟩ := bind_eq_ok.1 h
    cases r with
    | none => exact .inl ⟨.inr ⟨hused, hr⟩, h⟩
    | some m =>
        obtain ⟨ms', hms', h⟩ := bind_eq_ok.1 h
        exact .inr ⟨m, ms', hused, hr, hms', (pure_eq_ok.1 h).symm⟩

/-- The ids in use before row `i` are those of the intents taken. -/
def UsedBefore (intents : List PricedIntent) (i : ℕ) (used : List String) : Prop :=
  ∀ k a, intents[k]? = some a → (a.intentId ∈ used ↔ ChosenBefore intents i k)

/-- What the inner loop of row `i` ends with. -/
inductive Finds (intents : List PricedIntent) (i : ℕ) (a : PricedIntent) :
    Except RangeError (Option PricedMatch) → Prop
  | nobody (h : ∀ k, ¬ Chosen intents i k) : Finds intents i a (.ok none)
  | somebody {k : ℕ} {b : PricedIntent} (h : Chosen intents i k) (hb : intents[k]? = some b)
      (hpay : b.amount ≠ 0) : Finds intents i a (.ok (some (pricedMatchOf a b)))
  | throws {k : ℕ} {b : PricedIntent} (h : Chosen intents i k) (hb : intents[k]? = some b)
      (hzero : b.amount = 0) : Finds intents i a (.error .divisionByZero)

/-- A row that chooses nobody takes nothing. -/
theorem UsedBefore.skip (h : UsedBefore intents i used) (hnone : ∀ k, ¬ Chosen intents i k) :
    UsedBefore intents (i + 1) used := by
  intro k a ha
  rw [h k a ha, chosenBefore_succ]
  exact ⟨.inl, fun h => h.resolve_right fun ⟨d, hd, _⟩ => hnone d hd⟩

/-- A row that chooses takes the two ids of its match. -/
theorem UsedBefore.take (h : UsedBefore intents i used) (hids : (intents.map (·.intentId)).Nodup)
    {k : ℕ} (hget : intents[i]? = some a) (hb : intents[k]? = some b) (hc : Chosen intents i k) :
    UsedBefore intents (i + 1) (used ++ (pricedMatchOf a b).ids) := by
  -- with distinct ids, a position has an intent's id when it is the intent's
  have hsame : ∀ {l l' : ℕ} {c c' : PricedIntent}, intents[l]? = some c → intents[l']? = some c' →
      (c.intentId = c'.intentId ↔ l' = l) := by
    intro l l' c c' hl hl'
    constructor
    · intro he
      have hlt : l < (intents.map (·.intentId)).length := by
        rw [List.length_map]
        exact (List.getElem?_eq_some_iff.1 hl).1
      refine ((List.getElem?_inj hlt hids).1 ?_).symm
      rw [List.getElem?_map, List.getElem?_map, hl, hl', Option.map_some, Option.map_some, he]
    · rintro rfl
      rw [hl] at hl'
      exact congrArg _ (Option.some.inj hl')
  intro l c hl
  rw [List.mem_append, h l c hl, chosenBefore_succ]
  refine or_congr_right ?_
  simp only [PricedMatch.ids, pricedMatchOf, List.mem_cons, List.not_mem_nil, or_false]
  rw [hsame hl hget, hsame hl hb]
  exact ⟨fun h => ⟨k, hc, h⟩, fun ⟨d, hd, h⟩ => hd.unique hc ▸ h⟩

variable (hnn : ∀ a ∈ intents, a.Nonneg)
include hnn

/-- **The inner loop** comes to the pair that the row chooses, if any: by induction on the intents that
are left, none of those passed being chosen. -/
theorem counterpartyLoop_finds (hget : intents[i]? = some a) (hused : UsedBefore intents i used)
    (hfree : a.intentId ∉ used) (hbs : ∀ k, bs[k]? = intents[j + k]?)
    (hfirst : ∀ k < j, ¬ Chosen intents i k) :
    Finds intents i a (counterpartyLoop i a used bs j) := by
  have ha := hnn a (List.mem_of_getElem? hget)
  have hfree' : ¬ ChosenBefore intents i i := fun h => hfree ((hused i a hget).2 h)
  induction bs generalizing j with
  | nil =>
      refine .nobody fun k hk => ?_
      rcases lt_or_ge k j with hlt | hge
      · exact hfirst k hlt hk
      · obtain ⟨-, b, -, hb, -⟩ := hk.fits
        have := hbs (k - j)
        rw [List.getElem?_nil, Nat.add_sub_cancel' hge, hb] at this
        cases this
  | cons b bs ih =>
      have hb : intents[j]? = some b := (hbs 0).symm
      have hchosen := chosen_iff_of_first hfirst hfree'
      rw [counterpartyLoop_cons ha (hnn b (List.mem_of_getElem? hb))]
      split
      · next hskip =>
        refine ih (fun k => ?_) fun k hk => ?_
        · rw [show j + 1 + k = j + (k + 1) by omega]
          exact hbs (k + 1)
        · rcases Nat.lt_succ_iff_lt_or_eq.1 hk with hk | rfl
          · exact hfirst k hk
          · rw [hchosen]
            rintro ⟨hfits, hnot⟩
            rcases hskip with rfl | h | h | h
            · exact (hfits.crosses hget hget).ne rfl
            · exact hnot ((hused k b hb).1 h)
            · exact hfree h
            · exact h (hfits.crosses hget hb)
      · next hstop =>
        push Not at hstop
        have hc : Chosen intents i j :=
          hchosen.2 ⟨⟨a, b, hget, hb, hstop.2.2.2⟩, fun h => hstop.2.1 ((hused j b hb).2 h)⟩
        split
        · next hzero => exact .throws hc hb hzero
        · next hpay => exact .somebody hc hb hpay

/-- **The outer loop** returns when the pairs that its rows choose pay on both sides: by induction on
the rows that are left. -/
theorem pricedLoop_returns_iff (hids : (intents.map (·.intentId)).Nodup)
    (has : ∀ k, as[k]? = intents[i + k]?) (hused : UsedBefore intents i used) :
    (∃ ms, pricedLoop intents as i used = .ok ms) ↔
      ∀ c d b, i ≤ c → Chosen intents c d → intents[d]? = some b → b.amount ≠ 0 := by
  induction as generalizing i used with
  | nil =>
      refine ⟨fun _ c d b hi hc => ?_, fun _ => ⟨[], rfl⟩⟩
      obtain ⟨a, -, ha, -⟩ := hc.fits
      have := has (c - i)
      rw [List.getElem?_nil, Nat.add_sub_cancel' hi, ha] at this
      cases this
  | cons a as ih =>
      have hget : intents[i]? = some a := (has 0).symm
      have has' : ∀ k, as[k]? = intents[i + 1 + k]? := fun k => by
        rw [show i + 1 + k = i + (k + 1) by omega]
        exact has (k + 1)
      -- the rows from `i` on are row `i` and those from `i + 1` on
      have hrows : (∀ c d b, i ≤ c → Chosen intents c d → intents[d]? = some b → b.amount ≠ 0) ↔
          (∀ d b, Chosen intents i d → intents[d]? = some b → b.amount ≠ 0) ∧
            ∀ c d b, i + 1 ≤ c → Chosen intents c d → intents[d]? = some b → b.amount ≠ 0 := by
        refine ⟨fun h => ⟨fun d b => h i d b le_rfl, fun c d b hc => h c d b (by omega)⟩, ?_⟩
        rintro ⟨h, h'⟩ c d b hc
        rcases Nat.eq_or_lt_of_le hc with rfl | hlt
        · exact h d b
        · exact h' c d b hlt
      rw [hrows, pricedLoop]
      split
      · next hmem =>
        have hnone : ∀ k, ¬ Chosen intents i k := fun k => ((hused i a hget).1 hmem).not_chosen
        rw [ih has' (hused.skip hnone), and_iff_right fun d b hd => absurd hd (hnone d)]
      · next hfree =>
        have hfinds : Finds intents i a (counterpartyLoop i a used intents 0) :=
          counterpartyLoop_finds hnn hget hused hfree (fun k => by rw [Nat.zero_add])
            fun k hk => absurd hk (Nat.not_lt_zero k)
        generalize counterpartyLoop i a used intents 0 = r at hfinds
        cases hfinds with
        | nobody hnone =>
            rw [ok_bind, ih has' (hused.skip hnone),
              and_iff_right fun d b hd => absurd hd (hnone d)]
        | @somebody k b hc hb hpay =>
            rw [and_iff_right, ← ih has' (hused.take hids hget hb hc), ok_bind]
            · constructor
              · rintro ⟨ms, hms⟩
                obtain ⟨ms', hms', -⟩ := bind_eq_ok.1 hms
                exact ⟨ms', hms'⟩
              · rintro ⟨ms', hms'⟩
                exact ⟨_, bind_eq_ok.2 ⟨ms', hms', rfl⟩⟩
            · intro d b' hd hb'
              rw [hd.unique hc, hb] at hb'
              cases hb'
              exact hpay
        | @throws k b hc hb hzero =>
            constructor
            · rintro ⟨ms, hms⟩
              cases hms
            · exact fun h => absurd hzero (h.1 k b hc hb)

/-- Every match is one of two intents that fit, with something to pay on both sides. -/
theorem pricedLoop_law (has : ∀ a ∈ as, a ∈ intents) (h : pricedLoop intents as i used = .ok ms) :
    ∀ m ∈ ms, ∃ a ∈ intents, ∃ b ∈ intents,
      Crosses a b ∧ b.amount ≠ 0 ∧ m = pricedMatchOf a b := by
  induction as generalizing i used ms with
  | nil =>
      cases h
      simp
  | cons a as ih =>
      have has' : ∀ a ∈ as, a ∈ intents := fun b hb => has b (List.mem_cons_of_mem _ hb)
      have ha := has a List.mem_cons_self
      rcases pricedLoop_cons h with ⟨-, hrest⟩ | ⟨m, ms', -, hm, hrest, rfl⟩
      · exact ih has' hrest
      · intro m' hm'
        rcases List.mem_cons.1 hm' with rfl | hm'
        · obtain ⟨b, hb, -, hc, hpay, rfl⟩ := counterpartyLoop_some (hnn a ha) hnn hm
          exact ⟨a, ha, b, hb, hc, hpay, rfl⟩
        · exact ih has' hrest m' hm'

/-- No id is used twice. -/
theorem pricedLoop_nodup (hids : (intents.map (·.intentId)).Nodup) (has : ∀ a ∈ as, a ∈ intents)
    (hused : used.Nodup) (h : pricedLoop intents as i used = .ok ms) :
    (used ++ pricedIds ms).Nodup := by
  induction as generalizing i used ms with
  | nil =>
      cases h
      simpa using hused
  | cons a as ih =>
      have has' : ∀ a ∈ as, a ∈ intents := fun b hb => has b (List.mem_cons_of_mem _ hb)
      have ha := has a List.mem_cons_self
      rcases pricedLoop_cons h with ⟨-, hrest⟩ | ⟨m, ms', hfree, hm, hrest, rfl⟩
      · exact ih has' hused hrest
      · obtain ⟨b, hb, hfreeB, hc, -, rfl⟩ := counterpartyLoop_some (hnn a ha) hnn hm
        have hne : a.intentId ≠ b.intentId := fun heq =>
          hc.ne (List.inj_on_of_nodup_map hids ha hb heq)
        have hnew : (used ++ (pricedMatchOf a b).ids).Nodup := by
          refine List.nodup_append.2 ⟨hused, by simpa [PricedMatch.ids, pricedMatchOf], ?_⟩
          rintro x hx y hy rfl
          simp only [PricedMatch.ids, pricedMatchOf, List.mem_cons, List.not_mem_nil, or_false] at hy
          rcases hy with rfl | rfl
          · exact hfree hx
          · exact hfreeB hx
        simpa using ih has' hnew hrest

/-- No two intents that are left over fit. -/
theorem pricedLoop_maximal (hget : ∀ k a, as[k]? = some a → intents[i + k]? = some a)
    (h : pricedLoop intents as i used = .ok ms) :
    ∀ a ∈ as, ∀ b ∈ intents, a.intentId ∉ used ++ pricedIds ms → b.intentId ∉ used ++ pricedIds ms →
      ¬ Crosses a b := by
  induction as generalizing i used ms with
  | nil => simp
  | cons a as ih =>
      have hget' : ∀ k b, as[k]? = some b → intents[i + 1 + k]? = some b := by
        intro k b hb
        rw [show i + 1 + k = i + (k + 1) by omega]
        exact hget (k + 1) b hb
      have ha : intents[i]? = some a := hget 0 a rfl
      intro c hc b hb hfreeC hfreeB
      rcases pricedLoop_cons h with ⟨hskip, hrest⟩ | ⟨m, ms', -, hm, hrest, rfl⟩
      · rcases List.mem_cons.1 hc with rfl | hc
        · rcases hskip with hused | ⟨hfree, hnone⟩
          · exact absurd (List.mem_append_left _ hused) hfreeC
          · refine counterpartyLoop_none (hnn c (List.mem_of_getElem? ha)) hnn (fun k d hd hk => ?_)
              hfree hnone b hb fun hused => hfreeB (List.mem_append_left _ hused)
            rw [show k = i by omega, ha] at hd
            exact (Option.some.inj hd).symm
        · exact ih hget' hrest c hc b hb hfreeC hfreeB
      · rw [pricedIds_cons, ← List.append_assoc] at hfreeC hfreeB
        rcases List.mem_cons.1 hc with rfl | hc
        · obtain ⟨d, -, -, -, -, rfl⟩ :=
            counterpartyLoop_some (hnn c (List.mem_of_getElem? ha)) hnn hm
          exact absurd (by simp [PricedMatch.ids, pricedMatchOf]) hfreeC
        · exact ih hget' hrest c hc b hb hfreeC hfreeB

end

/-! ## The round -/

/-- What the matcher is for: every intent is in at most one match, a match is one of two intents that
fit, and no two intents that are left over fit. -/
structure PricedSound (intents : List PricedIntent) (ms : List PricedMatch) : Prop where
  once : (pricedIds ms).Nodup
  law : ∀ m ∈ ms, ∃ a ∈ intents, ∃ b ∈ intents, Crosses a b ∧ m = pricedMatchOf a b
  maximal : ∀ a ∈ intents, ∀ b ∈ intents, a.intentId ∉ pricedIds ms → b.intentId ∉ pricedIds ms →
    ¬ Crosses a b

section
variable {intents : List PricedIntent}

/-- A returned match is one of two intents that fit, with something to pay on both sides. -/
theorem matchPricedIntents_law {ms : List PricedMatch} (hnn : ∀ a ∈ intents, a.Nonneg)
    (h : matchPricedIntents intents = .ok ms) {m : PricedMatch} (hm : m ∈ ms) :
    ∃ a ∈ intents, ∃ b ∈ intents, Crosses a b ∧ b.amount ≠ 0 ∧ m = pricedMatchOf a b :=
  pricedLoop_law hnn (fun _ ha => ha) h m hm

/-- What the matcher returns is what it should. -/
theorem matchPricedIntents_sound {ms : List PricedMatch} (hids : (intents.map (·.intentId)).Nodup)
    (hnn : ∀ a ∈ intents, a.Nonneg) (h : matchPricedIntents intents = .ok ms) :
    PricedSound intents ms := by
  refine ⟨?_, fun m hm => ?_, ?_⟩
  · simpa using pricedLoop_nodup hnn hids (fun a ha => ha) List.nodup_nil h
  · obtain ⟨a, ha, b, hb, hc, -, he⟩ := matchPricedIntents_law hnn h hm
    exact ⟨a, ha, b, hb, hc, he⟩
  · simpa using pricedLoop_maximal hnn (fun k a ha => by rwa [Nat.zero_add]) h

/-- **When a priced round goes through.** For intents with distinct ids and no negative numbers: the
matcher returns, without a throw, disjoint matches that keep the terms of both sides and leave no
pair that fits, exactly when in no pair of the list's first-come matching the second intent has nothing
to pay. -/
theorem matchPricedIntents_iff (hids : (intents.map (·.intentId)).Nodup)
    (hnn : ∀ a ∈ intents, a.Nonneg) :
    (∃ ms, matchPricedIntents intents = .ok ms ∧ PricedSound intents ms) ↔
      ∀ i k b, Chosen intents i k → intents[k]? = some b → b.amount ≠ 0 := by
  have hloop : (∃ ms, pricedLoop intents intents 0 [] = .ok ms) ↔ _ :=
    pricedLoop_returns_iff hnn hids (fun k => by rw [Nat.zero_add]) fun k a _ =>
      ⟨fun h => absurd h List.not_mem_nil, fun ⟨c, d, hc, _⟩ => absurd hc (Nat.not_lt_zero c)⟩
  have hreturns : (∃ ms, matchPricedIntents intents = .ok ms ∧ PricedSound intents ms) ↔
      ∃ ms, pricedLoop intents intents 0 [] = .ok ms :=
    ⟨fun ⟨ms, hms, _⟩ => ⟨ms, hms⟩, fun ⟨ms, hms⟩ => ⟨ms, hms, matchPricedIntents_sound hids hnn hms⟩⟩
  rw [hreturns, hloop]
  exact ⟨fun h c d b => h c d b (Nat.zero_le c), fun h c d b _ => h c d b⟩

end

/-! ## Four and two -/

/-- Four units of one asset against two of the other. -/
def fourForTwo : List PricedIntent :=
  [⟨"A", "USDC", "XLM", 4000000, 1900000, 500000000⟩, ⟨"B", "XLM", "USDC", 2000000, 3900000, 2000000000⟩]

/-- One intent that asks for nothing, and one that has nothing left. -/
def emptied : List PricedIntent :=
  [⟨"A", "USDC", "XLM", 1, 0, 0⟩, ⟨"B", "XLM", "USDC", 0, 0, 0⟩]

/-- The round of the two is aborted. -/
theorem matchPricedIntents_aborted :
    ¬ ∀ intents : List PricedIntent, (intents.map (·.intentId)).Nodup →
      (∀ a ∈ intents, a.Nonneg) →
      ∃ ms, matchPricedIntents intents = .ok ms ∧ PricedSound intents ms := by
  intro h
  obtain ⟨ms, hms, -⟩ := h emptied (by decide) (by
    intro a ha
    simp only [emptied, List.mem_cons, List.not_mem_nil, or_false] at ha
    rcases ha with rfl | rfl
    · exact ⟨by decide, by decide, by decide⟩
    · exact ⟨by decide, by decide, by decide⟩)
  have hthrows : matchPricedIntents emptied = .error .divisionByZero := rfl
  rw [hthrows] at hms
  cases hms

/-- The same two after an intent that takes the first. -/
def rescued : List PricedIntent :=
  ⟨"C", "XLM", "USDC", 2, 1, 500000000⟩ :: emptied

/-- They go through: the pair that fits with nothing to pay is not one of the first-come matching. -/
theorem matchPricedIntents_iff_rescued :
    ∃ ms, matchPricedIntents rescued = .ok ms ∧ PricedSound rescued ms := by
  have hnn : ∀ a ∈ rescued, a.Nonneg := by
    intro a ha
    simp only [rescued, emptied, List.mem_cons, List.not_mem_nil, or_false] at ha
    rcases ha with rfl | rfl | rfl
    · exact ⟨by decide, by decide, by decide⟩
    · exact ⟨by decide, by decide, by decide⟩
    · exact ⟨by decide, by decide, by decide⟩
  refine (matchPricedIntents_iff (by decide) hnn).2 fun i k b hc hb hzero => ?_
  -- only the last intent has nothing to pay, and only the one before it fits it
  have hlast : k = 2 ∧ b = ⟨"B", "XLM", "USDC", 0, 0, 0⟩ := by
    match k, hb with
    | 0, hb =>
        cases hb
        cases hzero
    | 1, hb =>
        cases hb
        cases hzero
    | 2, hb =>
        cases hb
        exact ⟨rfl, rfl⟩
  obtain ⟨rfl, rfl⟩ := hlast
  obtain ⟨a, -, ha, -, -⟩ := hc.fits
  have hcross := hc.fits.crosses ha hb
  have hfirst : i = 1 := by
    match i, ha with
    | 0, ha =>
        cases ha
        exact absurd hcross (by decide)
    | 1, _ => rfl
    | 2, ha =>
        cases ha
        exact absurd hcross (by decide)
  subst hfirst
  -- which the first intent has taken by then
  have htaken : Chosen rescued 0 1 := by
    refine chosen_iff.2 ⟨⟨_, _, rfl, rfl, by decide⟩, fun c d hbefore _ hcd => ?_⟩
    obtain ⟨rfl, rfl⟩ : c = 0 ∧ d = 0 := by omega
    exact (hcd.fits.crosses rfl rfl).ne rfl
  exact (chosen_iff.1 hc).2 0 1 (.inl (by norm_num)) (by simp) htaken

end ShadePay.Mpc
