import Mathlib.Data.List.Basic
import Mathlib.Data.List.Infix

/-!
# Encodings whose end shows

An encoding into lists is delimited when it can be split off the front of every list that starts with
it. Such encodings are injective. A list is delimited by a closing symbol that starts none of its
members' encodings (`Delimited.flatMap`), also when its members are separated by another symbol
(`Delimited.intercalate`).
-/

variable {α β γ : Type}

/-- Whatever follows the encoding of a value, the value and what follows can be told. -/
def Delimited (f : α → List β) : Prop :=
  ∀ (a b : α) (s t : List β), f a ++ s = f b ++ t → a = b ∧ s = t

namespace Delimited

variable {f : α → List β}

/-- A delimited encoding is injective. -/
theorem injective (h : Delimited f) : Function.Injective f := by
  intro a b hab
  exact (h a b [] [] (by rw [hab])).1

/-- Words none of which starts another. -/
theorem of_not_start (hstart : ∀ a b, f a <+: f b → a = b) : Delimited f := by
  intro a b s t h
  have hab : a = b := by
    rcases List.prefix_or_prefix_of_prefix (List.prefix_append (f a) s)
      (h ▸ List.prefix_append (f b) t) with hp | hp
    · exact hstart a b hp
    · exact (hstart b a hp).symm
  subst hab
  exact ⟨rfl, List.append_cancel_left h⟩

/-- The encodings of a list's members, one after the other, and a closing symbol. -/
theorem flatMap (h : Delimited f) {close : β} (hstart : ∀ a, ∃ b l, f a = b :: l ∧ b ≠ close) :
    Delimited fun l : List α => l.flatMap f ++ [close] := by
  intro l m s t hlm
  simp only [List.append_assoc, List.singleton_append] at hlm
  induction l generalizing m with
  | nil =>
      cases m with
      | nil => exact ⟨rfl, (List.cons.inj hlm).2⟩
      | cons b m =>
          obtain ⟨c, l, hb, hc⟩ := hstart b
          rw [List.flatMap_nil, List.nil_append, List.flatMap_cons, hb] at hlm
          exact absurd (List.cons.inj hlm).1.symm hc
  | cons a l ih =>
      cases m with
      | nil =>
          obtain ⟨c, l', ha, hc⟩ := hstart a
          rw [List.flatMap_nil, List.nil_append, List.flatMap_cons, ha] at hlm
          exact absurd (List.cons.inj hlm).1 hc
      | cons b m =>
          rw [List.flatMap_cons, List.flatMap_cons, List.append_assoc, List.append_assoc] at hlm
          obtain ⟨rfl, hrest⟩ := h _ _ _ _ hlm
          obtain ⟨rfl, hst⟩ := ih m hrest
          exact ⟨rfl, hst⟩

/-- The encodings of a list's members with a symbol between them, and a closing symbol. -/
theorem intercalate (h : Delimited f) {sep close : β} (hne : sep ≠ close)
    (hstart : ∀ a, ∃ b l, f a = b :: l ∧ b ≠ close) :
    Delimited fun l : List α => [sep].intercalate (l.map f) ++ [close] := by
  have hnil : ∀ {a : α} {l : List α} {s t : List β},
      [sep].intercalate ((a :: l).map f) ++ close :: s ≠ close :: t := by
    intro a l s t hlm
    obtain ⟨c, x, ha, hc⟩ := hstart a
    cases l with
    | nil =>
        simp only [List.map_cons, List.map_nil, List.intercalate_singleton, ha] at hlm
        exact hc (List.cons.inj hlm).1
    | cons b l =>
        rw [List.map_cons, List.map_cons, List.intercalate_cons_cons, ha] at hlm
        exact hc (List.cons.inj hlm).1
  intro l m s t hlm
  simp only [List.append_assoc, List.singleton_append] at hlm
  induction l generalizing m with
  | nil =>
      cases m with
      | nil => exact ⟨rfl, (List.cons.inj hlm).2⟩
      | cons b m => exact absurd hlm.symm hnil
  | cons a l ih =>
      cases m with
      | nil => exact absurd hlm hnil
      | cons b m =>
          -- what follows the first member is the separator or the closing symbol
          cases l with
          | nil =>
              cases m with
              | nil =>
                  simp only [List.map_cons, List.map_nil, List.intercalate_singleton] at hlm
                  obtain ⟨rfl, hst⟩ := h _ _ _ _ hlm
                  exact ⟨rfl, (List.cons.inj hst).2⟩
              | cons c m =>
                  simp only [List.map_cons, List.map_nil, List.intercalate_singleton,
                    List.intercalate_cons_cons, List.append_assoc] at hlm
                  exact absurd (List.cons.inj (h _ _ _ _ hlm).2).1.symm hne
          | cons d l =>
              cases m with
              | nil =>
                  simp only [List.map_cons, List.map_nil, List.intercalate_singleton,
                    List.intercalate_cons_cons, List.append_assoc] at hlm
                  exact absurd (List.cons.inj (h _ _ _ _ hlm).2).1 hne
              | cons c m =>
                  simp only [List.map_cons, List.intercalate_cons_cons, List.append_assoc] at hlm ih
                  obtain ⟨rfl, hrest⟩ := h _ _ _ _ hlm
                  obtain ⟨hl, hst⟩ := ih (c :: m) (List.cons.inj hrest).2
                  exact ⟨by rw [hl], hst⟩

end Delimited
