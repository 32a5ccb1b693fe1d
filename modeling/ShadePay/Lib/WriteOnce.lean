import Mathlib.Tactic

/-!
# Registers that are written once

A register is a partial value of a state that no step changes once it is there. `Register.foldl_iff`
says what it holds after a run: what the step wrote that found it empty and had something to write.
-/

namespace WriteOnce

section
variable {σ ι β : Type*}

/-- No step changes a full register; into an empty one a step puts what `writes` says. -/
structure Register (step : σ → ι → σ) (get : σ → Option β) (writes : σ → ι → β → Prop) : Prop where
  kept : ∀ {s i b}, get s = some b → get (step s i) = some b
  filled : ∀ {s i b}, get s = none → (get (step s i) = some b ↔ writes s i b)

variable {step : σ → ι → σ} {get : σ → Option β} {writes : σ → ι → β → Prop}

/-- A value stays for the rest of a run. -/
theorem Register.foldl_kept (h : Register step get writes) {s : σ} {b : β} (hs : get s = some b)
    (is : List ι) : get (is.foldl step s) = some b := by
  induction is generalizing s with
  | nil => exact hs
  | cons i is ih => exact ih (h.kept hs)

/-- A value in the register after a run is what one of its steps wrote. -/
theorem Register.foldl_iff (h : Register step get writes) {s : σ} (hs : get s = none)
    {is : List ι} {b : β} :
    get (is.foldl step s) = some b ↔
      ∃ before i after, is = before ++ i :: after ∧ get (before.foldl step s) = none ∧
        writes (before.foldl step s) i b := by
  constructor
  · intro hb
    induction is using List.reverseRecOn with
    | nil =>
        rw [List.foldl_nil, hs] at hb
        cases hb
    | append_singleton is i ih =>
        rw [List.foldl_append, List.foldl_cons, List.foldl_nil] at hb
        cases hlast : get (is.foldl step s) with
        | none => exact ⟨is, i, [], rfl, hlast, (h.filled hlast).1 hb⟩
        | some b' =>
            obtain rfl : b' = b := Option.some.inj ((h.kept hlast).symm.trans hb)
            obtain ⟨before, j, after, rfl, hnone, hwrites⟩ := ih hlast
            exact ⟨before, j, after ++ [i], by simp, hnone, hwrites⟩
  · rintro ⟨before, i, after, rfl, hnone, hwrites⟩
    rw [List.foldl_append, List.foldl_cons]
    exact h.foldl_kept ((h.filled hnone).2 hwrites) after

/-- Each key of a map is a register when a step puts at most one value, and only where there is none. -/
theorem Register.of_map {κ : Type*} [DecidableEq κ] {m : σ → κ → Option β}
    {puts : σ → ι → κ → β → Prop}
    (hput : ∀ s i, (m (step s i) = m s ∧ ∀ k b, puts s i k b → m s k ≠ none) ∨
      ∃ k b, puts s i k b ∧ m s k = none ∧ m (step s i) = Function.update (m s) k (some b))
    (hone : ∀ {s i k b k' b'}, puts s i k b → puts s i k' b' → k = k' ∧ b = b') (k : κ) :
    Register step (fun s => m s k) fun s i b => puts s i k b where
  kept {s i b} h := by
    rcases hput s i with ⟨hsame, -⟩ | ⟨k', b', -, hnone, hupdate⟩
    · rwa [hsame]
    · have hne : k ≠ k' := fun hk => by rw [hk, hnone] at h; cases h
      rwa [hupdate, Function.update_of_ne hne]
  filled {s i b} h := by
    rcases hput s i with ⟨hsame, hfull⟩ | ⟨k', b', hputs, -, hupdate⟩
    · rw [hsame, h]
      exact ⟨nofun, fun hb => absurd h (hfull k b hb)⟩
    · rw [hupdate]
      constructor
      · intro hb
        rcases eq_or_ne k k' with rfl | hne
        · rw [Function.update_self] at hb
          exact Option.some.inj hb ▸ hputs
        · rw [Function.update_of_ne hne, h] at hb
          cases hb
      · intro hb
        obtain ⟨rfl, rfl⟩ := hone hputs hb
        exact Function.update_self _ _ _

end

end WriteOnce
