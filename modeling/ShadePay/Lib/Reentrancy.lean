import Mathlib.Tactic.Common

/-!
# Re-entrant execution of a contract system

A contract call may hand control to outside code before it has finished, and the outside code may
call back in. `Machine` is such a system at the level of its suspension points: `enter` runs an
entry point up to its first external call, `resume` runs it from one external call to the next, and
`act` is what outside code may do to the state by itself. `Tx` is a call together with everything
the outside does while it is suspended, `exec` runs it, and a call that fails leaves no trace.

`Preserves` is the invariant rule. An invariant speaks about the state, the trace of finished calls
and the stack of suspended ones, and it is enough to check it at the five kinds of steps;
`Preserves.exec` gives it for every nesting. `Reach` are the configurations at which control is
outside, in the middle of a call too; `Preserves.reach` gives the invariant there, and
`reach_execAll` says that every run stays among them. `Machine.within` restricts a machine to states
that meet a condition, such as what is assumed of its configuration, and `Reach.map` carries a run over
to another machine that takes its steps.
-/

namespace Reentrancy

/-- A finished call: its entry point, the states before and after it, and the suspension points it
went through. -/
structure Frame (σ ε κ : Type) where
  entry : ε
  pre : σ
  post : σ
  konts : List κ

/-- A suspended call: as `Frame`, with the suspension point it waits at. -/
structure Pending (σ ε κ : Type) where
  entry : ε
  pre : σ
  konts : List κ
  kont : κ

/-- The suspended call as a frame that ends in `post`. -/
def Pending.finish {σ ε κ : Type} (p : Pending σ ε κ) (post : σ) : Frame σ ε κ :=
  ⟨p.entry, p.pre, post, p.konts ++ [p.kont]⟩

/-- The suspended call, moved on to the suspension point `k`. -/
def Pending.advance {σ ε κ : Type} (p : Pending σ ε κ) (k : κ) : Pending σ ε κ :=
  ⟨p.entry, p.pre, p.konts ++ [p.kont], k⟩

/-- A system of contracts over the state `σ`, with entry points `ε`, suspension points `κ` and
outside actions `α`. `none` is a revert. -/
structure Machine (σ ε κ α : Type) where
  enter : ε → σ → Option (σ × Option κ)
  resume : κ → σ → Option (σ × Option κ)
  act : List (Pending σ ε κ) → α → σ → Option σ

/-- A call with what the outside does at each of its suspension points, or an outside action. -/
inductive Tx (ε α : Type) where
  | call (entry : ε) (interludes : List (List (Tx ε α)))
  | act (action : α)

variable {σ ε κ α : Type}

/-- The state and the trace of finished calls. -/
abbrev World (σ ε κ : Type) := σ × List (Frame σ ε κ)

mutual

/-- Run a transaction under the stack `K` of suspended calls. -/
def exec (M : Machine σ ε κ α) : Tx ε α → List (Pending σ ε κ) → World σ ε κ → World σ ε κ
  | .act a, K, w => ((M.act K a w.1).getD w.1, w.2)
  | .call e is, K, w =>
      match M.enter e w.1 with
      | none => w
      | some (s, none) => (s, w.2 ++ [⟨e, w.1, s, []⟩])
      | some (s, some k) => (drive M is ⟨e, w.1, [], k⟩ K (s, w.2)).getD w

/-- Run a list of transactions in order. -/
def execAll (M : Machine σ ε κ α) :
    List (Tx ε α) → List (Pending σ ε κ) → World σ ε κ → World σ ε κ
  | [], _, w => w
  | t :: ts, K, w => execAll M ts K (exec M t K w)

/-- Drive a suspended call to its end, one interlude per suspension point. -/
def drive (M : Machine σ ε κ α) :
    List (List (Tx ε α)) → Pending σ ε κ → List (Pending σ ε κ) → World σ ε κ →
      Option (World σ ε κ)
  | [], _, _, _ => none
  | i :: is, p, K, w =>
      let w₁ := execAll M i (p :: K) w
      match M.resume p.kont w₁.1 with
      | none => none
      | some (s, none) => some (s, w₁.2 ++ [p.finish s])
      | some (s, some k) => drive M is (p.advance k) K (s, w₁.2)

end

/-- A call from the world `w`, or `none` when it reverts. -/
def call? (M : Machine σ ε κ α) (e : ε) (is : List (List (Tx ε α))) (K : List (Pending σ ε κ))
    (w : World σ ε κ) : Option (World σ ε κ) :=
  match M.enter e w.1 with
  | none => none
  | some (s, none) => some (s, w.2 ++ [⟨e, w.1, s, []⟩])
  | some (s, some k) => drive M is ⟨e, w.1, [], k⟩ K (s, w.2)

/-- A call leaves the world as it was when it reverts. -/
theorem exec_call (M : Machine σ ε κ α) (e : ε) (is : List (List (Tx ε α)))
    (K : List (Pending σ ε κ)) (w : World σ ε κ) :
    exec M (.call e is) K w = (call? M e is K w).getD w := by
  rw [exec, call?]
  split <;> rfl

/-! ## The invariant rule -/

/-- `I` is preserved by each step of the machine: a call that finishes at once, a call that
suspends, a suspended call that finishes or moves on, and an outside action. -/
structure Preserves (M : Machine σ ε κ α)
    (I : List (Pending σ ε κ) → World σ ε κ → Prop) : Prop where
  enter_done : ∀ {K s tr e s'}, I K (s, tr) → M.enter e s = some (s', none) →
    I K (s', tr ++ [⟨e, s, s', []⟩])
  enter : ∀ {K s tr e s' k}, I K (s, tr) → M.enter e s = some (s', some k) →
    I (⟨e, s, [], k⟩ :: K) (s', tr)
  resume_done : ∀ {K p s tr s'}, I (p :: K) (s, tr) → M.resume p.kont s = some (s', none) →
    I K (s', tr ++ [p.finish s'])
  resume : ∀ {K p s tr s' k}, I (p :: K) (s, tr) → M.resume p.kont s = some (s', some k) →
    I (p.advance k :: K) (s', tr)
  act : ∀ {K s tr a s'}, I K (s, tr) → M.act K a s = some s' → I K (s', tr)

variable {M : Machine σ ε κ α} {I : List (Pending σ ε κ) → World σ ε κ → Prop}

mutual

/-- **The invariant rule.** A preserved invariant survives every transaction, whatever the outside
does at the suspension points. -/
theorem Preserves.exec (hI : Preserves M I) : ∀ (t : Tx ε α) {K : List (Pending σ ε κ)}
    {w : World σ ε κ}, I K w → I K (exec M t K w)
  | .act a, K, (s, tr), h => by
      rw [Reentrancy.exec]
      cases ha : M.act K a s with
      | none => simpa [ha] using h
      | some s' => simpa [ha] using hI.act h ha
  | .call e is, K, (s, tr), h => by
      rw [Reentrancy.exec]
      split
      · exact h
      · next s' he => exact hI.enter_done h he
      · next s' k he =>
        cases hd : Reentrancy.drive M is ⟨e, s, [], k⟩ K (s', tr) with
        | none => simpa [hd] using h
        | some w' => simpa [hd] using Preserves.drive hI is (hI.enter h he) hd

/-- The invariant rule for a list of transactions. -/
theorem Preserves.execAll (hI : Preserves M I) : ∀ (ts : List (Tx ε α))
    {K : List (Pending σ ε κ)} {w : World σ ε κ}, I K w → I K (execAll M ts K w)
  | [], _, _, h => h
  | t :: ts, _, _, h => Preserves.execAll hI ts (Preserves.exec hI t h)

/-- The invariant rule for a suspended call that is driven to its end. -/
theorem Preserves.drive (hI : Preserves M I) : ∀ (is : List (List (Tx ε α)))
    {p : Pending σ ε κ} {K : List (Pending σ ε κ)} {w w' : World σ ε κ}, I (p :: K) w →
    drive M is p K w = some w' → I K w'
  | [], _, _, _, _, _, hd => by simp [Reentrancy.drive] at hd
  | i :: is, p, K, w, w', h, hd => by
      have h₁ := Preserves.execAll hI i h
      rw [Reentrancy.drive] at hd
      split at hd
      · cases hd
      · next s hr => cases hd; exact hI.resume_done h₁ hr
      · next s k hr => exact Preserves.drive hI is (hI.resume h₁ hr) hd

end

/-- The invariant after a call that succeeds. -/
theorem Preserves.call? (hI : Preserves M I) {e : ε} {is : List (List (Tx ε α))}
    {K : List (Pending σ ε κ)} {w w' : World σ ε κ} (h : I K w)
    (hc : call? M e is K w = some w') : I K w' := by
  have := hI.exec (.call e is) h
  rwa [exec_call, hc, Option.getD_some] at this

/-! ## Inside a call -/

/-- `Q` is kept by every step taken while a call is suspended. -/
structure KeptInside (M : Machine σ ε κ α) (Q : σ → Prop) : Prop where
  enter : ∀ {e s r}, Q s → M.enter e s = some r → Q r.1
  resume : ∀ {k s r}, Q s → M.resume k s = some r → Q r.1
  act : ∀ {K a s s'}, K ≠ [] → Q s → M.act K a s = some s' → Q s'

section
variable {Q : σ → Prop}

mutual

/-- A transaction inside a call keeps `Q`. -/
theorem KeptInside.exec (hQ : KeptInside M Q) : ∀ (t : Tx ε α) {K : List (Pending σ ε κ)}
    {w : World σ ε κ}, K ≠ [] → Q w.1 → Q (exec M t K w).1
  | .act a, K, (s, tr), hK, h => by
      rw [Reentrancy.exec]
      cases ha : M.act K a s with
      | none => simpa [ha] using h
      | some s' => simpa [ha] using hQ.act hK h ha
  | .call e is, K, (s, tr), hK, h => by
      rw [Reentrancy.exec]
      split
      · exact h
      · next s' he => exact hQ.enter h he
      · next s' k he =>
        cases hd : Reentrancy.drive M is ⟨e, s, [], k⟩ K (s', tr) with
        | none => simpa [hd] using h
        | some w' => simpa [hd] using KeptInside.drive hQ is (w := (s', tr)) (hQ.enter h he) hd

/-- A list of transactions inside a call keeps `Q`. -/
theorem KeptInside.execAll (hQ : KeptInside M Q) : ∀ (ts : List (Tx ε α))
    {K : List (Pending σ ε κ)} {w : World σ ε κ}, K ≠ [] → Q w.1 → Q (execAll M ts K w).1
  | [], _, _, _, h => h
  | t :: ts, _, _, hK, h => KeptInside.execAll hQ ts hK (KeptInside.exec hQ t hK h)

/-- A suspended call that is driven to its end keeps `Q`. -/
theorem KeptInside.drive (hQ : KeptInside M Q) : ∀ (is : List (List (Tx ε α)))
    {p : Pending σ ε κ} {K : List (Pending σ ε κ)} {w w' : World σ ε κ}, Q w.1 →
    drive M is p K w = some w' → Q w'.1
  | [], _, _, _, _, _, hd => by simp [Reentrancy.drive] at hd
  | i :: is, p, K, w, w', h, hd => by
      have h₁ := KeptInside.execAll hQ i (List.cons_ne_nil p K) h
      rw [Reentrancy.drive] at hd
      split at hd
      · cases hd
      · next s hr => cases hd; exact hQ.resume h₁ hr
      · next s k hr => exact KeptInside.drive hQ is (w := (s, _)) (hQ.resume h₁ hr) hd

end

/-- The suspension points a call goes through from `k` on, each left in a state of `Q`. -/
inductive KontsIn (M : Machine σ ε κ α) (Q : σ → Prop) : κ → List κ → Prop
  | last {k : κ} {s s' : σ} (hs : Q s) (hr : M.resume k s = some (s', none)) : KontsIn M Q k [k]
  | more {k k' : κ} {s s' : σ} {ks : List κ} (hs : Q s) (hr : M.resume k s = some (s', some k'))
      (hks : KontsIn M Q k' ks) : KontsIn M Q k (k :: ks)

/-- A suspended call that is driven to its end is the last of the trace, and leaves its suspension
points in states of `Q`. -/
theorem KeptInside.konts_of_drive (hQ : KeptInside M Q) : ∀ (is : List (List (Tx ε α)))
    {p : Pending σ ε κ} {K : List (Pending σ ε κ)} {w w' : World σ ε κ}, Q w.1 →
    Reentrancy.drive M is p K w = some w' → ∃ f ks, w'.2.getLast? = some f ∧ f.entry = p.entry ∧
      f.pre = p.pre ∧ f.konts = p.konts ++ ks ∧ KontsIn M Q p.kont ks
  | [], _, _, _, _, _, hd => by simp [Reentrancy.drive] at hd
  | i :: is, p, K, w, w', h, hd => by
      have h₁ := hQ.execAll i (List.cons_ne_nil p K) h
      rw [Reentrancy.drive] at hd
      split at hd
      · cases hd
      · next s hr =>
        cases hd
        exact ⟨p.finish s, [p.kont], by simp, rfl, rfl, rfl, .last h₁ hr⟩
      · next s k hr =>
        obtain ⟨f, ks, hf, he, hpre, hks, hin⟩ :=
          KeptInside.konts_of_drive hQ is (w := (s, _)) (hQ.resume h₁ hr) hd
        refine ⟨f, p.kont :: ks, hf, he, hpre, ?_, .more h₁ hr hin⟩
        rw [hks, Pending.advance, List.append_assoc, List.singleton_append]

/-- **A call that succeeds** ends the trace, and goes through its suspension points inside of `Q`. -/
theorem KeptInside.konts_of_call (hQ : KeptInside M Q) {e : ε} {is : List (List (Tx ε α))}
    {K : List (Pending σ ε κ)} {w w' : World σ ε κ} (h : Q w.1)
    (hc : Reentrancy.call? M e is K w = some w') : ∃ f s ko, w'.2.getLast? = some f ∧ f.entry = e ∧
      f.pre = w.1 ∧ M.enter e w.1 = some (s, ko) ∧
      ((ko = none ∧ f.konts = []) ∨ ∃ k, ko = some k ∧ KontsIn M Q k f.konts) := by
  rw [Reentrancy.call?] at hc
  split at hc
  · cases hc
  · next s he =>
    cases hc
    exact ⟨⟨e, w.1, s, []⟩, s, none, by simp, rfl, rfl, he, .inl ⟨rfl, rfl⟩⟩
  · next s k he =>
    obtain ⟨f, ks, hf, hent, hpre, hks, hin⟩ := hQ.konts_of_drive is (w := (s, w.2)) (hQ.enter h he) hc
    rw [List.nil_append] at hks
    exact ⟨f, s, some k, hf, hent, hpre, he, .inr ⟨k, rfl, hks ▸ hin⟩⟩

end

/-! ## Reachable configurations -/

/-- The configurations reachable from `K₀` and `w₀` at which control is outside: between calls, and at
every suspension point of a call. A revert goes back to a configuration that was reached before, so
it needs no step. -/
inductive Reach (M : Machine σ ε κ α) (K₀ : List (Pending σ ε κ)) (w₀ : World σ ε κ) :
    List (Pending σ ε κ) → World σ ε κ → Prop
  | refl : Reach M K₀ w₀ K₀ w₀
  | enter_done {K s tr e s'} : Reach M K₀ w₀ K (s, tr) → M.enter e s = some (s', none) →
      Reach M K₀ w₀ K (s', tr ++ [⟨e, s, s', []⟩])
  | enter {K s tr e s' k} : Reach M K₀ w₀ K (s, tr) → M.enter e s = some (s', some k) →
      Reach M K₀ w₀ (⟨e, s, [], k⟩ :: K) (s', tr)
  | resume_done {K p s tr s'} : Reach M K₀ w₀ (p :: K) (s, tr) →
      M.resume p.kont s = some (s', none) → Reach M K₀ w₀ K (s', tr ++ [p.finish s'])
  | resume {K p s tr s' k} : Reach M K₀ w₀ (p :: K) (s, tr) →
      M.resume p.kont s = some (s', some k) → Reach M K₀ w₀ (p.advance k :: K) (s', tr)
  | act {K s tr a s'} : Reach M K₀ w₀ K (s, tr) → M.act K a s = some s' →
      Reach M K₀ w₀ K (s', tr)

variable {K₀ K : List (Pending σ ε κ)} {w₀ w : World σ ε κ}

/-- A preserved invariant holds wherever control is outside. -/
theorem Preserves.reach (hI : Preserves M I) (h0 : I K₀ w₀) (h : Reach M K₀ w₀ K w) : I K w := by
  induction h with
  | refl => exact h0
  | enter_done _ he ih => exact hI.enter_done ih he
  | enter _ he ih => exact hI.enter ih he
  | resume_done _ hr ih => exact hI.resume_done ih hr
  | resume _ hr ih => exact hI.resume ih hr
  | act _ ha ih => exact hI.act ih ha

/-- Being reachable is preserved. -/
theorem preserves_reach (M : Machine σ ε κ α) (K₀ : List (Pending σ ε κ)) (w₀ : World σ ε κ) :
    Preserves M (Reach M K₀ w₀) :=
  ⟨.enter_done, .enter, .resume_done, .resume, .act⟩

/-- A run goes on where another ended. -/
theorem Reach.trans {K₁ : List (Pending σ ε κ)} {w₁ : World σ ε κ} (h : Reach M K₀ w₀ K w)
    (h' : Reach M K w K₁ w₁) : Reach M K₀ w₀ K₁ w₁ :=
  (preserves_reach M K₀ w₀).reach h h'

/-- **Runs reach.** What a list of transactions leaves is reachable, reverted calls included. -/
theorem reach_execAll (M : Machine σ ε κ α) (ts : List (Tx ε α)) (h : Reach M K₀ w₀ K w) :
    Reach M K₀ w₀ K (execAll M ts K w) :=
  (preserves_reach M K₀ w₀).execAll ts h

/-! ## Runs within a condition -/

/-- The machine that takes only the steps that end in a state of `C`. -/
noncomputable def Machine.within (M : Machine σ ε κ α) (C : σ → Prop) : Machine σ ε κ α :=
  open Classical in
  { enter := fun e s => (M.enter e s).filter fun r => C r.1
    resume := fun k s => (M.resume k s).filter fun r => C r.1
    act := fun K a s => (M.act K a s).filter fun r => C r }

variable {C : σ → Prop}

/-- The machine enters a call if the state after it meets the condition. -/
theorem within_enter {e : ε} {s : σ} {r : σ × Option κ} :
    (M.within C).enter e s = some r ↔ M.enter e s = some r ∧ C r.1 := by
  simp [Machine.within, Option.filter_eq_some_iff]

/-- The machine goes on if the state after it meets the condition. -/
theorem within_resume {k : κ} {s : σ} {r : σ × Option κ} :
    (M.within C).resume k s = some r ↔ M.resume k s = some r ∧ C r.1 := by
  simp [Machine.within, Option.filter_eq_some_iff]

/-- The outside acts if the state after it meets the condition. -/
theorem within_act {a : α} {s s' : σ} :
    (M.within C).act K a s = some s' ↔ M.act K a s = some s' ∧ C s' := by
  simp [Machine.within, Option.filter_eq_some_iff]

/-- `I` is preserved by each step between two states of `C`. -/
structure PreservesIn (M : Machine σ ε κ α) (C : σ → Prop)
    (I : List (Pending σ ε κ) → World σ ε κ → Prop) : Prop where
  enter_done : ∀ {K s tr e s'}, C s → C s' → I K (s, tr) → M.enter e s = some (s', none) →
    I K (s', tr ++ [⟨e, s, s', []⟩])
  enter : ∀ {K s tr e s' k}, C s → C s' → I K (s, tr) → M.enter e s = some (s', some k) →
    I (⟨e, s, [], k⟩ :: K) (s', tr)
  resume_done : ∀ {K p s tr s'}, C s → C s' → I (p :: K) (s, tr) →
    M.resume p.kont s = some (s', none) → I K (s', tr ++ [p.finish s'])
  resume : ∀ {K p s tr s' k}, C s → C s' → I (p :: K) (s, tr) →
    M.resume p.kont s = some (s', some k) → I (p.advance k :: K) (s', tr)
  act : ∀ {K s tr a s'}, C s → C s' → I K (s, tr) → M.act K a s = some s' → I K (s', tr)

/-- What all steps preserve, those within a condition do. -/
theorem Preserves.within (hI : Preserves M I) (C : σ → Prop) : PreservesIn M C I :=
  ⟨fun _ _ => hI.enter_done, fun _ _ => hI.enter, fun _ _ => hI.resume_done,
    fun _ _ => hI.resume, fun _ _ => hI.act⟩

/-- What is preserved within a condition is preserved within a stronger one. -/
theorem PreservesIn.mono {C' : σ → Prop} (hI : PreservesIn M C I) (h : ∀ s, C' s → C s) :
    PreservesIn M C' I :=
  ⟨fun hC hC' => hI.enter_done (h _ hC) (h _ hC'), fun hC hC' => hI.enter (h _ hC) (h _ hC'),
    fun hC hC' => hI.resume_done (h _ hC) (h _ hC'), fun hC hC' => hI.resume (h _ hC) (h _ hC'),
    fun hC hC' => hI.act (h _ hC) (h _ hC')⟩

/-- The condition that always holds is none. -/
theorem PreservesIn.univ (hI : PreservesIn M (fun _ => True) I) : Preserves M I :=
  ⟨hI.enter_done trivial trivial, hI.enter trivial trivial, hI.resume_done trivial trivial,
    hI.resume trivial trivial, hI.act trivial trivial⟩

/-- An invariant of the state held before each call that is on record. -/
theorem PreservesIn.pre {J : σ → Prop} (hJ : PreservesIn M C fun _ w => J w.1) :
    PreservesIn M C fun K w => J w.1 ∧ (∀ f ∈ w.2, J f.pre) ∧ ∀ p ∈ K, J p.pre := by
  refine ⟨?_, ?_, ?_, ?_, ?_⟩
  · intro K s tr e s' hC hC' h he
    refine ⟨@hJ.enter_done K s tr e s' hC hC' h.1 he, ?_, h.2.2⟩
    simpa [or_imp, forall_and] using ⟨h.2.1, h.1⟩
  · intro K s tr e s' k hC hC' h he
    refine ⟨@hJ.enter K s tr e s' k hC hC' h.1 he, h.2.1, ?_⟩
    simpa using ⟨h.1, h.2.2⟩
  · intro K p s tr s' hC hC' h hr
    refine ⟨@hJ.resume_done K p s tr s' hC hC' h.1 hr, ?_, fun q hq => h.2.2 q (by simp [hq])⟩
    simpa [or_imp, forall_and, Pending.finish] using ⟨h.2.1, h.2.2 p (by simp)⟩
  · intro K p s tr s' k hC hC' h hr
    refine ⟨@hJ.resume K p s tr s' k hC hC' h.1 hr, h.2.1, ?_⟩
    simpa [Pending.advance] using h.2.2
  · intro K s tr a s' hC hC' h ha
    exact ⟨@hJ.act K s tr a s' hC hC' h.1 ha, h.2⟩

/-- **The invariant rule within a condition.** Every state of such a run satisfies the condition, and
what the steps between such states preserve holds of it. -/
theorem PreservesIn.reach (hI : PreservesIn M C I) (hC : C w₀.1) (h0 : I K₀ w₀)
    (h : Reach (M.within C) K₀ w₀ K w) : C w.1 ∧ I K w := by
  induction h with
  | refl => exact ⟨hC, h0⟩
  | enter_done _ he ih =>
      obtain ⟨he, hC'⟩ := within_enter.1 he
      exact ⟨hC', hI.enter_done ih.1 hC' ih.2 he⟩
  | enter _ he ih =>
      obtain ⟨he, hC'⟩ := within_enter.1 he
      exact ⟨hC', hI.enter ih.1 hC' ih.2 he⟩
  | resume_done _ hr ih =>
      obtain ⟨hr, hC'⟩ := within_resume.1 hr
      exact ⟨hC', hI.resume_done ih.1 hC' ih.2 hr⟩
  | resume _ hr ih =>
      obtain ⟨hr, hC'⟩ := within_resume.1 hr
      exact ⟨hC', hI.resume ih.1 hC' ih.2 hr⟩
  | act _ ha ih =>
      obtain ⟨ha, hC'⟩ := within_act.1 ha
      exact ⟨hC', hI.act ih.1 hC' ih.2 ha⟩

/-- A run within a condition is a run. -/
theorem Reach.of_within (h : Reach (M.within C) K₀ w₀ K w) : Reach M K₀ w₀ K w := by
  induction h with
  | refl => exact .refl
  | enter_done _ he ih => exact ih.enter_done (within_enter.1 he).1
  | enter _ he ih => exact ih.enter (within_enter.1 he).1
  | resume_done _ hr ih => exact ih.resume_done (within_resume.1 hr).1
  | resume _ hr ih => exact ih.resume (within_resume.1 hr).1
  | act _ ha ih => exact ih.act (within_act.1 ha).1

/-- A run within a condition is one within every weaker one. -/
theorem Reach.within_mono {C' : σ → Prop} (h : Reach (M.within C) K₀ w₀ K w)
    (hC : ∀ s, C s → C' s) : Reach (M.within C') K₀ w₀ K w := by
  induction h with
  | refl => exact .refl
  | enter_done _ he ih =>
      exact ih.enter_done (within_enter.2 ⟨(within_enter.1 he).1, hC _ (within_enter.1 he).2⟩)
  | enter _ he ih =>
      exact ih.enter (within_enter.2 ⟨(within_enter.1 he).1, hC _ (within_enter.1 he).2⟩)
  | resume_done _ hr ih =>
      exact ih.resume_done (within_resume.2 ⟨(within_resume.1 hr).1, hC _ (within_resume.1 hr).2⟩)
  | resume _ hr ih =>
      exact ih.resume (within_resume.2 ⟨(within_resume.1 hr).1, hC _ (within_resume.1 hr).2⟩)
  | act _ ha ih => exact ih.act (within_act.2 ⟨(within_act.1 ha).1, hC _ (within_act.1 ha).2⟩)

/-! ## Runs whose steps meet a condition -/

/-- The machine that enters only the calls that `G` admits in the state before them, and goes on from
a suspension point only when `H` admits that. -/
noncomputable def Machine.admitting (M : Machine σ ε κ α) (G : ε → σ → Prop) (H : κ → σ → Prop) :
    Machine σ ε κ α :=
  open Classical in
  { enter := fun e s => if G e s then M.enter e s else none
    resume := fun k s => if H k s then M.resume k s else none
    act := M.act }

section
variable {G : ε → σ → Prop} {H : κ → σ → Prop}

/-- The machine enters the calls that are admitted. -/
theorem admitting_enter {e : ε} {s : σ} {r : σ × Option κ} :
    (M.admitting G H).enter e s = some r ↔ G e s ∧ M.enter e s = some r := by
  simp [Machine.admitting]

/-- The machine goes on where it is admitted. -/
theorem admitting_resume {k : κ} {s : σ} {r : σ × Option κ} :
    (M.admitting G H).resume k s = some r ↔ H k s ∧ M.resume k s = some r := by
  simp [Machine.admitting]

end

/-! ## Runs whose steps meet a condition on the stack -/

/-- The configurations reached by steps that `G` and `A` admit: `G` a call that is entered, `A` an
outside act, each above the stack of suspended calls and in the state before it. -/
inductive ReachIf (M : Machine σ ε κ α) (G : List (Pending σ ε κ) → ε → σ → Prop)
    (A : List (Pending σ ε κ) → α → σ → Prop) (K₀ : List (Pending σ ε κ)) (w₀ : World σ ε κ) :
    List (Pending σ ε κ) → World σ ε κ → Prop
  | refl : ReachIf M G A K₀ w₀ K₀ w₀
  | enter_done {K s tr e s'} : ReachIf M G A K₀ w₀ K (s, tr) → G K e s →
      M.enter e s = some (s', none) → ReachIf M G A K₀ w₀ K (s', tr ++ [⟨e, s, s', []⟩])
  | enter {K s tr e s' k} : ReachIf M G A K₀ w₀ K (s, tr) → G K e s →
      M.enter e s = some (s', some k) → ReachIf M G A K₀ w₀ (⟨e, s, [], k⟩ :: K) (s', tr)
  | resume_done {K p s tr s'} : ReachIf M G A K₀ w₀ (p :: K) (s, tr) →
      M.resume p.kont s = some (s', none) → ReachIf M G A K₀ w₀ K (s', tr ++ [p.finish s'])
  | resume {K p s tr s' k} : ReachIf M G A K₀ w₀ (p :: K) (s, tr) →
      M.resume p.kont s = some (s', some k) → ReachIf M G A K₀ w₀ (p.advance k :: K) (s', tr)
  | act {K s tr a s'} : ReachIf M G A K₀ w₀ K (s, tr) → A K a s → M.act K a s = some s' →
      ReachIf M G A K₀ w₀ K (s', tr)

/-- They are reachable. -/
theorem ReachIf.reach {G : List (Pending σ ε κ) → ε → σ → Prop}
    {A : List (Pending σ ε κ) → α → σ → Prop} (h : ReachIf M G A K₀ w₀ K w) : Reach M K₀ w₀ K w := by
  induction h with
  | refl => exact .refl
  | enter_done _ _ he ih => exact ih.enter_done he
  | enter _ _ he ih => exact ih.enter he
  | resume_done _ hr ih => exact ih.resume_done hr
  | resume _ hr ih => exact ih.resume hr
  | act _ _ ha ih => exact ih.act ha

/-- Every step of `M` is one of `M'`. -/
structure Machine.Sub (M M' : Machine σ ε κ α) : Prop where
  enter : ∀ {e s r}, M.enter e s = some r → M'.enter e s = some r
  resume : ∀ {k s r}, M.resume k s = some r → M'.resume k s = some r
  act : ∀ {K a s s'}, M.act K a s = some s' → M'.act K a s = some s'

/-- The machine that takes only the steps that end in a state that passes the check `c`. Its runs can
be computed. -/
def Machine.filter (M : Machine σ ε κ α) (c : σ → Bool) : Machine σ ε κ α where
  enter e s := (M.enter e s).filter fun r => c r.1
  resume k s := (M.resume k s).filter fun r => c r.1
  act K a s := (M.act K a s).filter c

/-- The filtered machine takes steps of the machine. -/
theorem filter_sub (M : Machine σ ε κ α) (c : σ → Bool) : (M.filter c).Sub M where
  enter h := (Option.filter_eq_some_iff.1 h).1
  resume h := (Option.filter_eq_some_iff.1 h).1
  act h := (Option.filter_eq_some_iff.1 h).1

/-- The filtered machine preserves what the machine does, and the check. -/
theorem Preserves.filter (hI : Preserves M I) (c : σ → Bool) :
    Preserves (M.filter c) fun K w => I K w ∧ c w.1 = true := by
  refine ⟨?_, ?_, ?_, ?_, ?_⟩
  · intro K s tr e s' h he
    obtain ⟨he, hc⟩ := Option.filter_eq_some_iff.1 he
    exact ⟨hI.enter_done h.1 he, hc⟩
  · intro K s tr e s' k h he
    obtain ⟨he, hc⟩ := Option.filter_eq_some_iff.1 he
    exact ⟨hI.enter h.1 he, hc⟩
  · intro K p s tr s' h hr
    obtain ⟨hr, hc⟩ := Option.filter_eq_some_iff.1 hr
    exact ⟨hI.resume_done h.1 hr, hc⟩
  · intro K p s tr s' k h hr
    obtain ⟨hr, hc⟩ := Option.filter_eq_some_iff.1 hr
    exact ⟨hI.resume h.1 hr, hc⟩
  · intro K s tr a s' h ha
    obtain ⟨ha, hc⟩ := Option.filter_eq_some_iff.1 ha
    exact ⟨hI.act h.1 ha, hc⟩

/-- Smaller than a smaller machine. -/
theorem Machine.Sub.trans {M₁ M₂ M₃ : Machine σ ε κ α} (h : M₁.Sub M₂) (h' : M₂.Sub M₃) :
    M₁.Sub M₃ :=
  ⟨fun hs => h'.enter (h.enter hs), fun hs => h'.resume (h.resume hs), fun hs => h'.act (h.act hs)⟩

/-- **Runs of a smaller machine.** If what they preserve implies the condition, they are runs of the
larger machine within it. -/
theorem Reach.within_of {M' : Machine σ ε κ α} (hsub : M.Sub M') (hI : Preserves M I)
    (hIC : ∀ {K w}, I K w → C w.1) (h0 : I K₀ w₀) (h : Reach M K₀ w₀ K w) :
    Reach (M'.within C) K₀ w₀ K w := by
  have hboth : Preserves M fun K w => I K w ∧ Reach (M'.within C) K₀ w₀ K w := by
    refine ⟨?_, ?_, ?_, ?_, ?_⟩
    · intro K s tr e s' h he
      have hI' := hI.enter_done h.1 he
      exact ⟨hI', h.2.enter_done (within_enter.2 ⟨hsub.enter he, hIC hI'⟩)⟩
    · intro K s tr e s' k h he
      have hI' := hI.enter h.1 he
      exact ⟨hI', h.2.enter (within_enter.2 ⟨hsub.enter he, hIC hI'⟩)⟩
    · intro K p s tr s' h hr
      have hI' := hI.resume_done h.1 hr
      exact ⟨hI', h.2.resume_done (within_resume.2 ⟨hsub.resume hr, hIC hI'⟩)⟩
    · intro K p s tr s' k h hr
      have hI' := hI.resume h.1 hr
      exact ⟨hI', h.2.resume (within_resume.2 ⟨hsub.resume hr, hIC hI'⟩)⟩
    · intro K s tr a s' h ha
      have hI' := hI.act h.1 ha
      exact ⟨hI', h.2.act (within_act.2 ⟨hsub.act ha, hIC hI'⟩)⟩
  exact (hboth.reach ⟨h0, .refl⟩ h).2

/-- Runs of a smaller machine whose invariant admits its steps. -/
theorem Reach.admitting_of {M' : Machine σ ε κ α} {G : ε → σ → Prop} {H : κ → σ → Prop}
    (hsub : M.Sub M') (hI : Preserves M I)
    (hG : ∀ {K w e r}, I K w → M.enter e w.1 = some r → G e w.1)
    (hH : ∀ {K w k r}, I K w → M.resume k w.1 = some r → H k w.1) (h0 : I K₀ w₀)
    (h : Reach M K₀ w₀ K w) : Reach (M'.admitting G H) K₀ w₀ K w := by
  have hboth : Preserves M fun K w => I K w ∧ Reach (M'.admitting G H) K₀ w₀ K w := by
    refine ⟨?_, ?_, ?_, ?_, ?_⟩
    · intro K s tr e s' h he
      exact ⟨hI.enter_done h.1 he, h.2.enter_done (admitting_enter.2 ⟨hG h.1 he, hsub.enter he⟩)⟩
    · intro K s tr e s' k h he
      exact ⟨hI.enter h.1 he, h.2.enter (admitting_enter.2 ⟨hG h.1 he, hsub.enter he⟩)⟩
    · intro K p s tr s' h hr
      exact ⟨hI.resume_done h.1 hr, h.2.resume_done (admitting_resume.2 ⟨hH h.1 hr, hsub.resume hr⟩)⟩
    · intro K p s tr s' k h hr
      exact ⟨hI.resume h.1 hr, h.2.resume (admitting_resume.2 ⟨hH h.1 hr, hsub.resume hr⟩)⟩
    · intro K s tr a s' h ha
      exact ⟨hI.act h.1 ha, h.2.act (hsub.act ha)⟩
  exact (hboth.reach ⟨h0, .refl⟩ h).2

/-! ## Runs of another machine -/

/-- The finished call, with its entry point renamed. -/
def Frame.map {ε' : Type} (f : ε → ε') (r : Frame σ ε κ) : Frame σ ε' κ :=
  ⟨f r.entry, r.pre, r.post, r.konts⟩

/-- The suspended call, with its entry point renamed. -/
def Pending.map {ε' : Type} (f : ε → ε') (p : Pending σ ε κ) : Pending σ ε' κ :=
  ⟨f p.entry, p.pre, p.konts, p.kont⟩

/-- **A run is a run of every machine that takes its steps.** `M'` may name the entry points in
another way, and need only answer to those that are on record at the end. -/
theorem Reach.map {ε' : Type} {M' : Machine σ ε' κ α} {f : ε → ε'} {P : ε → Prop}
    (henter : ∀ {e s r}, P e → M.enter e s = some r → M'.enter (f e) s = some r)
    (hresume : ∀ {k s r}, M.resume k s = some r → M'.resume k s = some r)
    (hact : ∀ {K a s s'}, M.act K a s = some s' → M'.act (K.map (Pending.map f)) a s = some s')
    (h : Reach M K₀ w₀ K w) (hK : ∀ p ∈ K, P p.entry) (hw : ∀ r ∈ w.2, P r.entry) :
    Reach M' (K₀.map (Pending.map f)) (w₀.1, w₀.2.map (Frame.map f)) (K.map (Pending.map f))
      (w.1, w.2.map (Frame.map f)) := by
  induction h with
  | refl => exact .refl
  | enter_done _ he ih =>
      simp only [List.mem_append, List.mem_singleton] at hw
      rw [List.map_append]
      exact (ih hK fun r hr => hw r (.inl hr)).enter_done (henter (hw _ (.inr rfl)) he)
  | enter _ he ih =>
      simp only [List.mem_cons] at hK
      exact (ih (fun p hp => hK p (.inr hp)) hw).enter (henter (hK _ (.inl rfl)) he)
  | @resume_done K₁ p s tr s' _ hr ih =>
      simp only [List.mem_append, List.mem_singleton] at hw
      have hp : P p.entry := hw _ (.inr rfl)
      rw [List.map_append]
      refine (ih (fun q hq => ?_) fun r hr => hw r (.inl hr)).resume_done (hresume hr)
      rcases List.mem_cons.1 hq with rfl | hq
      · exact hp
      · exact hK q hq
  | @resume K₁ p s tr s' k _ hr ih =>
      simp only [List.mem_cons] at hK
      refine (ih (fun q hq => ?_) hw).resume (hresume hr)
      rcases List.mem_cons.1 hq with rfl | hq
      · exact hK (q.advance k) (.inl rfl)
      · exact hK q (.inr hq)
  | act _ ha ih => exact (ih hK hw).act (hact ha)

end Reentrancy
