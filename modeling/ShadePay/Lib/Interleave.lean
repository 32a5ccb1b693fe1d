import Mathlib.Tactic

/-!
# Processes over a shared store

Any number of processes run one program. A step of the program reads and writes the store and the
process's own state, and a run interleaves steps of the processes in any order. `Outline.run` is the
rule by which invariants of such runs are proved: an invariant of the store, an assertion about each
process and a relation between any two, kept by the process that steps and undisturbed in the
others.
-/

namespace Interleave

section
variable {ι D L A : Type*} [DecidableEq ι]

/-- The store and the state of each process. -/
structure State (ι D L : Type*) where
  shared : D
  loc : ι → L

variable (prog : L → D → A → Option (D × L))

/-- A step of one process. -/
def step (s : State ι D L) (e : ι × A) : Option (State ι D L) :=
  (prog (s.loc e.1) s.shared e.2).map fun r => ⟨r.1, Function.update s.loc e.1 r.2⟩

/-- Steps one after another. -/
def run : State ι D L → List (ι × A) → Option (State ι D L)
  | s, [] => some s
  | s, e :: es => (step prog s e).bind fun s' => run s' es

/-- The program with only the steps that meet a condition. -/
def restrict (ok : L → D → A → Bool) (l : L) (d : D) (a : A) : Option (D × L) :=
  if ok l d a then prog l d a else none

variable {prog}

/-- A step writes the shared state and the location of its process. -/
theorem step_eq_some {s s' : State ι D L} {e : ι × A} (h : step prog s e = some s') :
    ∃ d l, prog (s.loc e.1) s.shared e.2 = some (d, l) ∧
      s' = ⟨d, Function.update s.loc e.1 l⟩ := by
  obtain ⟨⟨d, l⟩, hprog, rfl⟩ := Option.map_eq_some_iff.1 h
  exact ⟨d, l, hprog, rfl⟩

/-- A process that can move makes a step. -/
theorem step_of_prog {s : State ι D L} {i : ι} {a : A} {d : D} {l : L}
    (h : prog (s.loc i) s.shared a = some (d, l)) :
    step prog s (i, a) = some ⟨d, Function.update s.loc i l⟩ := by
  rw [step, h, Option.map_some]

/-- A restricted program takes the steps that pass the check. -/
theorem restrict_eq_some {ok : L → D → A → Bool} {l : L} {d : D} {a : A} {r : D × L} :
    restrict prog ok l d a = some r ↔ ok l d a ∧ prog l d a = some r := by
  unfold restrict
  split <;> simp_all

/-- A run is a step and a run. -/
theorem run_cons {s s' : State ι D L} {e : ι × A} {es : List (ι × A)} :
    run prog s (e :: es) = some s' ↔ ∃ t, step prog s e = some t ∧ run prog t es = some s' :=
  Option.bind_eq_some_iff

/-- Two runs one after the other. -/
theorem run_append {s s' : State ι D L} {es fs : List (ι × A)} :
    run prog s (es ++ fs) = some s' ↔ ∃ t, run prog s es = some t ∧ run prog t fs = some s' := by
  induction es generalizing s with
  | nil => simp [run]
  | cons e es ih =>
      rw [List.cons_append, run_cons]
      constructor
      · rintro ⟨u, hstep, hrest⟩
        obtain ⟨t, hes, hfs⟩ := ih.1 hrest
        exact ⟨t, run_cons.2 ⟨u, hstep, hes⟩, hfs⟩
      · rintro ⟨t, hes, hfs⟩
        obtain ⟨u, hstep, hes⟩ := run_cons.1 hes
        exact ⟨u, hstep, ih.2 ⟨t, hes, hfs⟩⟩

/-- A run of one step. -/
theorem run_singleton {s s' : State ι D L} {e : ι × A} :
    run prog s [e] = some s' ↔ step prog s e = some s' := by
  rw [run_cons]
  constructor
  · rintro ⟨t, hstep, ht⟩
    obtain rfl : t = s' := Option.some.inj ht
    exact hstep
  · exact fun h => ⟨s', h, rfl⟩

/-- A fact about the trace and the state it leads to, by induction on the last step. -/
theorem run_induction {s₀ : State ι D L} {motive : List (ι × A) → State ι D L → Prop}
    (nil : motive [] s₀)
    (snoc : ∀ {es s e s'}, run prog s₀ es = some s → motive es s → step prog s e = some s' →
      motive (es ++ [e]) s')
    {es : List (ι × A)} {s : State ι D L} (h : run prog s₀ es = some s) : motive es s := by
  induction es using List.reverseRecOn generalizing s with
  | nil =>
      obtain rfl : s₀ = s := Option.some.inj h
      exact nil
  | append_singleton es e ih =>
      obtain ⟨t, ht, hlast⟩ := run_append.1 h
      exact snoc ht (ih ht) (run_singleton.1 hlast)

/-- A run of the restricted program is a run. -/
theorem run_of_restrict {ok : L → D → A → Bool} {s s' : State ι D L} {es : List (ι × A)}
    (h : run (restrict prog ok) s es = some s') : run prog s es = some s' := by
  induction es generalizing s with
  | nil => exact h
  | cons e es ih =>
      obtain ⟨t, hstep, hrest⟩ := run_cons.1 h
      obtain ⟨d, l, hprog, rfl⟩ := step_eq_some hstep
      refine run_cons.2 ⟨_, ?_, ih hrest⟩
      rw [step, (restrict_eq_some.1 hprog).2, Option.map_some]

/-- A proof outline: what holds of the store, of each process, and between two processes. -/
structure Outline (prog : L → D → A → Option (D × L)) (J : D → Prop) (P : D → L → Prop)
    (Q : L → L → Prop) : Prop where
  /-- The relation has no direction. -/
  symm : ∀ {l m}, Q l m → Q m l
  /-- The process that steps keeps the invariant and its own assertion. -/
  own : ∀ {l d a d' l'}, J d → P d l → prog l d a = some (d', l') → J d' ∧ P d' l'
  /-- It does not disturb another process. -/
  other : ∀ {l m d a d' l'}, J d → P d l → P d m → Q l m → prog l d a = some (d', l') →
    P d' m ∧ Q l' m

/-- A state that satisfies an outline. -/
structure Holds (J : D → Prop) (P : D → L → Prop) (Q : L → L → Prop) (s : State ι D L) : Prop where
  shared : J s.shared
  loc : ∀ i, P s.shared (s.loc i)
  pair : ∀ i j, i ≠ j → Q (s.loc i) (s.loc j)

variable {J : D → Prop} {P : D → L → Prop} {Q : L → L → Prop}

/-- **One step.** The outline holds after every step of every process. -/
theorem Outline.step (h : Outline prog J P Q) {s s' : State ι D L} {e : ι × A}
    (hs : Holds J P Q s) (hstep : Interleave.step prog s e = some s') : Holds J P Q s' := by
  obtain ⟨i, a⟩ := e
  obtain ⟨d, l, hprog, rfl⟩ := step_eq_some hstep
  obtain ⟨hJ, hP⟩ := h.own hs.shared (hs.loc i) hprog
  have hother : ∀ j, j ≠ i → P d (s.loc j) ∧ Q l (s.loc j) := fun j hj =>
    h.other hs.shared (hs.loc i) (hs.loc j) (hs.pair i j hj.symm) hprog
  refine ⟨hJ, fun j => ?_, fun j k hjk => ?_⟩
  · show P d (Function.update s.loc i l j)
    rcases eq_or_ne j i with rfl | hj
    · rwa [Function.update_self]
    · rw [Function.update_of_ne hj]
      exact (hother j hj).1
  · show Q (Function.update s.loc i l j) (Function.update s.loc i l k)
    rcases eq_or_ne j i with rfl | hj
    · rw [Function.update_self, Function.update_of_ne hjk.symm]
      exact (hother k hjk.symm).2
    · rw [Function.update_of_ne hj]
      rcases eq_or_ne k i with rfl | hk
      · rw [Function.update_self]
        exact h.symm (hother j hj).2
      · rw [Function.update_of_ne hk]
        exact hs.pair j k hjk

/-- **The rule.** An outline that the first state satisfies holds of every state of a run. -/
theorem Outline.run (h : Outline prog J P Q) {s s' : State ι D L} {es : List (ι × A)}
    (hs : Holds J P Q s) (hrun : Interleave.run prog s es = some s') : Holds J P Q s' :=
  run_induction (motive := fun _ s => Holds J P Q s) hs (fun _ hs hstep => h.step hs hstep) hrun

end

end Interleave
