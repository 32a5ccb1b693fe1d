import ShadePay.Queue.Exclusion

/-!
# Calls of `enqueue` with one key

The `UNIQUE` column lets one row carry a key, and a call that returns returns that row. A call whose
insert comes after another call's fails, because the select that would have found the row came
before it, or, with an empty key, not at all.
-/

namespace ShadePay.Queue

variable {J : Type}

/-- The ids and keys of the rows. -/
def keys (jobs : List (ServiceJob J)) : List (ℕ × Option String) :=
  jobs.map fun j => (j.jobId, j.idempotencyKey)

/-- The keys are read off the jobs. -/
theorem mem_keys {jobs : List (ServiceJob J)} {id : ℕ} {key : Option String} :
    (id, key) ∈ keys jobs ↔ ∃ j ∈ jobs, j.jobId = id ∧ j.idempotencyKey = key := by
  simp [keys]

/-- An update that keeps id and key of the jobs keeps the list of keys. -/
theorem keys_update {d : Db J} {jobId : ℕ} {f : ServiceJob J → ServiceJob J}
    (hid : ∀ j, (f j).jobId = j.jobId) (hkey : ∀ j, (f j).idempotencyKey = j.idempotencyKey) :
    keys (d.update jobId f).serviceJobs = keys d.serviceJobs := by
  unfold keys Db.update
  rw [List.map_map]
  refine List.map_congr_left fun j _ => ?_
  rw [Function.comp_apply]
  split
  · rw [hid, hkey]
  · rfl

/-- Only the insert of `enqueue` adds a row, and no row has its key. -/
theorem keys_step {p p' : Process J} {d d' : Db J} {a : Act J} (hstep : p.Effect d a d' p') :
    (keys d'.serviceJobs = keys d.serviceJobs ∧ ∀ r, p = .inserting r → ∀ j, p' ≠ .enqueued r j) ∨
      ∃ r now, p = .inserting r ∧ p' = .enqueued r (d.newJob now r) ∧
        d.taken r.idempotencyKey = false ∧
        keys d'.serviceJobs = keys d.serviceJobs ++ [((d.newJob now r).jobId, r.idempotencyKey)] := by
  cases hstep with
  | claim | setStatus | complete =>
      exact .inl ⟨keys_update (fun _ => rfl) fun _ => rfl, fun _ hp => nomatch hp⟩
  | @fail job message terminal now =>
      refine .inl ⟨?_, fun _ hp => nomatch hp⟩
      cases terminal with
      | true => exact keys_update (fun _ => rfl) fun _ => rfl
      | false => exact keys_update (fun _ => rfl) fun _ => rfl
  | @insert r now hfree => exact .inr ⟨r, now, rfl, rfl, hfree, List.map_append⟩
  | quiet hjobs _ hquiet =>
      refine .inl ⟨by rw [hjobs], fun r hp j hp' => ?_⟩
      subst hp hp'
      cases hquiet with
      | releases hp => cases hp

/-- A key is on one row. -/
def KeyedOnce (jobs : List (ServiceJob J)) : Prop :=
  ∀ id id' key, (id, some key) ∈ keys jobs → (id', some key) ∈ keys jobs → id = id'

/-- The job that a call of `enqueue` has to return is on a row with its key. -/
def Process.Finds (jobs : List (ServiceJob J)) (p : Process J) : Prop :=
  match p with
  | .selecting r key => r.idempotencyKey = some key
  | .enqueued r j | .returned r j => (j.jobId, r.idempotencyKey) ∈ keys jobs
  | _ => True

/-- Rows stay, with their keys. -/
theorem keys_subset {p p' : Process J} {d d' : Db J} {a : Act J} (hstep : p.Effect d a d' p') :
    ∀ e ∈ keys d.serviceJobs, e ∈ keys d'.serviceJobs := by
  rcases keys_step hstep with ⟨heq, -⟩ | ⟨r, now, -, -, -, heq⟩
  · exact fun e he => heq ▸ he
  · exact fun e he => heq ▸ List.mem_append_left _ he

/-- The new row is the only one with its key. -/
theorem KeyedOnce.step {p p' : Process J} {d d' : Db J} {a : Act J}
    (hd : KeyedOnce d.serviceJobs) (hstep : p.Effect d a d' p') : KeyedOnce d'.serviceJobs := by
  rcases keys_step hstep with ⟨heq, -⟩ | ⟨r, now, -, -, hfree, heq⟩
  · unfold KeyedOnce
    rwa [heq]
  · intro id id' key h h'
    have hnew : ∀ {i}, (i, some key) ∈ keys d.serviceJobs → r.idempotencyKey ≠ some key := by
      intro i hi hr
      obtain ⟨j, hj, -, hkey⟩ := mem_keys.1 hi
      rcases taken_eq_false_iff.1 hfree with hnone | hall
      · exact nomatch hnone.symm.trans hr
      · exact hall j hj (hkey.trans hr.symm)
    rw [heq] at h h'
    rcases List.mem_append.1 h with h | h <;> rcases List.mem_append.1 h' with h' | h'
    · exact hd id id' key h h'
    · exact absurd (Prod.mk.inj (List.mem_singleton.1 h')).2.symm (hnew h)
    · exact absurd (Prod.mk.inj (List.mem_singleton.1 h)).2.symm (hnew h')
    · exact (Prod.mk.inj (List.mem_singleton.1 h)).1.trans
        (Prod.mk.inj (List.mem_singleton.1 h')).1.symm

/-- A call that goes on knows the row it returns. -/
theorem Process.Finds.own {p p' : Process J} {d d' : Db J} {a : Act J}
    (hp : p.Finds d.serviceJobs) (hstep : p.Effect d a d' p') : p'.Finds d'.serviceJobs := by
  have hsub := keys_subset hstep
  cases hstep with
  | claim | setStatus | complete | fail => trivial
  | insert => exact mem_keys.2 ⟨_, List.mem_append_right _ List.mem_cons_self, rfl, rfl⟩
  | quiet hjobs _ hquiet =>
      cases hquiet with
      | callsKeyed hr => exact hr
      | @finds r key j now hj =>
          refine hsub _ (mem_keys.2 ⟨j, List.mem_of_find?_eq_some hj, rfl, ?_⟩)
          have hkey : j.idempotencyKey = some key := by simpa using List.find?_some hj
          exact hkey.trans (show r.idempotencyKey = some key from hp).symm
      | enqueues => exact hsub _ hp
      | @releases _ _ _ _ _ hp' =>
          cases p' with
          | selecting | enqueued | returned => cases hp'
          | _ => trivial
      | resumes | raises | loses | returns | looks | callsKeyless | misses | clashes | breaks =>
          trivial

/-- The outline of the keys. -/
theorem keysOutline : Interleave.Outline (Process.next (J := J))
    (fun d => KeyedOnce d.serviceJobs) (fun d p => p.Finds d.serviceJobs) (fun _ _ => True) where
  symm _ := trivial
  own hd hp hnext := ⟨hd.step (next_effect hnext), hp.own (next_effect hnext)⟩
  other {_ q _ _ _ _} _ _ hq _ hnext := by
    have hsub := keys_subset (next_effect hnext)
    refine ⟨?_, trivial⟩
    cases q with
    | enqueued | returned => exact hsub _ hq
    | selecting => exact hq
    | _ => trivial

/-! ## Calls that fail -/

/-- A call has failed after a step only when it had before, when a statement failed, or when its
insert found its key taken. -/
theorem threw_step {p p' : Process J} {d d' : Db J} {a : Act J} (hstep : p.Effect d a d' p')
    (ha : a.succeeds) {r : Request J} (hthrew : p' = .threw r) :
    p = .inserting r ∧ (∃ now, a = .exec now) ∧ d.taken r.idempotencyKey = true := by
  subst hthrew
  cases hstep with
  | quiet _ _ hquiet =>
      cases hquiet with
      | releases _ _ hp' => cases hp'
      | @clashes _ now htaken => exact ⟨rfl, ⟨now, rfl⟩, htaken⟩
      | breaks => cases ha

section
variable {ι : Type} [DecidableEq ι]

/-- What a key promises: one row at most, on which every call with the key that has returned found
the job it returned, and no call with the key that has failed. -/
structure Idempotent (s : System ι J) (key : String) : Prop where
  one : ∀ j ∈ s.shared.serviceJobs, ∀ k ∈ s.shared.serviceJobs,
    j.idempotencyKey = some key → k.idempotencyKey = some key → j = k
  returned : ∀ i r j, s.loc i = .returned r j → r.idempotencyKey = some key →
    ∃ k ∈ s.shared.serviceJobs, k.idempotencyKey = some key ∧ k.jobId = j.jobId
  succeeded : ∀ i r, s.loc i = .threw r → r.idempotencyKey ≠ some key

/-- Every insert of a call with the key, in a trace, finds no row with it. -/
def InsertsFresh (s₀ : System ι J) (es : List (ι × Act J)) (key : String) : Prop :=
  ∀ es₁ i now es₂ t r, es = es₁ ++ (i, .exec now) :: es₂ → run s₀ es₁ = some t →
    t.loc i = .inserting r → r.idempotencyKey = some key →
    ∀ j ∈ t.shared.serviceJobs, j.idempotencyKey ≠ some key

/-- A call that has failed makes no further step. -/
theorem threw_of_run {s s' : System ι J} {es : List (ι × Act J)} (h : run s es = some s') {i : ι}
    {r : Request J} (hi : s.loc i = .threw r) : s'.loc i = .threw r := by
  refine Interleave.run_induction (motive := fun _ s => s.loc i = .threw r) hi ?_ h
  rintro es s ⟨k, a⟩ s' - ih hstep
  obtain ⟨d, p, hnext, rfl⟩ := Interleave.step_eq_some hstep
  rcases eq_or_ne i k with rfl | hne
  · rw [ih] at hnext
    cases hnext
  · exact (Function.update_of_ne hne _ _).trans ih

/-- What the outline says of every run: a key is on one row, and calls return it. -/
theorem keys_of_run {s₀ s : System ι J} (h₀ : s₀.Start) {es : List (ι × Act J)}
    (h : run s₀ es = some s) :
    Interleave.Holds (fun d : Db J => KeyedOnce d.serviceJobs)
      (fun d p => p.Finds d.serviceJobs) (fun _ _ => True) s := by
  refine keysOutline.run ⟨?_, fun i => ?_, fun _ _ _ => trivial⟩ h
  · show KeyedOnce s₀.shared.serviceJobs
    rw [h₀.shared]
    exact fun _ _ _ hmem => (List.not_mem_nil hmem).elim
  · rcases h₀.loc i with ⟨queue, hi⟩ | hi
    all_goals
      rw [hi]
      trivial

/-- An insert of a taken key throws, and the call has failed for good. -/
theorem threw_of_taken {t s : System ι J} {i : ι} {now : ℕ} {es : List (ι × Act J)}
    (h : run t ((i, .exec now) :: es) = some s) {r : Request J} (hi : t.loc i = .inserting r)
    (htaken : t.shared.taken r.idempotencyKey = true) : s.loc i = .threw r := by
  obtain ⟨u, hstep, hrest⟩ := Interleave.run_cons.1 h
  obtain ⟨d, p, hnext, rfl⟩ := Interleave.step_eq_some hstep
  have hthrew : p = .threw r := by
    rw [hi] at hnext
    have hnone : t.shared.insert now r = none := if_pos htaken
    rw [Process.next, hnone] at hnext
    exact (Prod.mk.inj (Option.some.inj hnext)).2.symm
  exact threw_of_run hrest ((Function.update_self i p t.loc).trans hthrew)

/-- No call with the key fails while its inserts find no row. -/
theorem not_threw_of_fresh {s₀ s : System ι J} (h₀ : s₀.Start) {es : List (ι × Act J)}
    (h : run s₀ es = some s) (key : String) : (∀ e ∈ es, e.2.succeeds) → InsertsFresh s₀ es key →
      ∀ i r, s.loc i = .threw r → r.idempotencyKey ≠ some key := by
  refine Interleave.run_induction (motive := fun es s => (∀ e ∈ es, e.2.succeeds) →
    InsertsFresh s₀ es key → ∀ i r, s.loc i = .threw r → r.idempotencyKey ≠ some key) ?_ ?_ h
  · intro _ _ i r hi
    rcases h₀.loc i with ⟨queue, hq⟩ | hq
    all_goals
      rw [hq] at hi
      cases hi
  · rintro es t ⟨k, a⟩ t' hrun ih hstep hes hfresh i r hi hkey
    have ih := ih (fun e he => hes e (List.mem_append_left _ he)) fun es₁ i now es₂ u r heq =>
      hfresh es₁ i now (es₂ ++ [(k, a)]) u r (by rw [heq, List.append_assoc]; rfl)
    obtain ⟨d, p, hnext, rfl⟩ := Interleave.step_eq_some hstep
    rcases eq_or_ne i k with rfl | hne
    · have hp : p = .threw r := (Function.update_self i p t.loc).symm.trans hi
      obtain ⟨hins, ⟨now, rfl⟩, htaken⟩ := threw_step (next_effect hnext)
        (hes _ (List.mem_append_right _ List.mem_cons_self)) hp
      have hfree := hfresh es i now [] t r rfl hrun hins hkey
      rw [taken_eq_false_iff.2 (.inr (hkey ▸ hfree))] at htaken
      cases htaken
    · exact ih i r ((Function.update_of_ne hne p t.loc).symm.trans hi) hkey

/-- **When calls with one key are idempotent.** In every run without failing statements, the key's
promise is kept exactly when no insert of a call with the key comes after the row is there. -/
theorem idempotent_iff {s₀ s : System ι J} (h₀ : s₀.Start) {es : List (ι × Act J)}
    (h : run s₀ es = some s) (hes : ∀ e ∈ es, e.2.succeeds) (key : String) :
    Idempotent s key ↔ InsertsFresh s₀ es key := by
  constructor
  · intro hkept es₁ i now es₂ t r heq ht hi hkey j hj hjkey
    subst heq
    obtain ⟨t', ht', hrest⟩ := Interleave.run_append.1 h
    obtain rfl : t = t' := Option.some.inj (ht.symm.trans ht')
    refine hkept.succeeded i r (threw_of_taken hrest hi ?_) hkey
    rw [hkey]
    exact List.any_eq_true.2 ⟨j, hj, decide_eq_true hjkey⟩
  · intro hfresh
    have hkeys := keys_of_run h₀ h
    refine ⟨fun j hj k hk hjkey hkkey => ?_, fun i r j hi hkey => ?_,
      not_threw_of_fresh h₀ h key hes hfresh⟩
    · exact (holds_of_run h₀ h).shared.eq_of_jobId hj hk
        (hkeys.shared _ _ key (mem_keys.2 ⟨j, hj, rfl, hjkey⟩) (mem_keys.2 ⟨k, hk, rfl, hkkey⟩))
    · have hfinds := hkeys.loc i
      rw [hi] at hfinds
      obtain ⟨k, hk, hid, hkkey⟩ := mem_keys.1 hfinds
      exact ⟨k, hk, hkkey.trans hkey, hid⟩

end

/-- Callers 2 and 3 enqueue one withdrawal: both select before either inserts. -/
def withdrawRaced : List (ℕ × Act String) :=
  [(2, .call withdrawRequest), (3, .call withdrawRequest), (2, .exec 0), (3, .exec 0), (2, .exec 0),
    (3, .exec 0)]

/-- The second insert of the race is not fresh. -/
theorem idempotent_iff_withdrawRaced :
    ¬ InsertsFresh twoRelayers withdrawRaced "wd-submit:w1" := by
  intro hfresh
  have hthrew : ((run twoRelayers withdrawRaced).map fun s => s.loc 3) =
      some (.threw withdrawRequest) := by decide
  obtain ⟨s, h, hi⟩ := Option.map_eq_some_iff.1 hthrew
  exact ((idempotent_iff twoRelayers_start h (by decide) _).2 hfresh).succeeded 3 _ hi rfl

/-- A call of `enqueue` fails on the key of another. -/
theorem enqueue_not_idempotent : ¬ ∀ (s₀ s : System ℕ String) (es : List (ℕ × Act String)),
    s₀.Start → run s₀ es = some s → (∀ e ∈ es, e.2.succeeds) → ∀ key, Idempotent s key := by
  intro hall
  have hthrew : ((run twoRelayers withdrawRaced).map fun s => s.loc 3) =
      some (.threw withdrawRequest) := by decide
  obtain ⟨s, h, hi⟩ := Option.map_eq_some_iff.1 hthrew
  exact (hall _ s _ twoRelayers_start h (by decide) "wd-submit:w1").succeeded 3 _ hi rfl

end ShadePay.Queue
