import ShadePay.Queue.Effects

/-!
# One worker for each job

The outline of the queue: what the table satisfies, what each worker knows of the row of the job it
holds, and that no two hold the same one. It is proved once, for any condition on the steps; the
condition decides what a worker may find when it fails a job that was already written as ready.
-/

namespace ShadePay.Queue

variable {J : Type}

/-! ## Statuses -/

/-- A status of a job that a worker holds. -/
def Status.inProgress (s : Status) : Bool := !s.claimable && s ≠ .ready && s ≠ .failed

/-- A status of a job that is over. -/
def Status.closed (s : Status) : Bool := s = .ready || s = .failed

theorem Status.claimable_of_inProgress {s : Status} (h : s.inProgress) : s.claimable = false := by
  cases s <;> first | rfl | cases h

theorem Status.closed_of_inProgress {s : Status} (h : s.inProgress) : s.closed = false := by
  cases s <;> first | rfl | cases h

theorem Status.claimable_of_closed {s : Status} (h : s.closed) : s.claimable = false := by
  cases s <;> first | rfl | cases h

/-- The handlers report only progress. -/
theorem process_inProgress (queue : QueueName) (jobType : String) :
    ∀ path ∈ queue.process jobType, ∀ stage ∈ path, stage.status.inProgress := by
  cases queue with
  | prover =>
      show ∀ path ∈ processProofJob, ∀ stage ∈ path, stage.status.inProgress
      decide
  | relayer =>
      show ∀ path ∈ processRelayerJob jobType, ∀ stage ∈ path, stage.status.inProgress
      unfold processRelayerJob
      split_ifs <;> decide

/-! ## The table -/

/-- Rows are numbered in order, none has used more attempts than it has, and one that can be
claimed has attempts left. -/
structure Sound (jobs : List (ServiceJob J)) : Prop where
  ids : jobs.map ServiceJob.jobId = List.range jobs.length
  budget : ∀ j ∈ jobs, j.attempts ≤ j.maxAttempts
  spare : ∀ j ∈ jobs, j.status.claimable → j.attempts < j.maxAttempts

/-- The next job id is not in use. -/
theorem Sound.lt_length {jobs : List (ServiceJob J)} (h : Sound jobs) {j : ServiceJob J}
    (hj : j ∈ jobs) : j.jobId < jobs.length := by
  have hmem : j.jobId ∈ jobs.map ServiceJob.jobId := List.mem_map_of_mem hj
  rw [h.ids] at hmem
  exact List.mem_range.1 hmem

/-- An id names one row. -/
theorem Sound.eq_of_jobId {jobs : List (ServiceJob J)} (h : Sound jobs) {j k : ServiceJob J}
    (hj : j ∈ jobs) (hk : k ∈ jobs) (hid : j.jobId = k.jobId) : j = k := by
  have hnodup : (jobs.map ServiceJob.jobId).Nodup := h.ids ▸ List.nodup_range
  exact List.inj_on_of_nodup_map hnodup hj hk hid

/-- An update keeps the table sound when it keeps the row it changes so. -/
theorem Sound.update {d : Db J} (h : Sound d.serviceJobs) {jobId : ℕ}
    {f : ServiceJob J → ServiceJob J} (hid : ∀ j, (f j).jobId = j.jobId)
    (hf : ∀ j ∈ d.serviceJobs, j.jobId = jobId → (f j).attempts ≤ (f j).maxAttempts ∧
      ((f j).status.claimable → (f j).attempts < (f j).maxAttempts)) :
    Sound (d.update jobId f).serviceJobs := by
  have hids : (d.update jobId f).serviceJobs.map ServiceJob.jobId =
      d.serviceJobs.map ServiceJob.jobId := by
    rw [Db.update, List.map_map]
    refine List.map_congr_left fun j _ => ?_
    rw [Function.comp_apply]
    split
    · exact hid j
    · rfl
  refine ⟨?_, fun j hj => ?_, fun j hj => ?_⟩
  · rw [hids, h.ids, Db.update, List.length_map]
  · obtain ⟨k, hk, rfl⟩ := mem_update.1 hj
    split
    · next hkid => exact (hf k hk hkid).1
    · exact h.budget k hk
  · obtain ⟨k, hk, rfl⟩ := mem_update.1 hj
    split
    · next hkid => exact (hf k hk hkid).2
    · exact h.spare k hk

/-- A new job gets a new id. -/
theorem Sound.insert {d : Db J} (h : Sound d.serviceJobs) (now : ℕ) (r : Request J) :
    Sound (d.serviceJobs ++ [d.newJob now r]) := by
  refine ⟨?_, fun j hj => ?_, fun j hj => ?_⟩
  · rw [List.map_append, h.ids, List.length_append, List.length_singleton, List.range_succ]
    rfl
  · rcases List.mem_append.1 hj with hj | hj
    · exact h.budget j hj
    · obtain rfl := List.mem_singleton.1 hj
      exact Nat.zero_le _
  · rcases List.mem_append.1 hj with hj | hj
    · exact h.spare j hj
    · obtain rfl := List.mem_singleton.1 hj
      exact fun _ => Nat.zero_lt_succ _

/-- What `fail` reads of a row. -/
theorem terminal_eq {d : Db J} (h : Sound d.serviceJobs) {j : ServiceJob J}
    (hj : j ∈ d.serviceJobs) : d.terminal j.jobId = decide (j.attempts ≥ j.maxAttempts) := by
  unfold Db.terminal
  cases hfind : d.serviceJobs.find? fun k => k.jobId = j.jobId with
  | none => exact absurd (List.find?_eq_none.1 hfind j hj) (by simp)
  | some k =>
      have hid : k.jobId = j.jobId := by simpa using List.find?_some hfind
      rw [h.eq_of_jobId (List.mem_of_find?_eq_some hfind) hj hid]

/-! ## The workers -/

/-- What a worker knows of the row of its job. `late` is what it knows of one that was already
ready when its round failed. -/
def Process.Expects (late : ℕ → ℕ → Prop) (p : Process J) (j : ServiceJob J) : Prop :=
  match p with
  | .running _ _ | .logging _ _ _ | .completing _ _ => j.status.inProgress
  | .completed _ => j.status = .ready
  | .failing _ _ => j.status.inProgress ∨ j.status = .ready ∧ late j.attempts j.maxAttempts
  | .givingUp _ _ terminal =>
      (j.status.inProgress ∨ j.status = .ready ∧ late j.attempts j.maxAttempts) ∧
        (terminal = false → j.attempts < j.maxAttempts)
  | _ => True

/-- The `setStatus` calls before a worker. -/
def Process.stages : Process J → List Stage
  | .running _ rest => rest
  | .logging _ stage rest => stage :: rest
  | _ => []

/-- What is true of a process and the table. -/
structure Stands (late : ℕ → ℕ → Prop) (jobs : List (ServiceJob J)) (p : Process J) : Prop where
  known : ∀ id, p.holds = some id → id < jobs.length
  row : ∀ j ∈ jobs, p.holds = some j.jobId → p.Expects late j
  stages : ∀ stage ∈ p.stages, stage.status.inProgress

/-- Two processes do not hold one job. -/
def Apart (p q : Process J) : Prop := ∀ id, p.holds = some id → q.holds ≠ some id

/-- The row of a job that is held cannot be claimed. -/
theorem Stands.not_claimable {late : ℕ → ℕ → Prop} {jobs : List (ServiceJob J)} {p : Process J}
    (h : Stands late jobs p) {j : ServiceJob J} (hj : j ∈ jobs)
    (hholds : p.holds = some j.jobId) : j.status.claimable = false := by
  have hrow := h.row j hj hholds
  cases p with
  | running | logging | completing => exact Status.claimable_of_inProgress hrow
  | completed =>
      rw [show j.status = .ready from hrow]
      rfl
  | failing =>
      rcases hrow with hrow | ⟨hready, -⟩
      · exact Status.claimable_of_inProgress hrow
      · rw [hready]
        rfl
  | givingUp =>
      rcases hrow.1 with hrow | ⟨hready, -⟩
      · exact Status.claimable_of_inProgress hrow
      · rw [hready]
        rfl
  | idle | gaveUp | stopped | client | selecting | inserting | enqueued | returned | threw =>
      cases hholds

/-- Another process's row is not touched. -/
theorem Stands.update {late : ℕ → ℕ → Prop} {d : Db J} {p : Process J}
    (h : Stands late d.serviceJobs p) {jobId : ℕ} {f : ServiceJob J → ServiceJob J}
    (hid : ∀ j, (f j).jobId = j.jobId) (hapart : p.holds ≠ some jobId) :
    Stands late (d.update jobId f).serviceJobs p := by
  refine ⟨fun id hholds => ?_, fun j hj hholds => ?_, h.stages⟩
  · rw [Db.update, List.length_map]
    exact h.known id hholds
  · obtain ⟨k, hk, rfl⟩ := mem_update.1 hj
    by_cases hkid : k.jobId = jobId
    · rw [if_pos hkid, hid, hkid] at hholds
      exact absurd hholds hapart
    · rw [if_neg hkid] at hholds ⊢
      exact h.row k hk hholds

/-- What a relayer knows of its job does not depend on new jobs. -/
theorem Stands.insert {late : ℕ → ℕ → Prop} {d : Db J} {p : Process J}
    (h : Stands late d.serviceJobs p) (now : ℕ) (r : Request J) :
    Stands late (d.serviceJobs ++ [d.newJob now r]) p := by
  refine ⟨fun id hholds => ?_, fun j hj hholds => ?_, h.stages⟩
  · rw [List.length_append]
    exact Nat.lt_add_right _ (h.known id hholds)
  · rcases List.mem_append.1 hj with hj | hj
    · exact h.row j hj hholds
    · obtain rfl := List.mem_singleton.1 hj
      exact absurd (h.known _ hholds) (lt_irrefl _)

/-- A process that holds nothing knows nothing. -/
theorem Stands.of_holds_none {late : ℕ → ℕ → Prop} {jobs : List (ServiceJob J)} {p : Process J}
    (h : p.holds = none) : Stands late jobs p := by
  refine ⟨fun id hid => ?_, fun j _ hj => ?_, fun stage hstage => ?_⟩
  · rw [h] at hid
    cases hid
  · rw [h] at hj
    cases hj
  · cases p with
    | running | logging => cases h
    | _ => cases hstage

/-- A worker after it wrote its own row. -/
theorem Stands.of_update {late : ℕ → ℕ → Prop} {d : Db J} {p : Process J} {jobId : ℕ}
    {f : ServiceJob J → ServiceJob J} (hholds : p.holds = some jobId)
    (hlt : jobId < d.serviceJobs.length)
    (hrow : ∀ j ∈ d.serviceJobs, j.jobId = jobId → p.Expects late (f j))
    (hstages : ∀ stage ∈ p.stages, stage.status.inProgress) :
    Stands late (d.update jobId f).serviceJobs p := by
  refine ⟨fun id h => ?_, fun j hj h => ?_, hstages⟩
  · obtain rfl : jobId = id := Option.some.inj (hholds.symm.trans h)
    rwa [Db.update, List.length_map]
  · obtain ⟨k, hk, rfl⟩ := mem_update.1 hj
    have hjob := Option.some.inj (hholds.symm.trans h)
    by_cases hkid : k.jobId = jobId
    · rw [if_pos hkid]
      exact hrow k hk hkid
    · rw [if_neg hkid] at hjob
      exact absurd hjob.symm hkid

/-- A worker that goes on with its job. -/
theorem Stands.goes_on {late : ℕ → ℕ → Prop} {jobs : List (ServiceJob J)} {p p' : Process J}
    (h : Stands late jobs p) (hholds : p'.holds = p.holds)
    (hrow : ∀ j ∈ jobs, p.holds = some j.jobId → p'.Expects late j)
    (hstages : ∀ stage ∈ p'.stages, stage ∈ p.stages) : Stands late jobs p' :=
  ⟨fun id hid => h.known id (hholds ▸ hid), fun j hj hid => hrow j hj (hholds ▸ hid),
    fun stage hstage => h.stages stage (hstages stage hstage)⟩

section
variable {late : ℕ → ℕ → Prop} {ok : Process J → Db J → Act J → Bool}
  (hok : ∀ {job : ServiceJob J} {d : Db J} {message : String}, Sound d.serviceJobs →
    ok (.completed job) d (.error message) = true →
    ∀ j ∈ d.serviceJobs, j.jobId = job.jobId → late j.attempts j.maxAttempts)
include hok

/-- A quiet step keeps what the process knows. -/
theorem Stands.quiet {p p' : Process J} {d : Db J} {a : Act J} (hd : Sound d.serviceJobs)
    (h : Stands late d.serviceJobs p) (hquiet : Process.Quiet d p a p') (ha : ok p d a) :
    Stands late d.serviceJobs p' := by
  cases hquiet with
  | resumes hp hrest =>
      rcases hp with rfl | ⟨stage, rfl⟩
      · exact h.goes_on rfl (fun j hj hid => h.row j hj hid) hrest
      · exact h.goes_on rfl (fun j hj hid => h.row j hj hid) fun st hst =>
          List.mem_cons_of_mem _ (hrest st hst)
  | raises hp =>
      rcases hp with ⟨rest, rfl⟩ | ⟨stage, rest, rfl⟩ | ⟨result, rfl⟩
      all_goals exact h.goes_on rfl (fun j hj hid => .inl (h.row j hj hid)) fun _ hst => nomatch hst
  | @loses job message =>
      refine h.goes_on rfl (fun j hj hid => .inr ⟨h.row j hj hid, ?_⟩) fun _ hst => nomatch hst
      exact hok hd ha j hj (Option.some.inj hid).symm
  | returns => exact h.goes_on rfl (fun j hj hid => h.row j hj hid) fun _ hst => nomatch hst
  | @looks job message now =>
      refine h.goes_on rfl (fun j hj hid => ⟨h.row j hj hid, fun hterminal => ?_⟩)
        fun _ hst => nomatch hst
      rw [Option.some.inj hid, terminal_eq hd hj] at hterminal
      simpa using hterminal
  | releases _ hholds => exact .of_holds_none hholds
  | callsKeyless | callsKeyed | finds | misses | clashes | enqueues | breaks =>
      exact .of_holds_none rfl

/-- The process that steps keeps the table sound and knows what it must. -/
theorem own_step {p p' : Process J} {d d' : Db J} {a : Act J} (hd : Sound d.serviceJobs)
    (h : Stands late d.serviceJobs p) (hstep : p.Effect d a d' p') (ha : ok p d a) :
    Sound d'.serviceJobs ∧ Stands late d'.serviceJobs p' := by
  cases hstep with
  | @claim queue now locked path j hj heligible hpath =>
      simp only [ServiceJob.eligible, Bool.and_eq_true] at heligible
      have hspare := hd.spare j hj heligible.1.1.1.2
      refine ⟨hd.update (fun _ => rfl) fun k hk hid => ?_,
        .of_update rfl (hd.lt_length hj) (fun _ _ _ => rfl)
          (process_inProgress queue _ path hpath)⟩
      obtain rfl := hd.eq_of_jobId hk hj hid
      exact ⟨hspare, fun hclaimed => nomatch hclaimed⟩
  | @setStatus job stage rest now =>
      have hstage : stage.status.inProgress := h.stages stage List.mem_cons_self
      refine ⟨hd.update (fun _ => rfl) fun k hk _ => ⟨hd.budget k hk, fun hclaim => ?_⟩,
        .of_update rfl (h.known _ rfl) (fun _ _ _ => hstage) h.stages⟩
      exact absurd hclaim (by simp [Status.claimable_of_inProgress hstage])
  | @complete job result now =>
      exact ⟨hd.update (fun _ => rfl) fun k hk _ => ⟨hd.budget k hk, fun hclaim => nomatch hclaim⟩,
        .of_update rfl (h.known _ rfl) (fun _ _ _ => rfl) fun _ hst => nomatch hst⟩
  | @fail job message terminal now =>
      refine ⟨?_, .of_holds_none rfl⟩
      cases terminal with
      | true =>
          exact hd.update (fun _ => rfl) fun k hk _ =>
            ⟨hd.budget k hk, fun hclaim => nomatch hclaim⟩
      | false =>
          refine hd.update (fun _ => rfl) fun k hk hid => ⟨hd.budget k hk, fun _ => ?_⟩
          exact (h.row k hk (congrArg some hid.symm)).2 rfl
  | insert => exact ⟨hd.insert _ _, .of_holds_none rfl⟩
  | quiet hjobs _ hquiet =>
      rw [hjobs]
      exact ⟨hd, h.quiet hok hd hquiet ha⟩

omit hok in
/-- A step disturbs no other process. -/
theorem other_step {p p' q : Process J} {d d' : Db J} {a : Act J}
    (h : Stands late d.serviceJobs p) (hq : Stands late d.serviceJobs q) (hapart : Apart p q)
    (hstep : p.Effect d a d' p') : Stands late d'.serviceJobs q ∧ Apart p' q := by
  cases hstep with
  | @claim queue now locked path j hj heligible hpath =>
      simp only [ServiceJob.eligible, Bool.and_eq_true] at heligible
      have hne : q.holds ≠ some j.jobId := fun hholds => by
        rw [hq.not_claimable hj hholds] at heligible
        exact absurd heligible.1.1.1.2 (by decide)
      exact ⟨hq.update (fun _ => rfl) hne, fun id hid => Option.some.inj hid ▸ hne⟩
  | setStatus => exact ⟨hq.update (fun _ => rfl) (hapart _ rfl), hapart⟩
  | complete => exact ⟨hq.update (fun _ => rfl) (hapart _ rfl), hapart⟩
  | @fail job message terminal now =>
      refine ⟨?_, fun _ hid => nomatch hid⟩
      cases terminal with
      | true => exact hq.update (fun _ => rfl) (hapart _ rfl)
      | false => exact hq.update (fun _ => rfl) (hapart _ rfl)
  | insert => exact ⟨hq.insert _ _, fun _ hid => nomatch hid⟩
  | quiet hjobs _ hquiet =>
      rw [hjobs]
      refine ⟨hq, fun id hid => ?_⟩
      cases hquiet with
      | resumes hp =>
          rcases hp with rfl | ⟨stage, rfl⟩
          all_goals exact hapart id hid
      | raises hp =>
          rcases hp with ⟨rest, rfl⟩ | ⟨stage, rest, rfl⟩ | ⟨result, rfl⟩
          all_goals exact hapart id hid
      | loses | returns | looks => exact hapart id hid
      | releases _ hholds =>
          rw [hholds] at hid
          cases hid
      | callsKeyless | callsKeyed | finds | misses | clashes | enqueues | breaks => cases hid

/-- **The outline of the queue**, under any condition on the steps that says what it must of a
failed event of `complete`. -/
theorem outline : Interleave.Outline (Interleave.restrict Process.next ok)
    (fun d => Sound d.serviceJobs) (fun d => Stands late d.serviceJobs) Apart where
  symm h id hq hp := h id hp hq
  own hd hp hnext := by
    obtain ⟨ha, hnext⟩ := Interleave.restrict_eq_some.1 hnext
    exact own_step hok hd hp (next_effect hnext) ha
  other _ hp hq hapart hnext :=
    other_step hp hq hapart (next_effect (Interleave.restrict_eq_some.1 hnext).2)

end

/-! ## Runs -/

section
variable {ι : Type}

/-- The outline holds before anything happens. -/
theorem System.Start.holds {s : System ι J} (h : s.Start) (late : ℕ → ℕ → Prop) :
    Interleave.Holds (fun d : Db J => Sound d.serviceJobs)
      (fun d => Stands late d.serviceJobs) Apart s := by
  have hnone : ∀ i, (s.loc i).holds = none := by
    intro i
    rcases h.loc i with ⟨queue, hi⟩ | hi
    all_goals
      rw [hi]
      rfl
  refine ⟨?_, fun i => .of_holds_none (hnone i), fun i j _ id hid => ?_⟩
  · show Sound s.shared.serviceJobs
    rw [h.shared]
    exact ⟨rfl, fun _ hj => (List.not_mem_nil hj).elim, fun _ hj => (List.not_mem_nil hj).elim⟩
  · rw [hnone i] at hid
    cases hid

theorem claims_snoc (jobId : ℕ) (es : List (ι × Act J)) (e : ι × Act J) :
    claims jobId (es ++ [e]) = claims jobId es + claims jobId [e] := List.countP_append

/-- A claim counts for the job it names and for no other. -/
theorem claims_claim (jobId id now : ℕ) (locked : List ℕ) (path : List Stage) (i : ι) :
    claims id [(i, Act.claim (J := J) now locked (some jobId) path)] =
      if jobId = id then 1 else 0 := by
  simp [claims, Act.claimed, List.countP_cons]

/-- A step claims the row whose attempts it counts. -/
theorem attempts_step {p p' : Process J} {d d' : Db J} {i : ι} {a : Act J}
    (hd : Sound d.serviceJobs) (hstep : p.Effect d a d' p') {n : ℕ → ℕ}
    (hn : ∀ j ∈ d.serviceJobs, n j.jobId = j.attempts)
    (hnew : ∀ id, d.serviceJobs.length ≤ id → n id = 0) :
    (∀ j ∈ d'.serviceJobs, n j.jobId + claims j.jobId [(i, a)] = j.attempts) ∧
      ∀ id, d'.serviceJobs.length ≤ id → n id + claims id [(i, a)] = 0 := by
  -- a statement other than a claim leaves the attempts alone
  have hkeep : ∀ {jobId : ℕ} {f : ServiceJob J → ServiceJob J}, (∀ j, (f j).jobId = j.jobId) →
      (∀ j, (f j).attempts = j.attempts) → (∀ id, claims id [(i, a)] = 0) →
      (∀ j ∈ (d.update jobId f).serviceJobs, n j.jobId + claims j.jobId [(i, a)] = j.attempts) ∧
        ∀ id, (d.update jobId f).serviceJobs.length ≤ id → n id + claims id [(i, a)] = 0 := by
    intro jobId f hid hatt hclaims
    refine ⟨fun j hj => ?_, fun id hlen => ?_⟩
    · obtain ⟨k, hk, rfl⟩ := mem_update.1 hj
      rw [hclaims, add_zero]
      split
      · rw [hid, hatt, hn k hk]
      · exact hn k hk
    · rw [Db.update, List.length_map] at hlen
      rw [hclaims, hnew id hlen]
  cases hstep with
  | @claim queue now locked path j hj heligible hpath =>
      refine ⟨fun k' hk' => ?_, fun id hlen => ?_⟩
      · obtain ⟨k, hk, rfl⟩ := mem_update.1 hk'
        by_cases hid : k.jobId = j.jobId
        · rw [if_pos hid]
          show n k.jobId + claims k.jobId _ = k.attempts + 1
          rw [hn k hk, claims_claim, if_pos hid.symm]
        · rw [if_neg hid, hn k hk, claims_claim, if_neg (Ne.symm hid), add_zero]
      · rw [Db.update, List.length_map] at hlen
        have hlt := hd.lt_length hj
        rw [hnew id hlen, claims_claim, if_neg (by omega)]
  | setStatus => exact hkeep (fun _ => rfl) (fun _ => rfl) fun _ => rfl
  | complete => exact hkeep (fun _ => rfl) (fun _ => rfl) fun _ => rfl
  | @fail job message terminal now =>
      cases terminal with
      | true => exact hkeep (fun _ => rfl) (fun _ => rfl) fun _ => rfl
      | false => exact hkeep (fun _ => rfl) (fun _ => rfl) fun _ => rfl
  | @insert r now hfree =>
      refine ⟨fun j hj => ?_, fun id hlen => ?_⟩
      · rcases List.mem_append.1 hj with hj | hj
        · exact hn j hj
        · obtain rfl := List.mem_singleton.1 hj
          exact hnew _ le_rfl
      · rw [List.length_append] at hlen
        exact hnew id (by omega)
  | quiet hjobs hclaim =>
      have hclaims : ∀ id, claims id [(i, a)] = 0 := fun id => by simp [claims, hclaim]
      rw [hjobs]
      exact ⟨fun j hj => by rw [hclaims, hn j hj, add_zero], fun id hlen => by
        rw [hclaims, hnew id hlen]⟩

/-- A row that is over stays so and is not claimed, when a job that was ready is failed only with
its attempts used up. -/
theorem closed_step {p p' : Process J} {d d' : Db J} {i : ι} {a : Act J}
    (hd : Sound d.serviceJobs) (hp : Stands (fun n m => m ≤ n) d.serviceJobs p)
    (hstep : p.Effect d a d' p') {j : ServiceJob J} (hj : j ∈ d.serviceJobs)
    (hclosed : j.status.closed) :
    (∃ k ∈ d'.serviceJobs, k.jobId = j.jobId ∧ k.status.closed) ∧
      claims j.jobId [(i, a)] = 0 := by
  -- a row that an update does not mean is still there
  have hkeep : ∀ {jobId : ℕ} {f : ServiceJob J → ServiceJob J}, j.jobId ≠ jobId →
      ∃ k ∈ (d.update jobId f).serviceJobs, k.jobId = j.jobId ∧ k.status.closed :=
    fun hne => ⟨j, mem_update.2 ⟨j, hj, if_neg hne⟩, rfl, hclosed⟩
  have hopen : j.status.inProgress = false := by
    cases hprog : j.status.inProgress with
    | true => rw [Status.closed_of_inProgress hprog] at hclosed; cases hclosed
    | false => rfl
  cases hstep with
  | @claim queue now locked path k hk heligible hpath =>
      simp only [ServiceJob.eligible, Bool.and_eq_true] at heligible
      have hne : j.jobId ≠ k.jobId := fun hid => by
        rw [hd.eq_of_jobId hj hk hid] at hclosed
        rw [Status.claimable_of_closed hclosed] at heligible
        exact absurd heligible.1.1.1.2 (by decide)
      exact ⟨hkeep hne, by rw [claims_claim, if_neg hne.symm]⟩
  | @setStatus job stage rest now =>
      refine ⟨hkeep fun hid => ?_, rfl⟩
      have hrow : j.status.inProgress := hp.row j hj (congrArg some hid.symm)
      rw [hopen] at hrow
      cases hrow
  | @complete job result now =>
      refine ⟨hkeep fun hid => ?_, rfl⟩
      have hrow : j.status.inProgress := hp.row j hj (congrArg some hid.symm)
      rw [hopen] at hrow
      cases hrow
  | @fail job message terminal now =>
      refine ⟨?_, rfl⟩
      by_cases hid : j.jobId = job.jobId
      · obtain ⟨hrow, hspare⟩ := hp.row j hj (congrArg some hid.symm)
        rcases hrow with hrow | ⟨-, hlate⟩
        · rw [hopen] at hrow
          cases hrow
        · cases terminal with
          | true => exact ⟨_, mem_update.2 ⟨j, hj, if_pos hid⟩, rfl, rfl⟩
          | false => exact absurd (hspare rfl) (not_lt.2 hlate)
      · cases terminal with
        | true => exact hkeep hid
        | false => exact hkeep hid
  | insert => exact ⟨⟨j, List.mem_append_left _ hj, rfl, hclosed⟩, rfl⟩
  | quiet hjobs hclaim =>
      rw [hjobs]
      exact ⟨⟨j, hj, rfl, hclosed⟩, by simp [claims, hclaim]⟩

variable [DecidableEq ι]

/-- What must hold of the steps for a row that is over to stay so. -/
def KeepsClosed (ok : Process J → Db J → Act J → Bool) : Prop :=
  ∀ {job : ServiceJob J} {d : Db J} {message : String}, Sound d.serviceJobs →
    ok (.completed job) d (.error message) = true →
    ∀ j ∈ d.serviceJobs, j.jobId = job.jobId → j.maxAttempts ≤ j.attempts

/-- A row that is over stays so through a run, and no step of it claims the job. -/
theorem closed_of_run {ok : Process J → Db J → Act J → Bool} (hok : KeepsClosed ok)
    {s₀ s₁ s₂ : System ι J} (h₀ : s₀.Start) {es₁ es₂ : List (ι × Act J)}
    (h₁ : Interleave.run (Interleave.restrict Process.next ok) s₀ es₁ = some s₁)
    (h₂ : Interleave.run (Interleave.restrict Process.next ok) s₁ es₂ = some s₂)
    {j : ServiceJob J} (hj : j ∈ s₁.shared.serviceJobs) (hclosed : j.status.closed) :
    (∃ k ∈ s₂.shared.serviceJobs, k.jobId = j.jobId ∧ k.status.closed) ∧
      claims j.jobId es₂ = 0 := by
  have houtline := @outline J (fun n m => m ≤ n) ok hok
  refine Interleave.run_induction (motive := fun es s =>
    (∃ k ∈ s.shared.serviceJobs, k.jobId = j.jobId ∧ k.status.closed) ∧ claims j.jobId es = 0)
    ⟨⟨j, hj, rfl, hclosed⟩, rfl⟩ ?_ h₂
  rintro es s ⟨i, a⟩ s' hrun ⟨⟨k, hk, hid, hkclosed⟩, hclaims⟩ hstep
  obtain ⟨d, p, hnext, rfl⟩ := Interleave.step_eq_some hstep
  have hs := houtline.run (houtline.run (h₀.holds _) h₁) hrun
  obtain ⟨⟨k', hk', hid', hclosed'⟩, hnone⟩ := @closed_step _ _ _ _ _ _ i a hs.shared (hs.loc i)
    (next_effect (Interleave.restrict_eq_some.1 hnext).2) k hk hkclosed
  rw [hid] at hid' hnone
  exact ⟨⟨k', hk', hid', hclosed'⟩, by rw [claims_snoc, hclaims, hnone]⟩

/-- Without a condition, nothing is known of a job that was written as ready. -/
theorem holds_of_run {s₀ s : System ι J} (h₀ : s₀.Start) {es : List (ι × Act J)}
    (h : run s₀ es = some s) :
    Interleave.Holds (fun d : Db J => Sound d.serviceJobs)
      (fun d => Stands (fun _ _ => True) d.serviceJobs) Apart s := by
  have hall : Interleave.restrict (Process.next (J := J)) (fun _ _ _ => true) = Process.next :=
    funext fun p => funext fun d => funext fun a => if_pos rfl
  have houtline := @outline J (fun _ _ => True) (fun _ _ _ => true) (fun _ _ _ _ _ => trivial)
  rw [hall] at houtline
  exact houtline.run (h₀.holds _) h

/-- **Attempts count claims.** -/
theorem claims_eq_attempts {s₀ s : System ι J} (h₀ : s₀.Start) {es : List (ι × Act J)}
    (h : run s₀ es = some s) :
    (∀ j ∈ s.shared.serviceJobs, claims j.jobId es = j.attempts) ∧
      ∀ id, s.shared.serviceJobs.length ≤ id → claims id es = 0 := by
  refine Interleave.run_induction (motive := fun es s =>
    (∀ j ∈ s.shared.serviceJobs, claims j.jobId es = j.attempts) ∧
      ∀ id, s.shared.serviceJobs.length ≤ id → claims id es = 0) ?_ ?_ h
  · rw [h₀.shared]
    exact ⟨fun j hj => (List.not_mem_nil hj).elim, fun _ _ => rfl⟩
  · intro es s e s' hrun ih hstep
    obtain ⟨d, p, hnext, rfl⟩ := Interleave.step_eq_some hstep
    have hcount := @attempts_step _ _ _ _ _ _ e.1 _ (holds_of_run h₀ hrun).shared
      (next_effect hnext) (fun id => claims id es) ih.1 ih.2
    simp only [claims_snoc]
    exact hcount

/-- A run without failing statements. -/
theorem run_succeeds {s s' : System ι J} {es : List (ι × Act J)} (h : run s es = some s')
    (hes : ∀ e ∈ es, e.2.succeeds) :
    Interleave.run (Interleave.restrict Process.next fun _ _ a => a.succeeds) s es = some s' := by
  induction es generalizing s with
  | nil => exact h
  | cons e es ih =>
      obtain ⟨t, hstep, hrest⟩ := Interleave.run_cons.1 h
      refine Interleave.run_cons.2 ⟨t, ?_, ih hrest fun f hf => hes f (List.mem_cons_of_mem _ hf)⟩
      rw [← hstep, Interleave.step, Interleave.step, Interleave.restrict,
        if_pos (hes e List.mem_cons_self)]

/-- **Mutual exclusion.** In every run of any number of workers and callers no two processes hold
one job, and a job's attempts count its claims and never exceed the maximum; and when no statement
fails, a job that is ready or failed is not claimed again. -/
theorem queue_exclusion {s₀ s : System ι J} (h₀ : s₀.Start) {es : List (ι × Act J)}
    (h : run s₀ es = some s) :
    (∀ i k jobId, (s.loc i).holds = some jobId → (s.loc k).holds = some jobId → i = k) ∧
    (∀ j ∈ s.shared.serviceJobs,
      j.attempts = claims j.jobId es ∧ claims j.jobId es ≤ j.maxAttempts) ∧
    ((∀ e ∈ es, e.2.succeeds) → ∀ es₁ es₂ s₁, es = es₁ ++ es₂ → run s₀ es₁ = some s₁ →
      ∀ j ∈ s₁.shared.serviceJobs, j.status = .ready ∨ j.status = .failed →
        claims j.jobId es₂ = 0) := by
  have hs := holds_of_run h₀ h
  refine ⟨fun i k jobId hi hk => ?_, fun j hj => ?_, fun hes es₁ es₂ s₁ heq h₁ j hj hst => ?_⟩
  · by_contra hne
    exact hs.pair i k hne jobId hi hk
  · have hcount := (claims_eq_attempts h₀ h).1 j hj
    exact ⟨hcount.symm, hcount ▸ hs.shared.budget j hj⟩
  · subst heq
    obtain ⟨t, ht, h₂⟩ := Interleave.run_append.1 h
    obtain rfl : s₁ = t := Option.some.inj (h₁.symm.trans ht)
    have hclosed : j.status.closed := by
      rcases hst with hst | hst
      all_goals
        rw [hst]
        rfl
    exact (closed_of_run (fun _ herror => by cases herror) h₀
      (run_succeeds h₁ fun e he => hes e (List.mem_append_left _ he))
      (run_succeeds h₂ fun e he => hes e (List.mem_append_right _ he)) hj hclosed).2

end

/-! ## A job claimed twice -/

/-- Two relayer workers and any number of callers. -/
def twoRelayers : System ℕ String where
  shared := ⟨[], []⟩
  loc i := if i < 2 then .idle .relayer else .client

/-- Two idle relayers on an empty queue are a start. -/
theorem twoRelayers_start : twoRelayers.Start where
  shared := rfl
  loc i := by
    unfold twoRelayers
    by_cases hi : i < 2
    · exact .inl ⟨.relayer, if_pos hi⟩
    · exact .inr (if_neg hi)

/-- A signed withdrawal to broadcast, enqueued under a key. -/
def withdrawRequest : Request String where
  queue := .relayer
  jobType := "WITHDRAW_PUBLIC_SUBMIT"
  payload := "\x7b\"signedRawTx\":\"0x02f8\"\x7d"
  idempotencyKey := some "wd-submit:w1"

/-- Caller 2 enqueues the withdrawal, worker 0 claims it and its broadcast fails, worker 1 claims it and
completes it. -/
def withdrawRetried : List (ℕ × Act String) :=
  [(2, .call withdrawRequest), (2, .exec 0), (2, .exec 0), (2, .exec 0),
    (0, .claim 1 [] (some 0) [⟨.broadcasting, false⟩]), (0, .exec 1), (0, .exec 1),
    (0, .throws "tx did not confirm"), (0, .exec 2), (0, .exec 2),
    (1, .claim 12 [] (some 0) [⟨.broadcasting, false⟩]), (0, .exec 13), (1, .exec 13), (1, .exec 13),
    (1, .returns "\x7b\"status\":\"SUCCESS\"\x7d"), (1, .exec 14)]

/-- The withdrawal used two of its three attempts. -/
theorem queue_exclusion_withdrawRetried : ∃ s, run twoRelayers withdrawRetried = some s ∧
    s.shared.serviceJobs.map ServiceJob.attempts = [2] ∧
    ∀ j ∈ s.shared.serviceJobs, j.attempts = claims j.jobId withdrawRetried ∧
      claims j.jobId withdrawRetried ≤ j.maxAttempts := by
  have hrun : ((run twoRelayers withdrawRetried).map fun s =>
      s.shared.serviceJobs.map ServiceJob.attempts) = some [2] := by decide
  obtain ⟨s, hs, hattempts⟩ := Option.map_eq_some_iff.1 hrun
  exact ⟨s, hs, hattempts, (queue_exclusion twoRelayers_start hs).2.1⟩

end ShadePay.Queue
