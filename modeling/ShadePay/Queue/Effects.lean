import ShadePay.Queue.Basic

/-!
# What a step of the queue does

`Process.Effect` lists the steps by what they do to `service_jobs`: five statements write it, and
every other step leaves it alone (`Process.Quiet`). `next_effect` is the only place where
`Process.next` is taken apart.
-/

namespace ShadePay.Queue

variable {J : Type}

/-! ## Statements -/

/-- A claim takes a row that is eligible. -/
theorem claimNext_eq_some {d d' : Db J} {queue : QueueName} {jobTypes : List String} {now : ℕ}
    {locked : List ℕ} {jobId : ℕ} {job : ServiceJob J}
    (h : d.claimNext queue jobTypes now locked jobId = some (d', job)) :
    ∃ j ∈ d.serviceJobs, j.jobId = jobId ∧ j.eligible queue jobTypes now locked ∧
      d' = d.update jobId ServiceJob.claim ∧ job = j.claim := by
  simp only [Db.claimNext, Option.bind_eq_bind, Option.bind_eq_some_iff] at h
  obtain ⟨j, hfind, h⟩ := h
  split at h
  · obtain ⟨rfl, rfl⟩ := Prod.mk.inj (Option.some.inj h)
    have hmem := List.mem_filter.1 (List.mem_of_find?_eq_some hfind)
    exact ⟨j, hmem.1, by simpa using List.find?_some hfind, hmem.2, rfl, rfl⟩
  · cases h

/-- An insert goes through on a key that is free. -/
theorem insert_eq_some {d d' : Db J} {now : ℕ} {r : Request J} {job : ServiceJob J}
    (h : d.insert now r = some (d', job)) :
    d.taken r.idempotencyKey = false ∧ job = d.newJob now r ∧
      d' = { d with serviceJobs := d.serviceJobs ++ [d.newJob now r] } := by
  unfold Db.insert at h
  split at h
  · cases h
  case isFalse hfree =>
    obtain ⟨rfl, rfl⟩ := Prod.mk.inj (Option.some.inj h)
    exact ⟨by simpa using hfree, rfl, rfl⟩

/-- An insert that does not finds the key taken. -/
theorem taken_of_insert_eq_none {d : Db J} {now : ℕ} {r : Request J} (h : d.insert now r = none) :
    d.taken r.idempotencyKey = true := by
  unfold Db.insert at h
  split at h
  · assumption
  · cases h

/-- A row after an update is the row before it, changed when it is the one meant. -/
theorem mem_update {d : Db J} {jobId : ℕ} {f : ServiceJob J → ServiceJob J} {j : ServiceJob J} :
    j ∈ (d.update jobId f).serviceJobs ↔
      ∃ k ∈ d.serviceJobs, (if k.jobId = jobId then f k else k) = j := List.mem_map

/-- A row is free for a key that no row has. -/
theorem taken_eq_false_iff {d : Db J} {key : Option String} :
    d.taken key = false ↔ key = none ∨ ∀ j ∈ d.serviceJobs, j.idempotencyKey ≠ key := by
  cases key <;> simp [Db.taken]

/-! ## Processes -/

/-- The job a worker works on: from its claim to the statement that completes or fails it, or, when
that completes it, to the end of the round. -/
def Process.holds : Process J → Option ℕ
  | .running job _ | .logging job _ _ | .completing job _ | .completed job | .failing job _
  | .givingUp job _ _ => some job.jobId
  | _ => none

/-- The request of a call of `enqueue`. -/
def Process.request? : Process J → Option (Request J)
  | .selecting r _ | .inserting r | .enqueued r _ | .returned r _ | .threw r => some r
  | _ => none

/-- The steps that do not write `service_jobs`. -/
inductive Process.Quiet (d : Db J) : Process J → Act J → Process J → Prop
  /-- The handler goes on, without some of its `setStatus` calls when an error was caught. -/
  | resumes {p job rest rest' a}
      (hp : (p = .running job rest) ∨ ∃ stage, p = .logging job stage rest)
      (hrest : ∀ stage ∈ rest', stage ∈ rest) : Quiet d p a (.running job rest')
  /-- An error in the handler, or in the update of `complete`, is caught by the loop. -/
  | raises {p job message a}
      (hp : (∃ rest, p = .running job rest) ∨ (∃ stage rest, p = .logging job stage rest) ∨
        ∃ result, p = .completing job result) : Quiet d p a (.failing job message)
  /-- So is an error in the event of `complete`, after the job was written as ready. -/
  | loses {job message} : Quiet d (.completed job) (.error message) (.failing job message)
  | returns {job result} : Quiet d (.running job []) (.returns result) (.completing job result)
  /-- `fail` reads the row. -/
  | looks {job message now} :
      Quiet d (.failing job message) (.exec now) (.givingUp job message (d.terminal job.jobId))
  /-- The worker has nothing, or its round or its loop is over. -/
  | releases {p p' a} (hp : p.request? = none) (hholds : p'.holds = none)
      (hp' : p'.request? = none) : Quiet d p a p'
  /-- `enqueue` skips the select without a key. -/
  | callsKeyless {r} (hr : r.idempotencyKey = none ∨ r.idempotencyKey = some "") :
      Quiet d .client (.call r) (.inserting r)
  | callsKeyed {r key} (hr : r.idempotencyKey = some key) :
      Quiet d .client (.call r) (.selecting r key)
  | finds {r key j now} (hj : d.selectByKey key = some j) :
      Quiet d (.selecting r key) (.exec now) (.returned r j)
  | misses {r key now} (hmiss : d.selectByKey key = none) :
      Quiet d (.selecting r key) (.exec now) (.inserting r)
  /-- The insert violates `UNIQUE`. -/
  | clashes {r now} (htaken : d.taken r.idempotencyKey = true) :
      Quiet d (.inserting r) (.exec now) (.threw r)
  | enqueues {r j now} : Quiet d (.enqueued r j) (.exec now) (.returned r j)
  /-- A statement of `enqueue` fails. -/
  | breaks {p r message} (hp : p.request? = some r) (hopen : ∀ j, p ≠ .returned r j) :
      Quiet d p (.error message) (.threw r)

/-- A step, by what it writes to `service_jobs`. -/
inductive Process.Effect (d : Db J) : Process J → Act J → Db J → Process J → Prop
  | claim {queue now locked path} {j : ServiceJob J} (hj : j ∈ d.serviceJobs)
      (heligible : j.eligible queue queue.jobTypes now locked)
      (hpath : path ∈ queue.process j.jobType) :
      Effect d (.idle queue) (.claim now locked (some j.jobId) path)
        (d.update j.jobId ServiceJob.claim) (.running j.claim path)
  | setStatus {job stage rest now} :
      Effect d (.running job (stage :: rest)) (.exec now) (d.setStatus job.jobId stage.status)
        (.logging job stage rest)
  | complete {job result now} :
      Effect d (.completing job result) (.exec now) (d.complete job.jobId result) (.completed job)
  | fail {job message terminal now} :
      Effect d (.givingUp job message terminal) (.exec now) (d.fail job.jobId message terminal now)
        (.gaveUp job terminal)
  | insert {r now} (hfree : d.taken r.idempotencyKey = false) :
      Effect d (.inserting r) (.exec now)
        { d with serviceJobs := d.serviceJobs ++ [d.newJob now r] } (.enqueued r (d.newJob now r))
  | quiet {p a d' p'} (hjobs : d'.serviceJobs = d.serviceJobs) (hclaim : a.claimed = none)
      (hquiet : Quiet d p a p') : Effect d p a d' p'

/-- An error of a stage leaves the handler's `try`, or the handler. -/
theorem quiet_catches {d : Db J} {p : Process J} {a : Act J} {job : ServiceJob J} {stage : Stage}
    {rest : List Stage} {message : String}
    (hp : p = .running job (stage :: rest) ∨ p = .logging job stage rest) :
    Process.Quiet d p a (.catches job stage rest message) := by
  have hdrop : ∀ st ∈ rest.dropWhile Stage.guarded, st ∈ rest := fun st hst =>
    (List.dropWhile_sublist _).subset hst
  unfold Process.catches
  split
  · rcases hp with rfl | rfl
    · exact .resumes (.inl rfl) fun st hst => List.mem_cons_of_mem _ (hdrop st hst)
    · exact .resumes (.inr ⟨stage, rfl⟩) hdrop
  · rcases hp with rfl | rfl
    · exact .raises (.inl ⟨_, rfl⟩)
    · exact .raises (.inr (.inl ⟨_, _, rfl⟩))

section
variable {p p' : Process J} {d d' : Db J} {a : Act J}

/-- A step of a worker between two jobs. -/
theorem next_effect_idle {queue : QueueName}
    (h : (Process.idle queue).next d a = some (d', p')) : Process.Effect d (.idle queue) a d' p' := by
  cases a with
  | claim now locked jobId path =>
      cases jobId with
      | none =>
          unfold Process.next at h
          dsimp only at h
          split at h
          · cases h
            exact .quiet rfl rfl (.releases rfl rfl rfl)
          · cases h
      | some jobId =>
          unfold Process.next at h
          dsimp only at h
          split at h
          · cases h
          · next d₁ job hclaim =>
            obtain ⟨j, hj, rfl, helig, rfl, rfl⟩ := claimNext_eq_some hclaim
            split at h
            · next hpath =>
              cases h
              exact .claim hj helig hpath
            · cases h
  | error message =>
      cases h
      exact .quiet rfl rfl (.releases rfl rfl rfl)
  | _ => cases h

/-- A step of a handler: its next `setStatus`, an error, or its end. -/
theorem next_effect_running {job : ServiceJob J} {rest : List Stage}
    (h : (Process.running job rest).next d a = some (d', p')) :
    Process.Effect d (.running job rest) a d' p' := by
  cases rest with
  | nil =>
      cases a with
      | throws message =>
          cases h
          exact .quiet rfl rfl (.raises (.inl ⟨_, rfl⟩))
      | returns result =>
          cases h
          exact .quiet rfl rfl .returns
      | _ => cases h
  | cons stage rest =>
      cases a with
      | exec now =>
          cases h
          exact .setStatus
      | error message =>
          cases h
          exact .quiet rfl rfl (quiet_catches (.inl rfl))
      | throws message =>
          cases h
          exact .quiet rfl rfl (.raises (.inl ⟨_, rfl⟩))
      | skips =>
          unfold Process.next at h
          dsimp only at h
          split at h
          · cases h
            exact .quiet rfl rfl (.resumes (.inl rfl) fun st hst =>
              List.mem_cons_of_mem _ ((List.dropWhile_sublist _).subset hst))
          · cases h
      | _ => cases h

/-- The event of a `setStatus`. -/
theorem next_effect_logging {job : ServiceJob J} {stage : Stage} {rest : List Stage}
    (h : (Process.logging job stage rest).next d a = some (d', p')) :
    Process.Effect d (.logging job stage rest) a d' p' := by
  cases a with
  | exec now =>
      cases h
      exact .quiet rfl rfl (.resumes (.inr ⟨_, rfl⟩) fun _ hst => hst)
  | error message =>
      cases h
      exact .quiet rfl rfl (quiet_catches (.inr rfl))
  | _ => cases h

/-- The statements of `complete`. -/
theorem next_effect_complete {job : ServiceJob J}
    (hp : (∃ result, p = .completing job result) ∨ p = .completed job)
    (h : p.next d a = some (d', p')) : Process.Effect d p a d' p' := by
  rcases hp with ⟨result, rfl⟩ | rfl
  · cases a with
    | exec now =>
        cases h
        exact .complete
    | error message =>
        cases h
        exact .quiet rfl rfl (.raises (.inr (.inr ⟨_, rfl⟩)))
    | _ => cases h
  · cases a with
    | exec now =>
        cases h
        exact .quiet rfl rfl (.releases rfl rfl rfl)
    | error message =>
        cases h
        exact .quiet rfl rfl .loses
    | _ => cases h

/-- The statements of `fail`. -/
theorem next_effect_fail {job : ServiceJob J} {message : String} {terminal : Bool}
    (hp : p = .failing job message ∨ p = .givingUp job message terminal ∨ p = .gaveUp job terminal)
    (h : p.next d a = some (d', p')) : Process.Effect d p a d' p' := by
  rcases hp with rfl | rfl | rfl
  · cases a with
    | exec now =>
        cases h
        exact .quiet rfl rfl .looks
    | error message =>
        cases h
        exact .quiet rfl rfl (.releases rfl rfl rfl)
    | _ => cases h
  · cases a with
    | exec now =>
        cases h
        exact .fail
    | error message =>
        cases h
        exact .quiet rfl rfl (.releases rfl rfl rfl)
    | _ => cases h
  · cases a with
    | exec now =>
        cases h
        exact .quiet rfl rfl (.releases rfl rfl rfl)
    | error message =>
        cases h
        exact .quiet rfl rfl (.releases rfl rfl rfl)
    | _ => cases h

/-- A call of `enqueue`. -/
theorem next_effect_client (h : Process.client.next d a = some (d', p')) :
    Process.Effect d .client a d' p' := by
  cases a with
  | call request =>
      unfold Process.next at h
      dsimp only at h
      split at h
      · next hkey =>
        cases h
        exact .quiet rfl rfl (.callsKeyless (.inl hkey))
      · next key hkey =>
        obtain ⟨rfl, rfl⟩ := Prod.mk.inj (Option.some.inj h)
        split
        · next hempty => exact .quiet rfl rfl (.callsKeyless (.inr (hempty ▸ hkey)))
        · exact .quiet rfl rfl (.callsKeyed hkey)
  | _ => cases h

/-- The select of `enqueue`. -/
theorem next_effect_selecting {request : Request J} {key : String}
    (h : (Process.selecting request key).next d a = some (d', p')) :
    Process.Effect d (.selecting request key) a d' p' := by
  cases a with
  | exec now =>
      unfold Process.next at h
      dsimp only at h
      split at h
      · next job hjob =>
        cases h
        exact .quiet rfl rfl (.finds hjob)
      · next hmiss =>
        cases h
        exact .quiet rfl rfl (.misses hmiss)
  | error message =>
      cases h
      exact .quiet rfl rfl (.breaks rfl fun _ h => nomatch h)
  | _ => cases h

/-- The insert of `enqueue`: it goes through on a key that is free, or it clashes. -/
theorem next_effect_inserting {request : Request J}
    (h : (Process.inserting request).next d a = some (d', p')) :
    Process.Effect d (.inserting request) a d' p' := by
  cases a with
  | exec now =>
      unfold Process.next at h
      dsimp only at h
      split at h
      · next d₁ job hinsert =>
        cases h
        obtain ⟨hfree, rfl, rfl⟩ := insert_eq_some hinsert
        exact .insert hfree
      · next hnone =>
        cases h
        exact .quiet rfl rfl (.clashes (taken_of_insert_eq_none hnone))
  | error message =>
      cases h
      exact .quiet rfl rfl (.breaks rfl fun _ h => nomatch h)
  | _ => cases h

/-- The event of `enqueue`. -/
theorem next_effect_enqueued {request : Request J} {job : ServiceJob J}
    (h : (Process.enqueued request job).next d a = some (d', p')) :
    Process.Effect d (.enqueued request job) a d' p' := by
  cases a with
  | exec now =>
      cases h
      exact .quiet rfl rfl .enqueues
  | error message =>
      cases h
      exact .quiet rfl rfl (.breaks rfl fun _ h => nomatch h)
  | _ => cases h

/-- **What a step does.** -/
theorem next_effect (h : p.next d a = some (d', p')) : p.Effect d a d' p' := by
  cases p with
  | idle queue => exact next_effect_idle h
  | running job rest => exact next_effect_running h
  | logging job stage rest => exact next_effect_logging h
  | completing job result => exact next_effect_complete (.inl ⟨result, rfl⟩) h
  | completed job => exact next_effect_complete (.inr rfl) h
  | failing job message => exact @next_effect_fail _ _ _ _ _ _ job message true (.inl rfl) h
  | givingUp job message terminal => exact next_effect_fail (.inr (.inl rfl)) h
  | gaveUp job terminal => exact @next_effect_fail _ _ _ _ _ _ job "" terminal (.inr (.inr rfl)) h
  | client => exact next_effect_client h
  | selecting request key => exact next_effect_selecting h
  | inserting request => exact next_effect_inserting h
  | enqueued request job => exact next_effect_enqueued h
  | stopped => cases a <;> cases h
  | returned request job => cases a <;> cases h
  | threw request => cases a <;> cases h

end

end ShadePay.Queue
