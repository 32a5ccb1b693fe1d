import ShadePay.Lib.Interleave

/-!
# The job queue

`packages/queue/src/index.ts` over the tables of `003_service_queue.sql`, with the loops of
`apps/prover/src/worker.ts` and `apps/relayer/src/worker.ts` and the callers of `enqueue`. Each SQL
statement is one step: it is executed, or it fails and changes nothing. A row's id counts the rows
inserted before it, since no row is ever deleted and `uuid_generate_v4()` does not repeat. Payloads
and results are opaque JSON.
-/

namespace ShadePay.Queue

/-! ## The tables -/

/-- `QueueName`. -/
inductive QueueName where
  | prover | relayer
deriving DecidableEq

/-- The texts of the `status` column: those of the queue, and those the two workers report. -/
inductive Status where
  | queued | claimed | ready | failed | failedRetry
  | buildingWitness | proving | verifyingLocally | convertingForSoroban
  | burning | broadcasting | submitting | polling | minting | validatingBurn | burnValidated
  | noteRegistered | awaitingProofWitness | completingStellarSide | verifiedSignatures | proofReady
deriving DecidableEq

/-- The statuses `claimNext` picks from. -/
def Status.claimable (s : Status) : Bool := s = .queued || s = .failedRetry

/-- `ServiceJob`, with the columns that order and delay it. -/
structure ServiceJob (J : Type) where
  jobId : ℕ
  jobType : String
  queue : QueueName
  idempotencyKey : Option String
  payload : J
  status : Status
  attempts : ℕ
  maxAttempts : ℕ
  result : Option J
  error : Option String
  availableAt : ℕ
  createdAt : ℕ
deriving DecidableEq

/-- A row of `service_events`, without its text. -/
structure ServiceEvent where
  jobId : ℕ
  status : Status
deriving DecidableEq

/-- The two tables. -/
structure Db (J : Type) where
  serviceJobs : List (ServiceJob J)
  serviceEvents : List ServiceEvent
deriving DecidableEq

/-- `s.slice(0, n)`. -/
def slice (n : ℕ) (s : String) : String := String.ofList (s.toList.take n)

section
variable {J : Type}

/-! ## The statements -/

/-- `select * from service_jobs where idempotency_key = $1`. -/
def Db.selectByKey (d : Db J) (key : String) : Option (ServiceJob J) :=
  d.serviceJobs.find? fun j => j.idempotencyKey = some key

/-- The arguments of `enqueue`. -/
structure Request (J : Type) where
  queue : QueueName
  jobType : String
  payload : J
  idempotencyKey : Option String
deriving DecidableEq

/-- The row that `enqueue` inserts, with the column defaults. -/
def Db.newJob (d : Db J) (now : ℕ) (r : Request J) : ServiceJob J where
  jobId := d.serviceJobs.length
  jobType := r.jobType
  queue := r.queue
  idempotencyKey := r.idempotencyKey
  payload := r.payload
  status := .queued
  attempts := 0
  maxAttempts := 3
  result := none
  error := none
  availableAt := now
  createdAt := now

/-- The keys of two rows collide under `UNIQUE`, which does not compare nulls. -/
def Db.taken (d : Db J) (key : Option String) : Bool :=
  key.isSome && d.serviceJobs.any fun j => j.idempotencyKey = key

/-- `insert into service_jobs … returning *`; `none` is a unique violation. -/
def Db.insert (d : Db J) (now : ℕ) (r : Request J) : Option (Db J × ServiceJob J) :=
  if d.taken r.idempotencyKey then none
  else some ({ d with serviceJobs := d.serviceJobs ++ [d.newJob now r] }, d.newJob now r)

/-- `update service_jobs set … where job_id = $1`. -/
def Db.update (d : Db J) (jobId : ℕ) (f : ServiceJob J → ServiceJob J) : Db J :=
  { d with serviceJobs := d.serviceJobs.map fun j => if j.jobId = jobId then f j else j }

/-- `insert into service_events`. -/
def Db.event (d : Db J) (jobId : ℕ) (status : Status) : Db J :=
  { d with serviceEvents := d.serviceEvents ++ [⟨jobId, status⟩] }

/-- A row the inner `select` of `claimNext` may return: it is of the queue and of the types asked
for, its status is claimable, its time has come and no other statement has it locked. -/
def ServiceJob.eligible (queue : QueueName) (jobTypes : List String) (now : ℕ) (locked : List ℕ)
    (j : ServiceJob J) : Bool :=
  j.queue = queue && j.status.claimable && j.availableAt ≤ now && j.jobType ∈ jobTypes &&
    j.jobId ∉ locked

/-- The `update` of `claimNext`. -/
def ServiceJob.claim (j : ServiceJob J) : ServiceJob J :=
  { j with status := .claimed, attempts := j.attempts + 1 }

/-- `claimNext`, when the row chosen among the eligible ones is `jobId`: one of those created
first. -/
def Db.claimNext (d : Db J) (queue : QueueName) (jobTypes : List String) (now : ℕ)
    (locked : List ℕ) (jobId : ℕ) : Option (Db J × ServiceJob J) := do
  let rows := d.serviceJobs.filter (ServiceJob.eligible queue jobTypes now locked)
  let j ← rows.find? fun j => j.jobId = jobId
  if rows.all fun k => j.createdAt ≤ k.createdAt then
    some (d.update jobId ServiceJob.claim, j.claim)
  else none

/-- `claimNext` finds nothing. -/
def Db.empty (d : Db J) (queue : QueueName) (jobTypes : List String) (now : ℕ)
    (locked : List ℕ) : Bool :=
  !d.serviceJobs.any (ServiceJob.eligible queue jobTypes now locked)

/-- The `update` of `setStatus`. -/
def Db.setStatus (d : Db J) (jobId : ℕ) (status : Status) : Db J :=
  d.update jobId fun j => { j with status := status }

/-- The `update` of `complete`. -/
def Db.complete (d : Db J) (jobId : ℕ) (result : J) : Db J :=
  d.update jobId fun j => { j with status := .ready, result := some result, error := none }

/-- `terminal` of `fail`, from the row its `select` returns. -/
def Db.terminal (d : Db J) (jobId : ℕ) : Bool :=
  match d.serviceJobs.find? fun j => j.jobId = jobId with
  | none => true
  | some j => j.attempts ≥ j.maxAttempts

/-- The `update` of `fail`, on the branch that `terminal` chose. -/
def Db.fail (d : Db J) (jobId : ℕ) (error : String) (terminal : Bool) (now : ℕ) : Db J :=
  if terminal then
    d.update jobId fun j => { j with status := .failed, error := some (slice 2000 error) }
  else
    d.update jobId fun j => { j with
      status := .failedRetry, error := some (slice 2000 error), availableAt := now + 10 }

end

/-! ## The handlers -/

/-- A `setStatus` of a handler. An error of a guarded one is caught by a `try` around it, which
skips the guarded ones that follow. -/
structure Stage where
  status : Status
  guarded : Bool
deriving DecidableEq

/-- `PROOF_JOB_TYPES`. -/
def proofJobTypes : List String :=
  ["withdraw_public", "withdraw_cctp", "rfq_settlement", "private_transfer", "deposit_note_mint"]

/-- `RELAYER_JOB_TYPES`. -/
def relayerJobTypes : List String :=
  ["CCTP_INBOUND", "CCTP_INBOUND_AFTER_USER_BURN", "CCTP_INBOUND_BURN", "CCTP_FETCH_ATTESTATION",
    "STELLAR_MINT_FORWARD", "REGISTER_NOTE", "WITHDRAW_PUBLIC_SUBMIT", "WITHDRAW_CCTP_BURN",
    "RFQ_SETTLE_SUBMIT", "RFQ_ATOMIC_SWAP_SUBMIT", "CCTP_OUTBOUND_ATTESTATION",
    "CCTP_OUTBOUND_MINT", "MPC_SETTLE_SUBMIT", "STREAM_SETTLE_BATCH"]

/-- The job types a worker of a queue claims. -/
def QueueName.jobTypes : QueueName → List String
  | .prover => proofJobTypes
  | .relayer => relayerJobTypes

/-- The `setStatus` calls of `processProofJob`. -/
def processProofJob : List (List Stage) :=
  [[⟨.buildingWitness, false⟩, ⟨.proving, false⟩, ⟨.verifyingLocally, false⟩,
    ⟨.convertingForSoroban, false⟩]]

/-- The `setStatus` calls of `processRelayerJob`, one list for each way through a job type. -/
def processRelayerJob (jobType : String) : List (List Stage) :=
  if jobType ∈ ["CCTP_INBOUND", "CCTP_INBOUND_BURN", "CCTP_FETCH_ATTESTATION",
      "STELLAR_MINT_FORWARD", "REGISTER_NOTE"] then [[⟨.burning, false⟩]]
  else if jobType ∈ ["WITHDRAW_PUBLIC_SUBMIT", "WITHDRAW_CCTP_BURN"] then
    [[⟨.broadcasting, false⟩]]
  else if jobType ∈ ["STREAM_SETTLE_BATCH", "RFQ_SETTLE_SUBMIT", "RFQ_ATOMIC_SWAP_SUBMIT"] then
    [[⟨.submitting, false⟩]]
  else if jobType = "CCTP_OUTBOUND_ATTESTATION" then [[⟨.polling, false⟩]]
  -- without a message and an attestation the handler returns before its `setStatus`
  else if jobType = "CCTP_OUTBOUND_MINT" then [[⟨.minting, false⟩], []]
  else if jobType = "CCTP_INBOUND_AFTER_USER_BURN" then
    [[⟨.validatingBurn, false⟩, ⟨.burnValidated, false⟩, ⟨.submitting, false⟩,
        ⟨.noteRegistered, false⟩],
      [⟨.validatingBurn, false⟩, ⟨.burnValidated, false⟩, ⟨.awaitingProofWitness, false⟩],
      [⟨.validatingBurn, false⟩, ⟨.burnValidated, false⟩, ⟨.completingStellarSide, false⟩,
        ⟨.noteRegistered, false⟩]]
  else if jobType = "MPC_SETTLE_SUBMIT" then
    [[⟨.verifiedSignatures, false⟩, ⟨.submitting, false⟩],
      [⟨.verifiedSignatures, false⟩, ⟨.proving, true⟩, ⟨.proofReady, true⟩, ⟨.submitting, false⟩]]
  else []

/-- The ways through the handler of a queue. -/
def QueueName.process (queue : QueueName) (jobType : String) : List (List Stage) :=
  match queue with
  | .prover => processProofJob
  | .relayer => processRelayerJob jobType

/-! ## The processes -/

/-- Where a worker's loop or a call of `enqueue` stands: the next statement is the one named. -/
inductive Process (J : Type) where
  /-- `claimNext`. -/
  | idle (queue : QueueName)
  /-- The handler, before the `setStatus` calls that remain. -/
  | running (job : ServiceJob J) (rest : List Stage)
  /-- The event of a `setStatus`. -/
  | logging (job : ServiceJob J) (stage : Stage) (rest : List Stage)
  /-- The update of `complete`. -/
  | completing (job : ServiceJob J) (result : J)
  /-- The event of `complete`. -/
  | completed (job : ServiceJob J)
  /-- The select of `fail`. -/
  | failing (job : ServiceJob J) (error : String)
  /-- The update of `fail`. -/
  | givingUp (job : ServiceJob J) (error : String) (terminal : Bool)
  /-- The event of `fail`. -/
  | gaveUp (job : ServiceJob J) (terminal : Bool)
  /-- The loop has ended with an error. -/
  | stopped
  /-- `enqueue` has not been called. -/
  | client
  /-- The select of `enqueue`. -/
  | selecting (request : Request J) (key : String)
  /-- The insert of `enqueue`. -/
  | inserting (request : Request J)
  /-- The event of `enqueue`. -/
  | enqueued (request : Request J) (job : ServiceJob J)
  /-- `enqueue` has returned a job. -/
  | returned (request : Request J) (job : ServiceJob J)
  /-- `enqueue` has thrown. -/
  | threw (request : Request J)
deriving DecidableEq

/-- What a process does next. -/
inductive Act (J : Type) where
  /-- `claimNext` with the rows that are locked, the row it picks and the way the handler takes. -/
  | claim (now : ℕ) (locked : List ℕ) (jobId : Option ℕ) (path : List Stage)
  /-- The next statement is executed. -/
  | exec (now : ℕ)
  /-- The next statement fails. -/
  | error (message : String)
  /-- The handler throws. -/
  | throws (message : String)
  /-- An error inside the handler's `try` is caught. -/
  | skips
  /-- The handler returns. -/
  | returns (result : J)
  /-- `enqueue` is called. -/
  | call (request : Request J)
deriving DecidableEq

section
variable {J : Type}

/-- After an error of a stage: the `try` around it goes on behind its block, or the loop's `catch`
calls `fail`. -/
def Process.catches (job : ServiceJob J) (stage : Stage) (rest : List Stage) (message : String) :
    Process J :=
  if stage.guarded then .running job (rest.dropWhile Stage.guarded) else .failing job message

/-- One step of a process: `runProverOnce` and `runRelayerOnce` in their loops, and `enqueue`. -/
def Process.next (p : Process J) (d : Db J) (a : Act J) : Option (Db J × Process J) :=
  match p, a with
  | .idle queue, .claim now locked (some jobId) path =>
      match d.claimNext queue queue.jobTypes now locked jobId with
      | none => none
      | some (d', job) =>
          if path ∈ queue.process job.jobType then some (d', .running job path) else none
  | .idle queue, .claim now locked none _ =>
      if d.empty queue queue.jobTypes now locked then some (d, .idle queue) else none
  | .idle _, .error _ => some (d, .stopped)
  | .running job (stage :: rest), .exec _ =>
      some (d.setStatus job.jobId stage.status, .logging job stage rest)
  | .running job (stage :: rest), .error message =>
      some (d, .catches job stage rest message)
  | .running job _, .throws message => some (d, .failing job message)
  | .running job (stage :: rest), .skips =>
      if stage.guarded then some (d, .running job (rest.dropWhile Stage.guarded)) else none
  | .running job [], .returns result => some (d, .completing job result)
  | .logging job stage rest, .exec _ =>
      some (d.event job.jobId stage.status, .running job rest)
  | .logging job stage rest, .error message => some (d, .catches job stage rest message)
  | .completing job result, .exec _ => some (d.complete job.jobId result, .completed job)
  | .completing job _, .error message => some (d, .failing job message)
  | .completed job, .exec _ => some (d.event job.jobId .ready, .idle job.queue)
  | .completed job, .error message => some (d, .failing job message)
  | .failing job message, .exec _ => some (d, .givingUp job message (d.terminal job.jobId))
  | .failing _ _, .error _ => some (d, .stopped)
  | .givingUp job message terminal, .exec now =>
      some (d.fail job.jobId message terminal now, .gaveUp job terminal)
  | .givingUp _ _ _, .error _ => some (d, .stopped)
  | .gaveUp job terminal, .exec _ =>
      some (d.event job.jobId (if terminal then .failed else .failedRetry), .idle job.queue)
  | .gaveUp _ _, .error _ => some (d, .stopped)
  | .client, .call request =>
      match request.idempotencyKey with
      -- a missing key and the empty one are both falsy
      | none => some (d, .inserting request)
      | some key => some (d, if key = "" then .inserting request else .selecting request key)
  | .selecting request key, .exec _ =>
      match d.selectByKey key with
      | some job => some (d, .returned request job)
      | none => some (d, .inserting request)
  | .selecting request _, .error _ => some (d, .threw request)
  | .inserting request, .exec now =>
      match d.insert now request with
      | some (d', job) => some (d', .enqueued request job)
      | none => some (d, .threw request)
  | .inserting request, .error _ => some (d, .threw request)
  | .enqueued request job, .exec _ =>
      some (d.event job.jobId .queued, .returned request job)
  | .enqueued request _, .error _ => some (d, .threw request)
  | _, _ => none

end

/-! ## Runs -/

/-- The tables, the workers and the callers. -/
abbrev System (ι J : Type) := Interleave.State ι (Db J) (Process J)

section
variable {ι J : Type} [DecidableEq ι]

/-- Before anything happens: the tables are empty, the workers wait and nobody has called. -/
structure System.Start (s : System ι J) : Prop where
  shared : s.shared = ⟨[], []⟩
  loc : ∀ i, (∃ queue, s.loc i = .idle queue) ∨ s.loc i = .client

/-- A run of the queue. -/
def run (s : System ι J) (es : List (ι × Act J)) : Option (System ι J) :=
  Interleave.run Process.next s es

/-- No statement fails. -/
def Act.succeeds : Act J → Bool
  | .error _ => false
  | _ => true

/-- The job a step claims. -/
def Act.claimed : Act J → Option ℕ
  | .claim _ _ jobId _ => jobId
  | _ => none

/-- How many steps of a trace claim a job. -/
def claims (jobId : ℕ) (es : List (ι × Act J)) : ℕ :=
  es.countP fun e => e.2.claimed = some jobId

end

end ShadePay.Queue
