import ShadePay.Rfq.Lifecycle

/-!
# Intents, batches and the settler

`POST /v1/intents` of `apps/api/src/routes.ts`, with `persist.ts` and `settler.ts` of
`apps/mpc-committee`. An intent of the API gets a row in `intents` and is forwarded to the committee
under the same id; other intents are submitted under any id. A batch is whatever the committee has
signed. The settler reads from `intents` by which path a match settles. Each SQL statement is one
step; statements that nothing here reads (shares, sessions, signatures, activity) are left out.
-/

namespace ShadePay.Rfq

/-! ## Tables -/

/-- A match of a batch. -/
structure Match where
  intentAId : String
  intentBId : String
  matchedAmount7dp : String
  inputAsset : String
  outputAsset : String
deriving DecidableEq

/-- The texts of `settlement_status` that the settler writes. -/
inductive SettlementStatus where
  | pending | queued | rfqRouted
deriving DecidableEq

/-- A row of `mpc_batches`. -/
structure Batch where
  batchId : String
  sessionId : String
  batchHash : String
  matchesJson : List Match
  signaturesJson : String
  settlementStatus : SettlementStatus
deriving DecidableEq

/-- A row of `mpc_intents`. -/
structure MpcIntent where
  intentId : String
  sessionId : String
  noteNullifier : String
  noteCommitment : String
  recipientCommitment : String
  matched : Bool
  matchedWith : Option String
deriving DecidableEq

/-- The payload of an `MPC_SETTLE_SUBMIT` job. Its key is `mpc_settle:` with the batch and the
index, which it tells apart as an index is digits. -/
structure SettleJob where
  batchId : String
  batchHash : String
  signatures : String
  matchIndex : ℕ
  sessionId : String
  intentAId : String
  intentBId : String
  matchedAmount7dp : String
  inputAsset : String
  outputAsset : String
  nullifierA : Option String
  nullifierB : Option String
  outputCommitmentA : Option String
  outputCommitmentB : Option String
deriving DecidableEq

/-- The tables. -/
structure Tables where
  rfq : Db
  mpcIntents : List MpcIntent
  mpcBatches : List Batch
  jobs : List SettleJob

/-- The tables that the lifecycle reads: a match is confirmed when `mpc_intents` says so. -/
def Tables.lifecycle (d : Tables) : Db :=
  { d.rfq with
    world := { d.rfq.world with
      mpcMatched := fun id => d.mpcIntents.any fun m => m.intentId = id && m.matched } }

/-! ## Statements -/

/-- `isRfqRouted`. -/
def Tables.isRfqRouted (d : Tables) (intentId : String) : Bool :=
  d.rfq.intents.any fun i => i.intentHash = intentId

/-- `fetchIntentNote`. -/
def Tables.fetchIntentNote (d : Tables) (intentId : String) : Option MpcIntent :=
  d.mpcIntents.find? fun m => m.intentId = intentId

/-- The insert into `mpc_intents`. -/
def Tables.upsertMpcIntent (d : Tables) (m : MpcIntent) : Tables :=
  { d with
    mpcIntents := Table.upsert (fun n => n.intentId = m.intentId)
      (fun n => { n with sessionId := m.sessionId }) m d.mpcIntents }

/-- The insert of `persistSignedBatch`. -/
def Tables.insertBatch (d : Tables) (b : Batch) : Tables :=
  { d with
    mpcBatches := Table.insertNew (fun c => c.batchId = b.batchId)
      { b with settlementStatus := .pending } d.mpcBatches }

/-- The update of `persistSignedBatch` for one side of a match. -/
def Tables.markMatched (d : Tables) (intentId matchedWith : String) : Tables :=
  { d with
    mpcIntents := Table.update (fun m => m.intentId = intentId)
      (fun m => { m with matched := true, matchedWith := some matchedWith }) d.mpcIntents }

/-- The batches a poll of the settler finds, in the order of their rows. -/
def Tables.pendingBatches (d : Tables) : List Batch :=
  (d.mpcBatches.filter fun b => b.settlementStatus = .pending).take 50

/-- The rows with a job's key. -/
def SettleJob.sameKey (j k : SettleJob) : Bool :=
  k.batchId = j.batchId && k.matchIndex = j.matchIndex

/-- The update at the end of `queueSettlementJobs`. -/
def Tables.setSettlementStatus (d : Tables) (batchId : String) (status : SettlementStatus) :
    Tables :=
  { d with
    mpcBatches := Table.update (fun b => b.batchId = batchId)
      (fun b => { b with settlementStatus := status }) d.mpcBatches }

/-! ## Handlers -/

/-- `POST /v1/intents`: the row, and what the committee and `mpc_intents` get when the fields for the
committee are there. -/
structure CreateIntent where
  intent : Intent
  mpcFields : Option MpcIntent
deriving DecidableEq

/-- `queueSettlementJobs` at a match of its batch, with the batches still to come. -/
structure Work where
  batch : Batch
  index : ℕ
  queued : ℕ
  todo : List Batch
deriving DecidableEq

/-- A handler or a loop, at its next statement. -/
inductive Service where
  | idle
  | creating (c : CreateIntent)
  | forwarding (c : CreateIntent)
  | recording (c : CreateIntent) (session : String)
  | linking (c : CreateIntent) (session : String)
  | submitting (m : MpcIntent)
  | persisting (b : Batch)
  | marking (updates : List (String × String))
  | routing (w : Work) (m : Match) (a b : Option Bool)
  | noting (w : Work) (m : Match) (a b : Option (Option MpcIntent))
  | selecting (w : Work) (job : SettleJob)
  | inserting (w : Work) (job : SettleJob)
  | logging (w : Work)
  | updating (w : Work)
deriving DecidableEq

/-- What can happen next: a request, a batch or a poll, a statement of a handler (of two in parallel
the first or the second), an answer of the committee, an error, or a write of the lifecycle. -/
inductive Event where
  | create (c : CreateIntent)
  | submit (m : MpcIntent)
  | persist (b : Batch)
  | poll
  | exec
  | execSecond
  | forwarded (session : String)
  | error
  | lifecycle (quotes : List Quote) (quoteAcceptances : List QuoteAcceptance) (fills : List Fill)
      (settlements : List Settlement) (world : World)

/-- The next match of a batch, or its update. -/
def Work.next (w : Work) : Service :=
  match w.batch.matchesJson[w.index]? with
  | none => .updating w
  | some m => .routing w m none none

/-- The next batch. -/
def nextBatch : List Batch → Service
  | [] => .idle
  | b :: todo => Work.next { batch := b, index := 0, queued := 0, todo }

/-- A match is skipped. -/
def Work.skip (w : Work) : Service := { w with index := w.index + 1 : Work }.next

/-- A match is queued. -/
def Work.queue (w : Work) : Service :=
  { w with index := w.index + 1, queued := w.queued + 1 : Work }.next

/-- Where the settler goes on, with what it has read of `intents`. -/
def Work.route (w : Work) (m : Match) : Option Bool → Option Bool → Service
  | some a, some b => if a || b then w.skip else .noting w m none none
  | a, b => .routing w m a b

/-- The job of a match. -/
def Work.job (w : Work) (m : Match) (noteA noteB : Option MpcIntent) : SettleJob where
  batchId := w.batch.batchId
  batchHash := w.batch.batchHash
  signatures := w.batch.signaturesJson
  matchIndex := w.index
  sessionId := w.batch.sessionId
  intentAId := m.intentAId
  intentBId := m.intentBId
  matchedAmount7dp := m.matchedAmount7dp
  inputAsset := m.inputAsset
  outputAsset := m.outputAsset
  nullifierA := noteA.map MpcIntent.noteNullifier
  nullifierB := noteB.map MpcIntent.noteNullifier
  outputCommitmentA := noteA.map MpcIntent.recipientCommitment
  outputCommitmentB := noteB.map MpcIntent.recipientCommitment

/-- The same with what it has read of `mpc_intents`. -/
def Work.note (w : Work) (m : Match) :
    Option (Option MpcIntent) → Option (Option MpcIntent) → Service
  | some a, some b => .selecting w (w.job m a b)
  | a, b => .noting w m a b

/-- The next statement, or the first of two in parallel. -/
def Service.exec (d : Tables) : Service → Option (Tables × Service)
  | .creating c =>
      some ({ d with rfq := d.rfq.insertIntent c.intent },
        if c.mpcFields.isSome then .forwarding c else .idle)
  | .recording c session =>
      match c.mpcFields with
      | none => none
      | some m => some (d.upsertMpcIntent { m with sessionId := session }, .linking c session)
  | .linking c session =>
      some ({ d with rfq := d.rfq.linkSession c.intent.intentHash session }, .idle)
  | .submitting m => some (d.upsertMpcIntent m, .idle)
  | .persisting b =>
      some (d.insertBatch b, .marking (b.matchesJson.flatMap fun m =>
        [(m.intentAId, m.intentBId), (m.intentBId, m.intentAId)]))
  | .marking [] => some (d, .idle)
  | .marking ((a, b) :: updates) => some (d.markMatched a b, .marking updates)
  | .routing w m _ b => some (d, w.route m (some (d.isRfqRouted m.intentAId)) b)
  | .noting w m _ b => some (d, w.note m (some (d.fetchIntentNote m.intentAId)) b)
  | .selecting w job =>
      some (d, if d.jobs.any job.sameKey then w.queue else .inserting w job)
  | .inserting w job =>
      -- a unique violation leaves the round
      if d.jobs.any job.sameKey then some (d, .idle)
      else some ({ d with jobs := d.jobs ++ [job] }, .logging w)
  | .logging w => some (d, w.queue)
  | .updating w =>
      some (d.setSettlementStatus w.batch.batchId (if w.queued > 0 then .queued else .rfqRouted),
        nextBatch w.todo)
  | .idle | .forwarding _ => none

/-- The second of two statements in parallel. -/
def Service.execSecond (d : Tables) : Service → Option (Tables × Service)
  | .routing w m a _ => some (d, w.route m a (some (d.isRfqRouted m.intentBId)))
  | .noting w m a _ => some (d, w.note m a (some (d.fetchIntentNote m.intentBId)))
  | _ => none

/-- A step of a service. -/
def Service.next (p : Service) (d : Tables) (e : Event) : Option (Tables × Service) :=
  match e, p with
  | .create c, .idle => some (d, .creating c)
  | .submit m, .idle => some (d, .submitting m)
  | .persist b, .idle => some (d, .persisting b)
  | .poll, .idle => some (d, nextBatch d.pendingBatches)
  | .lifecycle quotes quoteAcceptances fills settlements world, .idle =>
      some ({ d with rfq :=
        { d.rfq with quotes, quoteAcceptances, fills, settlements, world } }, .idle)
  | .forwarded session, .forwarding c => some (d, .recording c session)
  | .exec, p => p.exec d
  | .execSecond, p => p.execSecond d
  | .error, .idle => none
  | .error, _ => some (d, .idle)
  | _, _ => none

/-- The services over the tables. -/
abbrev Services (ι : Type) := Interleave.State ι Tables Service

/-- Steps of the services, in any order. -/
def serveAll {ι : Type} [DecidableEq ι] (s : Services ι) (es : List (ι × Event)) :
    Option (Services ι) :=
  Interleave.run Service.next s es

/-- Nothing has been matched, and nobody is at work. -/
structure Unmatched {ι : Type} (s : Services ι) : Prop where
  mpcBatches : s.shared.mpcBatches = []
  jobs : s.shared.jobs = []
  loc : ∀ i, s.loc i = .idle

/-! ## The gates of a settlement -/

/-- A handler whose statements all see the same tables, after `n` of them. -/
def Process.after (deterministicId : String → List String → String) (d : Db) :
    ℕ → Process → Process
  | 0, p => p
  | n + 1, p => Process.after deterministicId d n
      (((p.exec deterministicId d).map Prod.snd).getD p)

/-- A settle request passes the gates of `POST /v1/rfq/settle`: it reaches its insert. -/
def Settle.Passes (deterministicId : String → List String → String) (d : Db) (r : Settle) : Prop :=
  ∃ n, Process.after deterministicId d n (.auditing r) = .settling r

end ShadePay.Rfq
