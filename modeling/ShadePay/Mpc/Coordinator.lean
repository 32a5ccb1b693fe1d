import ShadePay.Mpc.Matching
import ShadePay.Mpc.Shamir
import Mathlib.Logic.Function.Basic

/-!
# The coordinator of the committee

`apps/mpc-committee`: `CommitteeState`, the routes and the batch timer of `coordinator-server.ts`, the
nodes of `node-server.ts`, the networked round `runMatchingRoundRemote` and the in-process round
`runMatchingRound`. JavaScript runs one task up to its next `await`; a `Step` is such a stretch, or an
event outside of the process (a share reaches a node, a node answers). A session is an object that
the map of sessions, a round and the timer may all hold, so sessions live on a `heap` and are held by
reference: replacing an entry of the map does not touch the object that a round is working on.

A round that throws leaves its session in status `matching` with no round at work. Where the timer
waits for it nobody catches the exception either, so that the process ends, and with it all its
sessions. Saving a signed batch is taken to succeed. `batches`, `acked` and the tag of a batch with its
session are a record of the run that no function reads.
-/

namespace ShadePay.Mpc

/-! ## Data -/

/-- `EncryptedShare`. -/
structure EncryptedShare where
  nodeId : String
  ciphertext : String
  nonce : String
  senderPubkey : String
deriving DecidableEq

/-- `MpcIntent`, as it arrives in a request: an entry of `encryptedShares` may be `null`. -/
structure MpcIntent where
  intentId : String
  userId : String
  inputAsset : String
  outputAsset : String
  expiryLedger : ℤ
  policyId : String
  noteNullifier : String
  noteCommitment : String
  recipientCommitment : String
  encryptedShares : List (Option EncryptedShare)
  submittedAt : ℤ
deriving DecidableEq

/-- `NodeSignature`. -/
structure NodeSignature where
  nodeId : String
  signingPubkey : String
  signature : String
deriving DecidableEq

/-- `SignedMatchBatch`. -/
structure SignedMatchBatch where
  batchId : String
  sessionId : String
  ms : List MatchResult
  batchHash : String
  signatures : List NodeSignature
deriving DecidableEq

/-- `NodeShareEntry`. -/
structure NodeShareEntry where
  intentId : String
  nodeId : String
  encryptedShare : EncryptedShare
  decryptedShare : Option EncodedShare

/-- The status of a session. -/
inductive Status where
  | «open»
  | «matching»
  | signed
  | failed
deriving DecidableEq

/-- `SessionState`. -/
structure Session where
  sessionId : String
  startedAt : ℕ
  status : Status
  intents : OrderedMap String MpcIntent
  shares : OrderedMap String (OrderedMap String NodeShareEntry)
  signedBatch : Option SignedMatchBatch

/-- A reference to a session. -/
abbrev Ref : Type := ℕ

/-- What a node answers to `/internal/decrypt`. -/
structure DecryptReply where
  nodeId : String
  shares : List (String × Option EncodedShare)
deriving DecidableEq

/-- The code outside of the repository, and the configuration. `decryptShare` at a node is `none` when
it throws and `some none` on a plaintext `null`. -/
structure Env where
  /-- The ids of `NODE_ENDPOINTS`. -/
  nodes : List String
  /-- The parameter that a node's route `/shares/:intentId` gets from the URL with this id at its end,
  which is cut at `?` and `#` and decoded; `none` when the request does not come to the route. -/
  routeParam : String → Option String
  decryptShare : String → EncryptedShare → Option (Option EncodedShare)
  signBatch : String → String → List MatchResult → NodeSignature
  computeBatchHash : String → List MatchResult → String

/-- Where a round waits. An answer is `none` while it is awaited, and `some none` when the request
failed or timed out. -/
inductive Phase where
  | decrypting (intentIds : List String) (answers : List (Option (Option DecryptReply)))
  | signing (batchId : String) (ms : List MatchResult)
      (answers : List (Option (Option NodeSignature)))

/-- A call of `runMatchingRoundRemote`. The timer waits for its round with the rest of its list. -/
structure Round where
  session : Ref
  phase : Phase
  rest : Option (List Ref)

/-- The coordinator, its nodes and the messages between them. -/
structure State where
  heap : Ref → Session
  /-- The references below `next` are allocated. -/
  next : Ref
  sessions : OrderedMap String Ref
  intentToSession : OrderedMap String String
  rounds : ℕ → Option Round
  nextRound : ℕ
  /-- Timer callbacks that wait for `persistSignedBatch`, with the sessions they have left. -/
  timers : List (List Ref)
  /-- `distributeShares`: the forwarded shares on their way. -/
  forwards : List (String × String × EncryptedShare)
  /-- The `shares` map of each node. -/
  stores : String → String → Option EncryptedShare
  /-- Submissions that wait for `distributeShares`. -/
  pending : List MpcIntent
  acked : List MpcIntent
  batches : List (Ref × SignedMatchBatch)
  /-- The process has ended. What the other fields still say is what it left. -/
  exited : Bool

/-- A reference that was never allocated. -/
def Session.blank : Session := ⟨"", 0, .failed, .empty, .empty, none⟩

/-- The coordinator at its start. -/
def State.init : State :=
  ⟨fun _ => .blank, 0, .empty, .empty, fun _ => none, 0, [], [], fun _ _ => none, [], [], [],
    false⟩

/-! ## `CommitteeState` -/

namespace State

/-- Write an object. -/
def put (r : Ref) (x : Session) (s : State) : State := { s with heap := Function.update s.heap r x }

/-- `createSession`. -/
def createSession (sessionId : String) (startedAt : ℕ) (s : State) : Ref × State :=
  (s.next, { s with
    heap := Function.update s.heap s.next ⟨sessionId, startedAt, .open, .empty, .empty, none⟩
    next := s.next + 1
    sessions := s.sessions.set sessionId s.next })

/-- The session id for a clock reading. -/
def sessionIdAt (now : ℕ) : String := "session-" ++ toString now

/-- `getOpenSessions`. -/
def getOpenSessions (s : State) : List Ref :=
  s.sessions.values.filter fun r => (s.heap r).status = .open

/-- `getOrCreateOpenSession`, at two readings of the clock. -/
def getOrCreateOpenSession (now startedAt : ℕ) (s : State) : Ref × State :=
  match s.getOpenSessions with
  | r :: _ => (r, s)
  | [] => s.createSession (sessionIdAt now) startedAt

end State

/-- Store one encrypted share under the map of its node. -/
def Session.addShare (intentId : String) (e : EncryptedShare) (x : Session) : Session :=
  let nodeShares := (x.shares.get? e.nodeId).getD .empty
  { x with shares := x.shares.set e.nodeId (nodeShares.set intentId ⟨intentId, e.nodeId, e, none⟩) }

/-- The loop over `encryptedShares`: `false` when it throws on a `null` entry. -/
def Session.addShares (intentId : String) : List (Option EncryptedShare) → Session → Bool × Session
  | [], x => (true, x)
  | none :: _, x => (false, x)
  | some e :: es, x => Session.addShares intentId es (x.addShare intentId e)

/-- `addIntent`: whether it returned, and the state. -/
def State.addIntent (intent : MpcIntent) (now startedAt : ℕ) (s : State) : Bool × State :=
  let (r, s₁) := s.getOrCreateOpenSession now startedAt
  let x := { s₁.heap r with intents := (s₁.heap r).intents.set intent.intentId intent }
  let (ok, x') := x.addShares intent.intentId intent.encryptedShares
  (ok, { s₁.put r x' with
    intentToSession := s₁.intentToSession.set intent.intentId (s₁.heap r).sessionId })

/-! ## Rounds -/

/-- `Math.ceil((n * 2) / 3)`. -/
def threshold (n : ℕ) : ℕ := (n * 2 + 2) / 3

/-- Why a round stops: with status `failed`, or by an exception. -/
inductive Stop where
  | failed
  | threw
deriving DecidableEq

/-- Set the decrypted share of an entry, if there is one. -/
def setDecrypted (intentId : String) (share : Option EncodedShare)
    (m : OrderedMap String NodeShareEntry) : OrderedMap String NodeShareEntry :=
  match m.get? intentId with
  | some entry => m.set intentId { entry with decryptedShare := share }
  | none => m

/-- Take over what a node decrypted. -/
def Session.applyReply (reply : DecryptReply) (x : Session) : Session :=
  match x.shares.get? reply.nodeId with
  | none => x
  | some nodeShares => { x with
      shares := x.shares.set reply.nodeId
        (reply.shares.foldl (fun m (id, share) => setDecrypted id share m) nodeShares) }

/-- The first two decrypted shares of an intent, in the order of the nodes. -/
def Session.availableShares (E : Env) (x : Session) (intentId : String) : List EncodedShare :=
  (E.nodes.filterMap fun n => do
    let nodeShares ← x.shares.get? n
    let entry ← nodeShares.get? intentId
    entry.decryptedShare).take 2

/-- Step 2 of a round: the amounts of all intents, or why there are none. -/
def Session.reconstruct (E : Env) (x : Session) :
    List (String × MpcIntent) → Except Stop (List Reconstructed)
  | [] => .ok []
  | (intentId, intent) :: rest =>
      if (x.availableShares E intentId).length < 2 then .error .failed
      else
        match reconstructAmount (x.availableShares E intentId) with
        | none => .error .threw
        | some amount => do
            let rest' ← Session.reconstruct E x rest
            return ⟨intentId, amount, intent.inputAsset, intent.outputAsset⟩ :: rest'

/-- Forget the decrypted shares of the configured nodes. -/
def Session.clearDecrypted (E : Env) (x : Session) : Session :=
  { x with shares := E.nodes.foldl (fun shares n =>
      match shares.get? n with
      | none => shares
      | some nodeShares => shares.set n
          (nodeShares.keys.foldl (fun m id => setDecrypted id none m) nodeShares)) x.shares }

/-- The batch a session is signed with. -/
def Session.batchOf (E : Env) (x : Session) (batchId : String) (ms : List MatchResult)
    (signatures : List NodeSignature) : SignedMatchBatch :=
  ⟨batchId, x.sessionId, ms, E.computeBatchHash batchId ms, signatures⟩

/-- `session.signedBatch = ..; session.status = "signed"`. -/
def Session.sign (E : Env) (batchId : String) (ms : List MatchResult)
    (signatures : List NodeSignature) (x : Session) : Session :=
  { x with signedBatch := some (x.batchOf E batchId ms signatures), status := .signed }

/-- Set the status of an object. -/
def State.setStatus (r : Ref) (status : Status) (s : State) : State :=
  s.put r { s.heap r with status := status }

/-- Let a round go on to a new phase. -/
def State.setRound (i : ℕ) (round : Round) (s : State) : State :=
  { s with rounds := Function.update s.rounds i (some round) }

section
variable (E : Env)

/-- `runMatchingRoundRemote` up to its first `await`. -/
def State.startRound (r : Ref) (rest : Option (List Ref)) (s : State) : State :=
  if (s.heap r).intents.size < 2 then s
  else
    let s₁ := s.setStatus r .matching
    let phase := Phase.decrypting (s.heap r).intents.keys (E.nodes.map fun _ => none)
    { s₁ with
      rounds := Function.update s₁.rounds s₁.nextRound (some ⟨r, phase, rest⟩)
      nextRound := s₁.nextRound + 1 }

/-- The body of the timer's loop, from a list of sessions. -/
def State.runTimer : List Ref → State → State
  | [], s => s
  | r :: rs, s =>
      if (s.heap r).intents.size < 2 then State.runTimer rs s else s.startRound E r (some rs)

/-- The end of a round: a timer goes on once its batch is persisted. -/
def State.endRound (i : ℕ) (round : Round) (s : State) : State :=
  { s with
    rounds := Function.update s.rounds i none
    timers := match round.rest with
      | some rs => s.timers ++ [rs]
      | none => s.timers }

/-- What a node answers to `/internal/decrypt` out of its store. -/
def State.decryptReply (s : State) (node : String) (intentIds : List String) : DecryptReply where
  nodeId := node
  -- an assignment to `results.__proto__` adds no entry
  shares := (intentIds.filter (· ≠ "__proto__")).map fun id =>
    (id, (s.stores node id).bind fun e => (E.decryptShare node e).join)

/-- The round after the answers to `/internal/decrypt`: to its next `await`, or to its end. -/
def State.afterDecrypt (i : ℕ) (round : Round) (answers : List (Option DecryptReply))
    (batchId : String) (s : State) : State :=
  let responding := answers.filterMap id
  if responding.length < threshold E.nodes.length then
    (s.setStatus round.session .failed).endRound i round
  else
    let x := responding.foldl (fun x reply => x.applyReply reply) (s.heap round.session)
    match x.reconstruct E x.intents.entries with
    | .error .failed => (s.put round.session { x with status := .failed }).endRound i round
    | .error .threw =>
        -- the route replies with an error, and the timer's callback is caught by nobody
        { s.put round.session x with
          rounds := Function.update s.rounds i none
          exited := round.rest.isSome || s.exited }
    | .ok reconstructed =>
        let phase := Phase.signing batchId (matchIntents reconstructed) (E.nodes.map fun _ => none)
        (s.put round.session (x.clearDecrypted E)).setRound i ⟨round.session, phase, round.rest⟩

/-- The round after the answers to `/internal/sign-batch`. -/
def State.afterSign (i : ℕ) (round : Round) (batchId : String) (ms : List MatchResult)
    (answers : List (Option NodeSignature)) (s : State) : State :=
  let signatures := answers.filterMap id
  if signatures.length < threshold E.nodes.length then
    (s.setStatus round.session .failed).endRound i round
  else
    let x := s.heap round.session
    { (s.put round.session (x.sign E batchId ms signatures)).endRound i round with
      batches := s.batches ++ [(round.session, x.batchOf E batchId ms signatures)] }

/-- Decrypt the entries of one node with its key: `false` when one of them fails. -/
def decryptEntries (node : String) : List (String × NodeShareEntry) →
    OrderedMap String NodeShareEntry → Bool × OrderedMap String NodeShareEntry
  | [], m => (true, m)
  | (id, entry) :: es, m =>
      match E.decryptShare node entry.encryptedShare with
      | none => (false, m)
      | some share => decryptEntries node es (setDecrypted id share m)

/-- Step 1 of the in-process round: every node decrypts the shares stored in the session. -/
def Session.decryptLocal : List String → Session → Bool × Session
  | [], x => (true, x)
  | n :: ns, x =>
      match x.shares.get? n with
      | none => Session.decryptLocal ns x
      | some nodeShares =>
          let (ok, nodeShares') := decryptEntries E n nodeShares.entries nodeShares
          let x' := { x with shares := x.shares.set n nodeShares' }
          if ok then Session.decryptLocal ns x' else (false, x')

/-- `runMatchingRound`: the round of the process that holds all keys, which has no `await`; called by
the match route or by the timer. -/
def State.roundLocal (r : Ref) (batchId : String) (timer : Bool) (s : State) : State :=
  if (s.heap r).intents.size < 2 then s
  else
    let (ok, x) := (s.heap r).decryptLocal E E.nodes
    if ok then
      match x.reconstruct E x.intents.entries with
      | .error .failed => s.put r { x with status := .failed }
      | .error .threw =>
          { s.put r { x with status := .matching } with exited := timer || s.exited }
      | .ok reconstructed =>
          let ms := matchIntents reconstructed
          let signatures := E.nodes.map fun n => E.signBatch n batchId ms
          { s.put r ((x.clearDecrypted E).sign E batchId ms signatures) with
            batches := s.batches ++ [(r, x.batchOf E batchId ms signatures)] }
    else s.put r { x with status := .failed }

/-! ## Steps -/

/-- Overwrite the share of an intent under a node, if it has one. -/
def Session.confirmShare (node intentId : String) (share : EncryptedShare) (x : Session) : Session :=
  match x.shares.get? node with
  | none => x
  | some nodeShares =>
      match nodeShares.get? intentId with
      | none => x
      | some entry => { x with
          shares := x.shares.set node (nodeShares.set intentId { entry with encryptedShare := share }) }

/-- `getSessionForIntent`. -/
def State.getSessionForIntent (s : State) (intentId : String) : Option Ref :=
  (s.intentToSession.get? intentId).bind s.sessions.get?

/-- What can happen next. -/
inductive Step where
  /-- `POST /v1/mpc/intents`, up to the distribution of the shares, at two clock readings. -/
  | post (intent : MpcIntent) (now startedAt : ℕ)
  /-- A forwarded share reaches its node. -/
  | deliver (node intentId : String) (share : EncryptedShare)
  /-- The distribution of a submission's shares has ended, and the reply is `ok: true`. -/
  | ack (intent : MpcIntent)
  /-- `POST /v1/mpc/sessions/:sessionId/match`. -/
  | requestMatch (sessionId : String)
  /-- The batch timer fires. -/
  | tick
  /-- A timer callback goes on with the sessions it has left. -/
  | resume (rest : List Ref)
  /-- A round hears from a node about its shares, or gives up on it. -/
  | decrypt (round node : ℕ) (responds : Bool)
  /-- A round has heard about all shares; `batchId` is the `uuid` it draws. -/
  | decrypted (round : ℕ) (batchId : String)
  /-- A round hears from a node about its signature, or gives up on it. -/
  | sign (round node : ℕ) (responds : Bool)
  /-- A round has heard about all signatures. -/
  | signed (round : ℕ)
  /-- `POST /shares/:intentId` at a node of the process that holds all keys, by anybody. -/
  | confirm (node intentId : String) (share : EncryptedShare)
  /-- The match route or the timer of the process that holds all keys. -/
  | matchLocal (sessionId : String) (batchId : String) (timer : Bool)

/-- The checks of `POST /v1/mpc/intents`. -/
def MpcIntent.accepted (intent : MpcIntent) : Bool :=
  intent.intentId ≠ "" ∧ intent.encryptedShares.length = E.nodes.length

/-- The shares `distributeShares` sends: those with a configured node. -/
def MpcIntent.forwarded (intent : MpcIntent) : List (String × String × EncryptedShare) :=
  (intent.encryptedShares.filterMap id).filterMap fun e =>
    if e.nodeId ∈ E.nodes then some (e.nodeId, intent.intentId, e) else none

/-- `POST /v1/mpc/intents`. -/
def State.post (intent : MpcIntent) (now startedAt : ℕ) (s : State) : State :=
  if intent.accepted E then
    let (ok, s₁) := s.addIntent intent now startedAt
    if ok then { s₁ with
      forwards := s₁.forwards ++ intent.forwarded E
      pending := s₁.pending ++ [intent] }
    else s₁
  else s

/-- Take a step while the process runs. A step that is not possible does nothing. -/
def Step.act (s : State) : Step → State
  | .post intent now startedAt => s.post E intent now startedAt
  | .deliver node intentId share =>
      if (node, intentId, share) ∈ s.forwards then
        let s₁ := { s with forwards := s.forwards.erase (node, intentId, share) }
        match E.routeParam intentId with
        | none => s₁
        | some key => { s₁ with
            stores := Function.update s.stores node
              (Function.update (s.stores node) key (some share)) }
      else s
  | .ack intent =>
      if intent ∈ s.pending then { s with
        pending := s.pending.erase intent
        acked := s.acked ++ [intent] }
      else s
  | .requestMatch sessionId =>
      match s.sessions.get? sessionId with
      | none => s
      | some r => if (s.heap r).status = Status.«open» then s.startRound E r none else s
  | .tick => s.runTimer E s.getOpenSessions
  | .resume rest =>
      if rest ∈ s.timers then { s with timers := s.timers.erase rest }.runTimer E rest else s
  | .decrypt i k responds =>
      match s.rounds i, E.nodes[k]? with
      | some ⟨r, .decrypting intentIds answers, rest⟩, some node =>
          if answers[k]? = some none then
            let answer := if responds then some (s.decryptReply E node intentIds) else none
            s.setRound i ⟨r, .decrypting intentIds (answers.set k (some answer)), rest⟩
          else s
      | _, _ => s
  | .decrypted i batchId =>
      match s.rounds i with
      | some ⟨r, .decrypting intentIds answers, rest⟩ =>
          match answers.mapM id with
          | some answers' =>
              s.afterDecrypt E i ⟨r, .decrypting intentIds answers, rest⟩ answers' batchId
          | none => s
      | _ => s
  | .sign i k responds =>
      match s.rounds i, E.nodes[k]? with
      | some ⟨r, .signing batchId ms answers, rest⟩, some node =>
          if answers[k]? = some none then
            let answer := if responds then some (E.signBatch node batchId ms) else none
            s.setRound i ⟨r, .signing batchId ms (answers.set k (some answer)), rest⟩
          else s
      | _, _ => s
  | .signed i =>
      match s.rounds i with
      | some ⟨r, .signing batchId ms answers, rest⟩ =>
          match answers.mapM id with
          | some answers' =>
              s.afterSign E i ⟨r, .signing batchId ms answers, rest⟩ batchId ms answers'
          | none => s
      | _ => s
  | .confirm node intentId share =>
      if node ∈ E.nodes ∧ share.nodeId = node then
        match s.getSessionForIntent intentId with
        | none => s
        | some r => s.put r ((s.heap r).confirmShare node intentId share)
      else s
  | .matchLocal sessionId batchId timer =>
      match s.sessions.get? sessionId with
      | none => s
      | some r => if (s.heap r).status = Status.«open» then s.roundLocal E r batchId timer else s

/-- Take a step. Nothing happens after the process has ended. -/
def Step.run (s : State) (t : Step) : State := if s.exited then s else t.act E s

/-- Run a sequence of steps. -/
def run : List Step → State → State
  | [], s => s
  | t :: ts, s => run ts (t.run E s)

/-- Every step of a run meets a condition on the state before it. -/
def Along (ok : State → Step → Prop) : List Step → State → Prop
  | [], _ => True
  | t :: ts, s => ok s t ∧ Along ok ts (t.run E s)

instance decidableAlong (ok : State → Step → Prop) [∀ s t, Decidable (ok s t)] :
    ∀ (ts : List Step) (s : State), Decidable (Along E ok ts s)
  | [], _ => isTrue trivial
  | t :: ts, s => @instDecidableAnd _ _ _ (decidableAlong ok ts (t.run E s))

end

end ShadePay.Mpc
