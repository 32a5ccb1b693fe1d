import ShadePay.Rfq.Basic

/-!
# Requests as processes

A process serves one request, statement by statement, and keeps between two statements what its
handler has read. The inserts into `state_transitions` and `user_activity` are one statement at the
end, since nothing reads them.
-/

namespace ShadePay.Rfq

/-- The two callers of `rfqLifecycle`. -/
inductive Caller where
  | accept (r : Accept)
  | settle (r : Settle)
deriving DecidableEq

def Caller.intentHash : Caller → String
  | .accept r => r.intentHash
  | .settle r => r.intentHash

def Caller.quoteId : Caller → String
  | .accept r => r.quoteId
  | .settle r => r.quoteId

/-- The next select of `rfqLifecycle`, and what those before it returned. -/
inductive Lookup where
  | intent
  | quote (intent : Option Intent)
  | accepted (intent : Option Intent) (quote : Option Quote)
  | fill (intent : Option Intent) (quote : Option Quote) (accepted : Bool)
deriving DecidableEq

/-- A handler, at its next statement. -/
inductive Process where
  | idle
  | submitting (q : Quote)
  | owning (r : Accept)
  | reading (c : Caller) (l : Lookup)
  | accepting (r : Accept)
  | filling (b : FillBody)
  | executing (fillId destinationTxHash : String)
  | auditing (r : Settle)
  | proving (r : Settle)
  | spending (r : Settle)
  | routing (r : Settle)
  | matching (r : Settle)
  | settling (r : Settle)
  | tagging (r : Settle) (settlementId : String)
  | closing (a : Answer)
  | answered (a : Answer)
deriving DecidableEq

/-- What can happen next: a client's request arrives, a statement is executed or fails, or another
service writes. -/
inductive Act where
  | call (r : Request)
  | exec
  | error (message : String)
  | insertIntent (i : Intent)
  | linkSession (intentHash session : String)
  | world (w : World)

/-- A handler up to its first statement. -/
def Request.start : Request → Process
  | .submitQuote q => .submitting q
  | .accept r => .owning r
  | .fill b => .filling b
  | .execute fillId destinationTxHash =>
      if destinationTxHash = "" then .answered (.failed 400 "destination_tx_hash required")
      else .executing fillId destinationTxHash
  | .settle r => .auditing r

/-- The refusal, if there is one, or else the next statement. -/
def orElse (refused : Option Refusal) (p : Process) : Process :=
  match refused with
  | some r => .answered (.failed r.code r.message)
  | none => p

/-- A caller, with the whole lifecycle read. -/
def Caller.resume (c : Caller) (lc : Lifecycle) : Process :=
  match c with
  | .accept r => orElse (r.refused lc) (.accepting r)
  | .settle r => orElse (r.refused lc) (.proving r)

/-- One select of `rfqLifecycle`. -/
def Caller.read (c : Caller) (d : Db) : Lookup → Process
  | .intent => .reading c (.quote (d.selectIntent c.intentHash))
  | .quote intent => .reading c (.accepted intent (d.selectQuote c.quoteId))
  | .accepted intent quote => .reading c (.fill intent quote (d.selectAccepted c.quoteId))
  | .fill intent quote accepted =>
      c.resume { intent, quote, accepted, fill := d.selectFill c.quoteId }

section
variable (deterministicId : String → List String → String)

/-- The row of an acceptance. -/
def Accept.row (r : Accept) : QuoteAcceptance where
  acceptanceId := deterministicId "accept" [r.quoteId, r.userSignatureHash]
  quoteId := r.quoteId
  intentHash := r.intentHash
  userSignatureHash := r.userSignatureHash
  userId := r.userId

/-- The row of a fill. -/
def FillBody.row (b : FillBody) : Fill where
  fillId := deterministicId "fill" [b.quoteId, b.fillReceiptHash]
  quoteId := b.quoteId
  fillReceiptHash := b.fillReceiptHash
  destinationTxHash := b.destinationTxHash
  amount := b.amount
  recipient := b.recipient
  state := .fillCreated

/-- The row of a settlement. -/
def Settle.row (r : Settle) (ledger : ℕ) : Settlement where
  settlementId := deterministicId "settle" [r.intentHash, r.quoteId, r.nullifier]
  intentHash := r.intentHash
  quoteId := r.quoteId
  fillId := r.fillId
  proofJobId := r.proofJobId
  nullifier := r.nullifier
  userId := none
  createdAt := ledger

/-- An insert, and where its handler goes on. -/
def inserted (d : Db) (result : Option Db) (message : String) (p : Process) : Db × Process :=
  match result with
  | none => (d, .answered (.failed 500 message))
  | some d' => (d', p)

/-- The next statement of a handler. -/
def Process.exec (d : Db) : Process → Option (Db × Process)
  | .submitting q => some (inserted d (d.insertQuote q) "violates foreign key constraint"
      (.closing (.quoted q)))
  | .owning r =>
      some (d, orElse (requireOwnedIntent r.userId (d.selectIntent r.intentHash))
        (.reading (.accept r) .intent))
  | .reading c l => some (d, c.read d l)
  | .accepting r => some (inserted d (d.insertAcceptance (r.row deterministicId))
      "violates foreign key constraint"
      (.closing (.accepted r (r.row deterministicId).acceptanceId)))
  | .filling b => some (inserted d (d.insertFill (b.row deterministicId))
      "violates foreign key constraint" (.closing (.filled (b.row deterministicId).fillId)))
  | .executing fillId destinationTxHash =>
      some (d.executeFill fillId destinationTxHash,
        if d.fills.any fun f => f.fillId = fillId then
          .closing (.executed fillId destinationTxHash)
        else .answered (.failed 404 "fill not found"))
  | .auditing r =>
      some (d, if d.world.criticalRootMismatches > 0 then
          .answered (.failed 409 ("ROOT_MISMATCH_CRITICAL: " ++
            toString d.world.criticalRootMismatches ++
            " unresolved root-audit finding(s); spends are blocked"))
        else .reading (.settle r) .intent)
  | .proving r =>
      some (d, if d.world.proofStatus r.proofJobId = some "ready" then .spending r
        else .answered (.failed 409 "proof job is not ready"))
  | .spending r =>
      some (d, if d.world.nullifierSpent r.nullifier then
          .answered (.failed 409 "nullifier already spent")
        else .routing r)
  | .routing r =>
      -- an empty session id is falsy
      some (d, if ((d.selectIntent r.intentHash).bind Intent.mpcSessionId).any (· ≠ "") then
          .matching r
        else .settling r)
  | .matching r =>
      some (d, if d.world.mpcMatched r.intentHash then .settling r
        else .answered (.failed 409 ("MPC match not yet confirmed — intent is awaiting private " ++
          "committee matching")))
  | .settling r =>
      -- the table has no column for the receipt hash of the body
      if r.fillReceiptHash.isSome then
        some (d, .answered (.failed 500
          "column \"fill_receipt_hash\" of relation \"settlements\" does not exist"))
      else
        some (inserted d (d.insertSettlement (r.row deterministicId d.world.ledger))
          "violates foreign key constraint"
          (.tagging r (r.row deterministicId d.world.ledger).settlementId))
  | .tagging r settlementId =>
      some (d.setRowUser settlementId r.userId, .closing (.settled r settlementId))
  | .closing a => some (d, .answered a)
  | .idle | .answered _ => none

/-- A step of a process. -/
def Process.next (p : Process) (d : Db) (a : Act) : Option (Db × Process) :=
  match a, p with
  | .call r, .idle => some (d, r.start)
  | .insertIntent i, .idle => some (d.insertIntent i, .idle)
  | .linkSession intentHash session, .idle => some (d.linkSession intentHash session, .idle)
  | .world w, .idle => some ({ d with world := w }, .idle)
  | .exec, p => p.exec deterministicId d
  | .error _, .idle => none
  | .error _, .answered _ => none
  | .error message, _ => some (d, .answered (.failed 500 message))
  | _, _ => none

/-- The processes over the tables. -/
abbrev System (ι : Type) := Interleave.State ι Db Process

variable {ι : Type} [DecidableEq ι]

/-- Steps of the processes, in any order. -/
def run (s : System ι) (es : List (ι × Act)) : Option (System ι) :=
  Interleave.run (Process.next deterministicId) s es

/-- Before the first acceptance and the first settlement. -/
structure Fresh (s : System ι) : Prop where
  quoteAcceptances : s.shared.quoteAcceptances = []
  settlements : s.shared.settlements = []
  loc : ∀ i, s.loc i = .idle

end

/-- Ids that tell their parts apart. -/
def plainId (ns : String) (parts : List String) : String := String.intercalate ":" (ns :: parts)

end ShadePay.Rfq
