import ShadePay.Lib.Interleave
import ShadePay.Lib.Table

/-!
# The RFQ lifecycle

The quote, accept, fill, execute and settle routes of `apps/api/src/routes.ts` over the tables of
`001_initial.sql`. Each SQL statement is one step: it is executed, or it fails and changes nothing.
A request is a body that its schema has parsed, from an authenticated user where the route asks for
one. What other parts of the system write (intents, proof jobs, spent nullifiers, matches of the
committee, findings of the root auditor) changes between any two steps.
-/

namespace ShadePay.Rfq

/-! ## The tables -/

/-- A row of `intents`. -/
structure Intent where
  intentHash : String
  idempotencyKey : String
  userId : Option ℕ
  expiryLedger : ℕ
  mpcSessionId : Option String
deriving DecidableEq

/-- A row of `quotes`. -/
structure Quote where
  quoteId : String
  intentHash : String
  quoteHash : String
  solverId : String
  validUntilLedger : ℕ
deriving DecidableEq

/-- A row of `quote_acceptances`. -/
structure QuoteAcceptance where
  acceptanceId : String
  quoteId : String
  intentHash : String
  userSignatureHash : String
  userId : ℕ
deriving DecidableEq

/-- The texts of a fill's `state`. -/
inductive FillState where
  | fillCreated | executed
deriving DecidableEq

/-- A row of `fills`. -/
structure Fill where
  fillId : String
  quoteId : String
  fillReceiptHash : String
  destinationTxHash : Option String
  amount : String
  recipient : String
  state : FillState
deriving DecidableEq

/-- A row of `settlements`, created while the ledger was at `createdAt`. -/
structure Settlement where
  settlementId : String
  intentHash : String
  quoteId : String
  fillId : Option String
  proofJobId : String
  nullifier : String
  userId : Option ℕ
  createdAt : ℕ
deriving DecidableEq

/-- What the settle route reads of tables that other services write, and the current ledger. -/
structure World where
  ledger : ℕ
  criticalRootMismatches : ℕ
  proofStatus : String → Option String
  nullifierSpent : String → Bool
  mpcMatched : String → Bool

/-- The tables. -/
structure Db where
  intents : List Intent
  quotes : List Quote
  quoteAcceptances : List QuoteAcceptance
  fills : List Fill
  settlements : List Settlement
  world : World

/-! ## Statements -/

/-- `insert … on conflict do nothing` into a table with foreign keys, which are checked of a row
that goes in; `none` is a violation. -/
def insertGeneric {α : Type} (conflict : α → Bool) (references : Bool) (row : α) (rows : List α) :
    Option (List α) :=
  if rows.any conflict || references then some (Table.insertNew conflict row rows) else none

def Db.selectIntent (d : Db) (intentHash : String) : Option Intent :=
  d.intents.find? fun i => i.intentHash = intentHash

def Db.selectQuote (d : Db) (quoteId : String) : Option Quote :=
  d.quotes.find? fun q => q.quoteId = quoteId

def Db.selectAccepted (d : Db) (quoteId : String) : Bool :=
  d.quoteAcceptances.any fun a => a.quoteId = quoteId

/-- The fill of a quote that was created last. -/
def Db.selectFill (d : Db) (quoteId : String) : Option Fill :=
  (d.fills.filter fun f => f.quoteId = quoteId).getLast?

/-- The insert of `POST /v1/intents`. -/
def Db.insertIntent (d : Db) (i : Intent) : Db :=
  { d with
    intents := Table.insertNew
      (fun j => j.intentHash = i.intentHash || j.idempotencyKey = i.idempotencyKey) i d.intents }

/-- The update of `POST /v1/intents` that records the session. -/
def Db.linkSession (d : Db) (intentHash session : String) : Db :=
  { d with
    intents := Table.update (fun i => i.intentHash = intentHash)
      (fun i => { i with mpcSessionId := some session }) d.intents }

def Db.insertQuote (d : Db) (q : Quote) : Option Db :=
  (insertGeneric (fun p => p.quoteId = q.quoteId || p.quoteHash = q.quoteHash)
    (d.selectIntent q.intentHash).isSome q d.quotes).map fun quotes => { d with quotes }

def Db.insertAcceptance (d : Db) (a : QuoteAcceptance) : Option Db :=
  (insertGeneric (fun b => b.acceptanceId = a.acceptanceId || b.quoteId = a.quoteId)
    ((d.selectQuote a.quoteId).isSome && (d.selectIntent a.intentHash).isSome) a
    d.quoteAcceptances).map fun quoteAcceptances => { d with quoteAcceptances }

def Db.insertFill (d : Db) (f : Fill) : Option Db :=
  (insertGeneric (fun g => g.fillId = f.fillId) (d.selectQuote f.quoteId).isSome f d.fills).map
    fun fills => { d with fills }

/-- `executeFill`. -/
def Db.executeFill (d : Db) (fillId destinationTxHash : String) : Db :=
  { d with
    fills := Table.update (fun f => f.fillId = fillId)
      (fun f => { f with destinationTxHash := some destinationTxHash, state := .executed })
      d.fills }

def Db.insertSettlement (d : Db) (s : Settlement) : Option Db :=
  (insertGeneric (fun t => t.settlementId = s.settlementId)
    ((d.selectIntent s.intentHash).isSome && (d.selectQuote s.quoteId).isSome &&
      (s.fillId.all fun id => d.fills.any fun f => f.fillId = id) &&
      (d.world.proofStatus s.proofJobId).isSome) s
    d.settlements).map fun settlements => { d with settlements }

/-- `setRowUser` of a settlement. -/
def Db.setRowUser (d : Db) (settlementId : String) (userId : ℕ) : Db :=
  { d with
    settlements := Table.update (fun s => s.settlementId = settlementId)
      (fun s => { s with userId := some userId }) d.settlements }

/-! ## Requests -/

/-- `POST /v1/quotes/:quote_id/accept`. -/
structure Accept where
  userId : ℕ
  quoteId : String
  intentHash : String
  userSignatureHash : String
deriving DecidableEq

/-- `POST /v1/fills`. -/
structure FillBody where
  quoteId : String
  fillReceiptHash : String
  destinationTxHash : Option String
  amount : String
  recipient : String
deriving DecidableEq

/-- `POST /v1/rfq/settle`. -/
structure Settle where
  userId : ℕ
  intentHash : String
  quoteId : String
  fillId : Option String
  fillReceiptHash : Option String
  proofJobId : String
  nullifier : String
deriving DecidableEq

/-- A request to the lifecycle. -/
inductive Request where
  | submitQuote (q : Quote)
  | accept (r : Accept)
  | fill (b : FillBody)
  | execute (fillId destinationTxHash : String)
  | settle (r : Settle)
deriving DecidableEq

/-- What a client is told. -/
inductive Answer where
  | quoted (q : Quote)
  | accepted (r : Accept) (acceptanceId : String)
  | filled (fillId : String)
  | executed (fillId destinationTxHash : String)
  | settled (r : Settle) (settlementId : String)
  | failed (code : ℕ) (message : String)
deriving DecidableEq

/-- The code and the text of a refusal. -/
structure Refusal where
  code : ℕ
  message : String
deriving DecidableEq

/-- What `rfqLifecycle` returns. -/
structure Lifecycle where
  intent : Option Intent
  quote : Option Quote
  accepted : Bool
  fill : Option Fill
deriving DecidableEq

/-- `requireOwnedIntent`, of the row that its select returns. -/
def requireOwnedIntent (userId : ℕ) (row : Option Intent) : Option Refusal :=
  match row with
  | none => some ⟨404, "intent not found"⟩
  | some i =>
      if i.userId.isSome ∧ i.userId ≠ some userId then
        some ⟨403, "intent not owned by user"⟩
      else none

/-- The checks of the accept route. -/
def Accept.refused (r : Accept) (lc : Lifecycle) : Option Refusal :=
  match lc.quote with
  | none => some ⟨404, "quote not found"⟩
  | some q =>
      if q.intentHash ≠ r.intentHash then some ⟨409, "quote does not belong to intent"⟩
      else if lc.accepted then
        some ⟨409, "a quote is already accepted for this intent (immutable)"⟩
      else none

/-- The checks of the settle route on the lifecycle. An empty receipt hash is not compared, and the
ledgers up to which the quote and the intent are valid are not either. -/
def Settle.refused (r : Settle) (lc : Lifecycle) : Option Refusal :=
  match lc.intent with
  | none => some ⟨404, "intent not found"⟩
  | some i =>
      if i.userId.isSome ∧ i.userId ≠ some r.userId then
        some ⟨403, "authenticated user does not own this intent"⟩
      else
        match lc.quote with
        | none => some ⟨404, "quote not found"⟩
        | some q =>
            if q.intentHash ≠ r.intentHash then
              some ⟨409, "quote does not belong to intent"⟩
            else if !lc.accepted then some ⟨409, "quote is not accepted"⟩
            else
              match lc.fill with
              | none => some ⟨409, "fill not found for quote"⟩
              | some f =>
                  if f.state ≠ .executed then some ⟨409, "fill is not executed"⟩
                  else if r.fillReceiptHash.any fun h => h ≠ "" && f.fillReceiptHash ≠ h then
                    some ⟨409, "fill receipt hash mismatch"⟩
                  else none

end ShadePay.Rfq
