import ShadePay.Stellar.Codec
import ShadePay.Lib.WriteOnce

/-!
# The intent escrow

`contracts/stellar/intent_escrow`: the records of the RFQ flow. Nobody but the first admin is asked
for an authorization, so every call may come from anyone, in any order; what the contract does keep
is that intents, quotes and acceptances are written once and that the events tell the whole storage.
`escrow_of_run` says so for every run.
-/

namespace ShadePay.Stellar.IntentEscrow

open Guard

/-! ## State -/

/-- Why an invocation fails. -/
inductive Error where
  /-- `panic!("already initialized")`. -/
  | alreadyInitialized
  /-- `panic!("intent exists")`. -/
  | intentExists
  /-- `panic!("quote exists")`. -/
  | quoteExists
  /-- `panic!("expired")`. -/
  | expired
  /-- `panic!("already accepted")`. -/
  | alreadyAccepted
  /-- `panic!("quote missing")`. -/
  | quoteMissing
  /-- An `unwrap` of an absent key. -/
  | absent
  /-- A missing `require_auth` authorization. -/
  | auth
deriving DecidableEq

/-- `Intent`. -/
structure Intent where
  expiryLedger : ℕ
  policyId : Bytes32
  intentCommitment : Bytes32
deriving DecidableEq

/-- `Quote`. -/
structure Quote where
  solverId : String
  validUntilLedger : ℕ
deriving DecidableEq

/-- The events, by their topic. -/
inductive Event where
  | intent (intentHash : Bytes32)
  | quote (quoteHash : Bytes32)
  | accept (intentHash quoteHash : Bytes32)
  | lock (quoteHash lockHash : Bytes32)
  | fail (intentHash reasonHash : Bytes32)
deriving DecidableEq

/-- Storage of the contract, by `DataKey`, and the events so far. -/
structure Storage where
  admin : Option Address
  vault : Option Address
  nullifiers : Option Address
  intent : Bytes32 → Option Intent
  quote : Bytes32 → Option Quote
  accepted : Bytes32 → Option (Bytes32 × Bytes32)
  lock : Bytes32 → Option Bytes32
  failed : Bytes32 → Option Bytes32
  events : List Event

/-- The storage before `initialize`. -/
def Storage.empty : Storage where
  admin := none
  vault := none
  nullifiers := none
  intent := fun _ => none
  quote := fun _ => none
  accepted := fun _ => none
  lock := fun _ => none
  failed := fun _ => none
  events := []

/-- `unwrap`. -/
def unwrap {α : Type} : Option α → Except Error α
  | some a => .ok a
  | none => .error .absent

/-! ## Entry points -/

/-- `initialize`. -/
def escrowInitialize (auth : Address → Bool) (admin vault nullifierRegistry : Address)
    (s : Storage) : Except Error Storage := do
  require (s.admin = none) .alreadyInitialized
  require (auth admin = true) .auth
  return { s with
    admin := some admin
    vault := some vault
    nullifiers := some nullifierRegistry }

/-- `register_intent`. -/
def registerIntent (intentHash : Bytes32) (expiryLedger : ℕ) (policyId intentCommitment : Bytes32)
    (s : Storage) : Except Error Storage := do
  require (s.intent intentHash = none) .intentExists
  return { s with
    intent := Function.update s.intent intentHash (some ⟨expiryLedger, policyId, intentCommitment⟩)
    events := s.events ++ [.intent intentHash] }

/-- `register_quote`, at a ledger. -/
def registerQuote (sequence : ℕ) (quoteHash : Bytes32) (solverId : String) (validUntilLedger : ℕ)
    (s : Storage) : Except Error Storage := do
  require (sequence ≤ validUntilLedger) .expired
  require (s.quote quoteHash = none) .quoteExists
  return { s with
    quote := Function.update s.quote quoteHash (some ⟨solverId, validUntilLedger⟩)
    events := s.events ++ [.quote quoteHash] }

/-- `accept_quote`, at a ledger. -/
def acceptQuote (sequence : ℕ) (intentHash quoteHash userSignatureHash : Bytes32) (s : Storage) :
    Except Error Storage := do
  let intent ← unwrap (s.intent intentHash)
  let quote ← unwrap (s.quote quoteHash)
  require (sequence ≤ intent.expiryLedger ∧ sequence ≤ quote.validUntilLedger) .expired
  require (s.accepted intentHash = none) .alreadyAccepted
  return { s with
    accepted := Function.update s.accepted intentHash (some (quoteHash, userSignatureHash))
    events := s.events ++ [.accept intentHash quoteHash] }

/-- `lock_solver_inventory`: a later lock replaces an earlier one. -/
def lockSolverInventory (quoteHash lockHash : Bytes32) (s : Storage) : Except Error Storage := do
  require (s.quote quoteHash ≠ none) .quoteMissing
  return { s with
    lock := Function.update s.lock quoteHash (some lockHash)
    events := s.events ++ [.lock quoteHash lockHash] }

/-- `mark_failed_recoverable`, of any hash. -/
def markFailedRecoverable (intentHash reasonHash : Bytes32) (s : Storage) :
    Except Error Storage :=
  return { s with
    failed := Function.update s.failed intentHash (some reasonHash)
    events := s.events ++ [.fail intentHash reasonHash] }

/-! ## Runs -/

/-- The entry points. -/
inductive Call where
  | escrowInitialize (admin vault nullifierRegistry : Address)
  | registerIntent (intentHash : Bytes32) (expiryLedger : ℕ) (policyId intentCommitment : Bytes32)
  | registerQuote (quoteHash : Bytes32) (solverId : String) (validUntilLedger : ℕ)
  | acceptQuote (intentHash quoteHash userSignatureHash : Bytes32)
  | lockSolverInventory (quoteHash lockHash : Bytes32)
  | markFailedRecoverable (intentHash reasonHash : Bytes32)
deriving DecidableEq

/-- A call, the ledger it is in and the accounts that authorized it. -/
structure Invocation where
  sequence : ℕ
  auth : Address → Bool
  call : Call

/-- Run a call. -/
def Invocation.invoke (v : Invocation) (s : Storage) : Except Error Storage :=
  match v.call with
  | .escrowInitialize a vault r => escrowInitialize v.auth a vault r s
  | .registerIntent i e p c => registerIntent i e p c s
  | .registerQuote q id u => registerQuote v.sequence q id u s
  | .acceptQuote i q sig => acceptQuote v.sequence i q sig s
  | .lockSolverInventory q l => lockSolverInventory q l s
  | .markFailedRecoverable i r => markFailedRecoverable i r s

/-- A call that fails leaves nothing behind. -/
def step (s : Storage) (v : Invocation) : Storage :=
  match v.invoke s with
  | .ok s' => s'
  | .error _ => s

/-- The calls of a run, from before `initialize`. -/
def run (vs : List Invocation) : Storage := vs.foldl step .empty

/-! ## What a call does -/

/-- An intent has no accepted quote, and neither it nor the quote has expired. -/
def Acceptable (s : Storage) (sequence : ℕ) (intentHash quoteHash : Bytes32) : Prop :=
  s.accepted intentHash = none ∧
    ∃ intent quote, s.intent intentHash = some intent ∧ s.quote quoteHash = some quote ∧
      sequence ≤ intent.expiryLedger ∧ sequence ≤ quote.validUntilLedger

/-- When a call succeeds, and what it writes. -/
def Invocation.Does (v : Invocation) (s s' : Storage) : Prop :=
  match v.call with
  | .escrowInitialize a vault r =>
      s.admin = none ∧ v.auth a = true ∧
        s' = { s with admin := some a, vault := some vault, nullifiers := some r }
  | .registerIntent i e p c =>
      s.intent i = none ∧ s' = { s with
        intent := Function.update s.intent i (some ⟨e, p, c⟩)
        events := s.events ++ [.intent i] }
  | .registerQuote q id u =>
      v.sequence ≤ u ∧ s.quote q = none ∧ s' = { s with
        quote := Function.update s.quote q (some ⟨id, u⟩)
        events := s.events ++ [.quote q] }
  | .acceptQuote i q sig =>
      Acceptable s v.sequence i q ∧ s' = { s with
        accepted := Function.update s.accepted i (some (q, sig))
        events := s.events ++ [.accept i q] }
  | .lockSolverInventory q l =>
      s.quote q ≠ none ∧ s' = { s with
        lock := Function.update s.lock q (some l)
        events := s.events ++ [.lock q l] }
  | .markFailedRecoverable i r =>
      s' = { s with
        failed := Function.update s.failed i (some r)
        events := s.events ++ [.fail i r] }

variable {s s' : Storage} {v : Invocation}

@[simp] theorem unwrap_eq_ok {α : Type} {o : Option α} {a : α} : unwrap o = .ok a ↔ o = some a := by
  cases o <;> simp [unwrap]

/-- An acceptable quote is accepted, and nothing else is touched. -/
theorem acceptQuote_eq_ok {n : ℕ} {i q sig : Bytes32} :
    acceptQuote n i q sig s = .ok s' ↔ Acceptable s n i q ∧ s' = { s with
      accepted := Function.update s.accepted i (some (q, sig))
      events := s.events ++ [.accept i q] } := by
  simp only [acceptQuote, bind_eq_ok, unwrap_eq_ok, require_eq_ok, exists_unit, pure_eq_ok,
    Acceptable]
  constructor
  · rintro ⟨intent, hi, quote, hq, ⟨hle, hle'⟩, hnone, rfl⟩
    exact ⟨⟨hnone, intent, quote, hi, hq, hle, hle'⟩, rfl⟩
  · rintro ⟨⟨hnone, intent, quote, hi, hq, hle, hle'⟩, rfl⟩
    exact ⟨intent, hi, quote, hq, ⟨hle, hle'⟩, hnone, rfl⟩

/-- A call goes through if and only if it does what it is for. -/
theorem invoke_eq_ok : v.invoke s = .ok s' ↔ v.Does s s' := by
  obtain ⟨n, auth, call⟩ := v
  cases call with
  | acceptQuote i q sig => exact acceptQuote_eq_ok
  | _ =>
      simp only [Invocation.invoke, Invocation.Does, escrowInitialize, registerIntent,
        registerQuote, lockSolverInventory, markFailedRecoverable, bind_eq_ok, require_eq_ok,
        exists_unit, pure_eq_ok, eq_comm (a := s')]

/-- What a call that goes through leaves. -/
theorem step_of_does (h : v.Does s s') : step s v = s' := by
  rw [step, invoke_eq_ok.2 h]

/-- A step does what its call does, or its call fails. -/
theorem step_cases (s : Storage) (v : Invocation) :
    (∀ s', ¬ v.Does s s') ∧ step s v = s ∨ v.Does s (step s v) := by
  unfold step
  split
  · next h => exact .inr (invoke_eq_ok.1 h)
  · next h =>
    refine .inl ⟨fun s' hs' => ?_, rfl⟩
    rw [invoke_eq_ok.2 hs'] at h
    cases h

/-! ## Records are written once -/

open WriteOnce

/-- The call registers this intent. -/
def Invocation.PutsIntent (v : Invocation) (i : Bytes32) (r : Intent) : Prop :=
  v.call = .registerIntent i r.expiryLedger r.policyId r.intentCommitment

/-- The call registers this quote, before it expires. -/
def Invocation.PutsQuote (v : Invocation) (q : Bytes32) (r : Quote) : Prop :=
  v.call = .registerQuote q r.solverId r.validUntilLedger ∧ v.sequence ≤ r.validUntilLedger

/-- The call accepts this quote for the intent, and may do so. -/
def Invocation.Accepts (v : Invocation) (s : Storage) (i : Bytes32) (r : Bytes32 × Bytes32) :
    Prop :=
  v.call = .acceptQuote i r.1 r.2 ∧ Acceptable s v.sequence i r.1

/-- The record of an intent is written by its registration only. -/
theorem intent_register (i : Bytes32) :
    Register step (fun s => s.intent i) fun _ v r => v.PutsIntent i r := by
  refine .of_map (m := Storage.intent) (fun s v => ?_) (fun {s v i r j t} h h' => ?_) i
  · obtain ⟨n, auth, call⟩ := v
    rcases step_cases s ⟨n, auth, call⟩ with ⟨hno, hs⟩ | hs
    · refine .inl ⟨by rw [hs], fun k r hput hnone => ?_⟩
      obtain rfl : call = _ := hput
      exact hno _ ⟨hnone, rfl⟩
    · cases call with
      | registerIntent j e p c => exact .inr ⟨j, ⟨e, p, c⟩, rfl, hs.1, by rw [hs.2]⟩
      | escrowInitialize a vault r => exact .inl ⟨by rw [hs.2.2], fun k r hput => by cases hput⟩
      | registerQuote q id u => exact .inl ⟨by rw [hs.2.2], fun k r hput => by cases hput⟩
      | acceptQuote j q sig => exact .inl ⟨by rw [hs.2], fun k r hput => by cases hput⟩
      | lockSolverInventory q l => exact .inl ⟨by rw [hs.2], fun k r hput => by cases hput⟩
      | markFailedRecoverable j r =>
          exact .inl ⟨by rw [show step s _ = _ from hs], fun k r hput => by cases hput⟩
  · have heq := h.symm.trans h'
    obtain ⟨e, p, c⟩ := r
    obtain ⟨e', p', c'⟩ := t
    simp_all

/-- The record of a quote is written by its registration only. -/
theorem quote_register (q : Bytes32) :
    Register step (fun s => s.quote q) fun _ v r => v.PutsQuote q r := by
  refine .of_map (m := Storage.quote) (fun s v => ?_) (fun {s v i r j t} h h' => ?_) q
  · obtain ⟨n, auth, call⟩ := v
    rcases step_cases s ⟨n, auth, call⟩ with ⟨hno, hs⟩ | hs
    · refine .inl ⟨by rw [hs], fun k r hput hnone => ?_⟩
      obtain ⟨hcall, hle⟩ := hput
      obtain rfl : call = _ := hcall
      exact hno _ ⟨hle, hnone, rfl⟩
    · cases call with
      | registerQuote j id u => exact .inr ⟨j, ⟨id, u⟩, ⟨rfl, hs.1⟩, hs.2.1, by rw [hs.2.2]⟩
      | escrowInitialize a vault r => exact .inl ⟨by rw [hs.2.2], fun k r hput => by cases hput.1⟩
      | registerIntent i e p c => exact .inl ⟨by rw [hs.2], fun k r hput => by cases hput.1⟩
      | acceptQuote j q sig => exact .inl ⟨by rw [hs.2], fun k r hput => by cases hput.1⟩
      | lockSolverInventory q l => exact .inl ⟨by rw [hs.2], fun k r hput => by cases hput.1⟩
      | markFailedRecoverable j r =>
          exact .inl ⟨by rw [show step s _ = _ from hs], fun k r hput => by cases hput.1⟩
  · have heq := h.1.symm.trans h'.1
    obtain ⟨id, u⟩ := r
    obtain ⟨id', u'⟩ := t
    simp_all

/-- The acceptance of an intent is written by an acceptance only. -/
theorem accepted_register (i : Bytes32) :
    Register step (fun s => s.accepted i) fun s v r => v.Accepts s i r := by
  refine .of_map (m := Storage.accepted) (fun s v => ?_) (fun {s v i r j t} h h' => ?_) i
  · obtain ⟨n, auth, call⟩ := v
    rcases step_cases s ⟨n, auth, call⟩ with ⟨hno, hs⟩ | hs
    · refine .inl ⟨by rw [hs], fun k r hput _ => ?_⟩
      obtain ⟨hcall, hacceptable⟩ := hput
      obtain rfl : call = _ := hcall
      exact hno _ ⟨hacceptable, rfl⟩
    · cases call with
      | acceptQuote j q sig =>
          exact .inr ⟨j, (q, sig), ⟨rfl, hs.1⟩, hs.1.1, by rw [hs.2]⟩
      | escrowInitialize a vault r => exact .inl ⟨by rw [hs.2.2], fun k r hput => by cases hput.1⟩
      | registerIntent i e p c => exact .inl ⟨by rw [hs.2], fun k r hput => by cases hput.1⟩
      | registerQuote q id u => exact .inl ⟨by rw [hs.2.2], fun k r hput => by cases hput.1⟩
      | lockSolverInventory q l => exact .inl ⟨by rw [hs.2], fun k r hput => by cases hput.1⟩
      | markFailedRecoverable j r =>
          exact .inl ⟨by rw [show step s _ = _ from hs], fun k r hput => by cases hput.1⟩
  · have heq := h.1.symm.trans h'.1
    obtain ⟨q, sig⟩ := r
    obtain ⟨q', sig'⟩ := t
    simp_all

/-! ## The events tell the storage -/

/-- The quote that an event accepts for the intent. -/
def Event.acceptOf (intentHash : Bytes32) : Event → Option Bytes32
  | .accept i q => if i = intentHash then some q else none
  | _ => none

/-- The lock that an event is of, for the quote. -/
def Event.lockOf (quoteHash : Bytes32) : Event → Option Bytes32
  | .lock q l => if q = quoteHash then some l else none
  | _ => none

/-- The reason that an event gives, for the intent. -/
def Event.failOf (intentHash : Bytes32) : Event → Option Bytes32
  | .fail i r => if i = intentHash then some r else none
  | _ => none

/-- The storage as far as the events tell it: which intents and quotes there are, each registered
once; the one quote accepted for each intent; the last lock and the last failure. -/
structure Storage.Logged (s : Storage) : Prop where
  intents : ∀ i, s.events.count (.intent i) = if s.intent i = none then 0 else 1
  quotes : ∀ q, s.events.count (.quote q) = if s.quote q = none then 0 else 1
  accepts : ∀ i, s.events.filterMap (Event.acceptOf i) = ((s.accepted i).map Prod.fst).toList
  locks : ∀ q, (s.events.filterMap (Event.lockOf q)).getLast? = s.lock q
  fails : ∀ i, (s.events.filterMap (Event.failOf i)).getLast? = s.failed i

/-- The log of a call. -/
theorem Storage.Logged.step (h : s.Logged) (v : Invocation) :
    (IntentEscrow.step s v).Logged := by
  obtain ⟨n, auth, call⟩ := v
  rcases step_cases s ⟨n, auth, call⟩ with ⟨-, hs⟩ | hs
  · rwa [hs]
  obtain ⟨hintents, hquotes, haccepts, hlocks, hfails⟩ := h
  cases call with
  | escrowInitialize a vault r =>
      rw [hs.2.2]
      exact ⟨hintents, hquotes, haccepts, hlocks, hfails⟩
  | registerIntent j e p c =>
      obtain ⟨hnone, hs⟩ := hs
      rw [hs]
      refine ⟨fun i => ?_, fun q => ?_, fun i => ?_, fun q => ?_, fun i => ?_⟩
      · rcases eq_or_ne i j with rfl | hne
        · simp [hintents, hnone]
        · simp [hintents, hne, hne.symm]
      · simp [hquotes]
      · simp [haccepts, Event.acceptOf]
      · simp [hlocks, Event.lockOf]
      · simp [hfails, Event.failOf]
  | registerQuote j id u =>
      obtain ⟨-, hnone, hs⟩ := hs
      rw [hs]
      refine ⟨fun i => ?_, fun q => ?_, fun i => ?_, fun q => ?_, fun i => ?_⟩
      · simp [hintents]
      · rcases eq_or_ne q j with rfl | hne
        · simp [hquotes, hnone]
        · simp [hquotes, hne, hne.symm]
      · simp [haccepts, Event.acceptOf]
      · simp [hlocks, Event.lockOf]
      · simp [hfails, Event.failOf]
  | acceptQuote j q sig =>
      obtain ⟨⟨hnone, -⟩, hs⟩ := hs
      rw [hs]
      refine ⟨fun i => ?_, fun q => ?_, fun i => ?_, fun q => ?_, fun i => ?_⟩
      · simp [hintents]
      · simp [hquotes]
      · rcases eq_or_ne i j with rfl | hne
        · simp [haccepts, hnone, Event.acceptOf]
        · simp [haccepts, hne, hne.symm, Event.acceptOf]
      · simp [hlocks, Event.lockOf]
      · simp [hfails, Event.failOf]
  | lockSolverInventory j l =>
      rw [hs.2]
      refine ⟨fun i => ?_, fun q => ?_, fun i => ?_, fun q => ?_, fun i => ?_⟩
      · simp [hintents]
      · simp [hquotes]
      · simp [haccepts, Event.acceptOf]
      · rcases eq_or_ne q j with rfl | hne
        · simp [Event.lockOf]
        · simp [hlocks, hne, hne.symm, Event.lockOf]
      · simp [hfails, Event.failOf]
  | markFailedRecoverable j r =>
      rw [show IntentEscrow.step s _ = _ from hs]
      refine ⟨fun i => ?_, fun q => ?_, fun i => ?_, fun q => ?_, fun i => ?_⟩
      · simp [hintents]
      · simp [hquotes]
      · simp [haccepts, Event.acceptOf]
      · simp [hlocks, Event.lockOf]
      · rcases eq_or_ne i j with rfl | hne
        · simp [Event.failOf]
        · simp [hfails, hne, hne.symm, Event.failOf]

/-- The log of a run. -/
theorem logged_run (vs : List Invocation) : (run vs).Logged := by
  have hempty : Storage.empty.Logged :=
    ⟨fun _ => rfl, fun _ => rfl, fun _ => rfl, fun _ => rfl, fun _ => rfl⟩
  unfold run
  induction vs using List.reverseRecOn with
  | nil => exact hempty
  | append_singleton vs v ih =>
      rw [List.foldl_append, List.foldl_cons, List.foldl_nil]
      exact ih.step v

/-! ## Nobody is asked -/

/-- The storage without what `initialize` writes. -/
def Storage.records (s : Storage) : Storage :=
  { s with admin := none, vault := none, nullifiers := none }

/-- The same call, authorized by nobody. -/
def Invocation.unauthorized (v : Invocation) : Invocation := { v with auth := fun _ => false }

/-- The records of a call do not depend on who authorized it. -/
theorem step_records (s : Storage) (v : Invocation) :
    (step s v).records = step s.records v.unauthorized := by
  obtain ⟨n, auth, call⟩ := v
  have hother := step_cases s.records (Invocation.unauthorized ⟨n, auth, call⟩)
  rcases step_cases s ⟨n, auth, call⟩ with ⟨hno, hs⟩ | hs
  · rcases hother with ⟨-, hs'⟩ | hs'
    · rw [hs, hs']
    · exfalso
      cases call with
      | escrowInitialize a vault r => exact Bool.false_ne_true hs'.2.1
      | registerIntent i e p c => exact hno _ ⟨hs'.1, rfl⟩
      | registerQuote q id u => exact hno _ ⟨hs'.1, hs'.2.1, rfl⟩
      | acceptQuote i q sig => exact hno _ ⟨hs'.1, rfl⟩
      | lockSolverInventory q l => exact hno _ ⟨hs'.1, rfl⟩
      | markFailedRecoverable i r => exact hno _ rfl
  · symm
    cases call with
    | escrowInitialize a vault r =>
        rcases hother with ⟨-, hs'⟩ | hs'
        · rw [hs', hs.2.2]
          rfl
        · exact absurd hs'.2.1 Bool.false_ne_true
    | registerIntent i e p c =>
        rw [hs.2]
        exact step_of_does ⟨hs.1, rfl⟩
    | registerQuote q id u =>
        rw [hs.2.2]
        exact step_of_does ⟨hs.1, hs.2.1, rfl⟩
    | acceptQuote i q sig =>
        rw [hs.2]
        exact step_of_does ⟨hs.1, rfl⟩
    | lockSolverInventory q l =>
        rw [hs.2]
        exact step_of_does ⟨hs.1, rfl⟩
    | markFailedRecoverable i r =>
        rw [show step s _ = _ from hs]
        exact step_of_does rfl

/-- The records of a run do not depend on who authorized its calls. -/
theorem records_run (vs : List Invocation) :
    (run vs).records = run (vs.map Invocation.unauthorized) := by
  unfold run
  induction vs using List.reverseRecOn with
  | nil => rfl
  | append_singleton vs v ih =>
      rw [List.map_append, List.map_singleton, List.foldl_append, List.foldl_append,
        List.foldl_cons, List.foldl_nil, List.foldl_cons, List.foldl_nil, step_records, ih]

/-- **What the escrow records.** In every run an intent or a quote is the one that was first
registered under its hash, and the quote accepted for an intent the one of the first call that
accepts, while both are registered and not expired, a quote for it; all of it stays as it is. The
events tell what is there, and it is what the same calls write when nobody authorizes them. -/
theorem escrow_of_run (vs : List Invocation) :
    (∀ i r, (run vs).intent i = some r ↔ ∃ before v after, vs = before ++ v :: after ∧
      (run before).intent i = none ∧ v.PutsIntent i r) ∧
    (∀ q r, (run vs).quote q = some r ↔ ∃ before v after, vs = before ++ v :: after ∧
      (run before).quote q = none ∧ v.PutsQuote q r) ∧
    (∀ i r, (run vs).accepted i = some r ↔ ∃ before v after, vs = before ++ v :: after ∧
      (run before).accepted i = none ∧ v.Accepts (run before) i r) ∧
    (run vs).Logged ∧ (run vs).records = run (vs.map Invocation.unauthorized) :=
  ⟨fun i _ => (intent_register i).foldl_iff rfl, fun q _ => (quote_register q).foldl_iff rfl,
    fun i _ => (accepted_register i).foldl_iff rfl, logged_run vs, records_run vs⟩

end ShadePay.Stellar.IntentEscrow
