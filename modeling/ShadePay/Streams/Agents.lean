import ShadePay.Field
import ShadePay.Lib.Guard
import ShadePay.Lib.Interleave
import ShadePay.Lib.Number

/-!
# The agents of a payment stream

`packages/sdk/src/agents.ts` over `streams.ts`: a `PayerAgent` signs vouchers of growing amounts, a
`PayeeAgent` verifies what it receives and keeps the highest. Both are asynchronous. `pay` changes the
agent before its first `await`, so that it is one step; `receive` gives way while the signature is
verified, and is two. `Exchange.act` is the program that any number of concurrent calls run: the network
between the agents is in the argument of a `receive`, which may be any voucher at all.
-/

namespace ShadePay.Streams

open Guard

/-- What the agents throw. -/
inductive AgentError where
  /-- `budget cannot exceed channel cap`. -/
  | budgetExceedsCap
  /-- `payer agent is paused (service degraded); resume to continue paying`. -/
  | paused
  /-- `units must be positive`. -/
  | notPositive
  /-- `payment ... exceeds budget ...`. -/
  | exceedsBudget (next budget : ℤ)
  /-- `payment ... exceeds channel cap ...`. -/
  | exceedsCap (next cap : ℤ)
  /-- `RangeError`, from `BigInt` of a number that is not whole. -/
  | notWhole
deriving DecidableEq

/-! ## Vouchers -/

/-- `EddsaKeypair`. -/
structure EddsaKeypair where
  prvKey : List UInt8
  Ax : ℤ
  Ay : ℤ

/-- `Voucher`. -/
structure Voucher where
  channelId : ℤ
  cumulative : ℤ
  seq : Number
  R8x : ℤ
  R8y : ℤ
  S : ℤ
  Ax : ℤ
  Ay : ℤ

/-- What `circomlibjs` provides: the Poseidon hash and signatures over Baby Jubjub. -/
structure Circomlib where
  poseidon : List Bn254 → Bn254
  /-- The coordinates of `R8`, and `S`. -/
  signPoseidon : List UInt8 → Bn254 → ℤ × ℤ × ℤ
  verifyPoseidon : Bn254 → (Bn254 × Bn254) × ℤ → Bn254 × Bn254 → Bool

/-- `BigInt(x)`. -/
def bigInt : Number → Except AgentError ℤ
  | .finite x => if x.val.den = 1 then .ok x.val.num else .error .notWhole
  | _ => .error .notWhole

/-- What `poseidon` is applied to, each number reduced to the field. -/
def messageFields (channelId cumulative : ℤ) (seq : Number) : Except AgentError (List Bn254) := do
  let n ← bigInt seq
  return [(channelId : Bn254), (cumulative : Bn254), (n : Bn254)]

section
variable (C : Circomlib)

/-- `voucherMessage`. -/
def voucherMessage (channelId cumulative : ℤ) (seq : Number) : Except AgentError Bn254 :=
  C.poseidon <$> messageFields channelId cumulative seq

/-- `signVoucher`. -/
def signVoucher (key : EddsaKeypair) (channelId cumulative : ℤ) (seq : Number) :
    Except AgentError Voucher := do
  let msg ← voucherMessage C channelId cumulative seq
  let sig := C.signPoseidon key.prvKey msg
  return ⟨channelId, cumulative, seq, sig.1, sig.2.1, sig.2.2, key.Ax, key.Ay⟩

/-- `verifyVoucher`. -/
def verifyVoucher (v : Voucher) : Except AgentError Bool := do
  let msg ← voucherMessage C v.channelId v.cumulative v.seq
  return C.verifyPoseidon msg ((v.R8x, v.R8y), v.S) (v.Ax, v.Ay)

end

/-- The loop body of `highestVoucher`. -/
def keepHigher (best : Option Voucher) (v : Voucher) : Option Voucher :=
  match best with
  | none => some v
  | some b => if b.cumulative < v.cumulative then some v else some b

/-- `highestVoucher`. -/
def highestVoucher (vouchers : List Voucher) : Option Voucher := vouchers.foldl keepHigher none

/-! ## The payer -/

/-- `PayerAgentConfig`. -/
structure PayerAgentConfig where
  key : EddsaKeypair
  channelId : ℤ
  cap : ℤ
  ratePerUnit : ℤ
  budget : ℤ

/-- `PayerAgent`. -/
structure PayerAgent where
  cfg : PayerAgentConfig
  cumulative : ℤ
  seq : Number
  paused : Bool

namespace PayerAgent

/-- The constructor. -/
def new (cfg : PayerAgentConfig) : Except AgentError PayerAgent := do
  require (cfg.budget ≤ cfg.cap) .budgetExceedsCap
  return ⟨cfg, 0, (0 : ℕ), false⟩

/-- The checks of `pay`, and the new cumulative amount. -/
def authorize (p : PayerAgent) (units : ℤ) : Except AgentError ℤ := do
  require (p.paused = false) .paused
  require (0 < units) .notPositive
  let next := p.cumulative + p.cfg.ratePerUnit * units
  require (next ≤ p.cfg.budget) (.exceedsBudget next p.cfg.budget)
  require (next ≤ p.cfg.cap) (.exceedsCap next p.cfg.cap)
  return next

/-- `pay`: the voucher that the returned promise gives, and the agent after the call. -/
def pay (C : Circomlib) (p : PayerAgent) (units : ℤ) : Except AgentError Voucher × PayerAgent :=
  match p.authorize units with
  | .error e => (.error e, p)
  | .ok next =>
      let p' := { p with cumulative := next, seq := p.seq.add (1 : ℕ) }
      (signVoucher C p'.cfg.key p'.cfg.channelId p'.cumulative p'.seq, p')

/-- `spent`. -/
def spent (p : PayerAgent) : ℤ := p.cumulative

end PayerAgent

/-! ## The payee -/

/-- `PayeeAgentConfig`. -/
structure PayeeAgentConfig where
  payerAx : ℤ
  payerAy : ℤ
  channelId : ℤ
  cap : ℤ
  ratePerUnit : ℤ

/-- `ReceiveResult`. -/
structure ReceiveResult where
  accepted : Bool
  reason : Option String
deriving DecidableEq

/-- `PayeeAgent`. -/
structure PayeeAgent where
  cfg : PayeeAgentConfig
  best : Option Voucher
  unitsServed : ℤ

namespace PayeeAgent

/-- The constructor. -/
def new (cfg : PayeeAgentConfig) : PayeeAgent := ⟨cfg, none, 0⟩

/-- `receive` up to its `await`: the result when it returns before. -/
def receive (p : PayeeAgent) (voucher : Voucher) (totalUnitsServed : ℤ) :
    PayeeAgent × Option ReceiveResult :=
  let p' := { p with unitsServed := totalUnitsServed }
  if voucher.channelId ≠ p.cfg.channelId then (p', some ⟨false, "wrong channel"⟩)
  else if voucher.Ax ≠ p.cfg.payerAx ∨ voucher.Ay ≠ p.cfg.payerAy then
    (p', some ⟨false, "voucher not signed by channel payer"⟩)
  else (p', none)

/-- `receive` from the verified signature on. -/
def received (C : Circomlib) (p : PayeeAgent) (voucher : Voucher) (totalUnitsServed : ℤ) :
    PayeeAgent × Except AgentError ReceiveResult :=
  match verifyVoucher C voucher with
  | .error e => (p, .error e)
  | .ok false => (p, .ok ⟨false, "invalid signature"⟩)
  | .ok true =>
      let owed := p.cfg.ratePerUnit * totalUnitsServed
      if p.cfg.cap < voucher.cumulative then (p, .ok ⟨false, "voucher exceeds cap"⟩)
      else if voucher.cumulative < owed then
        (p, .ok ⟨false, "underpaid: " ++ toString voucher.cumulative ++ " < owed " ++ toString owed⟩)
      else match p.best with
        | none => ({ p with best := voucher }, .ok ⟨true, none⟩)
        | some b =>
            if voucher.cumulative ≤ b.cumulative then (p, .ok ⟨true, "stale (kept current best)"⟩)
            else ({ p with best := voucher }, .ok ⟨true, none⟩)

/-- `isUnderpaid`. -/
def isUnderpaid (p : PayeeAgent) : Bool :=
  decide ((p.best.map Voucher.cumulative).getD 0 < p.cfg.ratePerUnit * p.unitsServed)

end PayeeAgent

/-! ## The exchange -/

/-- The two agents, with a record of the vouchers that were signed and accepted and of the totals that
were reported, each in the order it came about. -/
structure Exchange where
  payer : PayerAgent
  payee : PayeeAgent
  signed : List Voucher
  accepted : List Voucher
  reported : List ℤ

/-- What happens next. -/
inductive Act where
  /-- `payer.pay(units)`. -/
  | pay (units : ℤ)
  /-- `payer.pause()`. -/
  | pause
  /-- `payer.resume()`. -/
  | resume
  /-- `payee.receive(voucher, totalUnitsServed)`, with a voucher off the network. -/
  | receive (voucher : Voucher) (totalUnitsServed : ℤ)
  /-- The awaited verification of a `receive` is over. -/
  | verified

/-- A call that waits for the verification of its voucher. -/
abbrev Waiting : Type := Voucher × ℤ

namespace Exchange

/-- The exchange of two new agents. -/
def start (payer : PayerAgent) (cfg : PayeeAgentConfig) : Exchange :=
  ⟨payer, .new cfg, [], [], []⟩

/-- One step of one call: of a new one, or of a `receive` that waits. -/
def act (C : Circomlib) (l : Option Waiting) (d : Exchange) (a : Act) :
    Option (Exchange × Option Waiting) :=
  match l, a with
  | none, .pay units =>
      match d.payer.pay C units with
      | (.ok v, payer) => some ({ d with payer := payer, signed := d.signed ++ [v] }, none)
      | (.error _, payer) => some ({ d with payer := payer }, none)
  | none, .pause => some ({ d with payer := { d.payer with paused := true } }, none)
  | none, .resume => some ({ d with payer := { d.payer with paused := false } }, none)
  | none, .receive v total =>
      let d' := { d with reported := d.reported ++ [total] }
      match d.payee.receive v total with
      | (payee, some _) => some ({ d' with payee := payee }, none)
      | (payee, none) => some ({ d' with payee := payee }, some (v, total))
  | some (v, total), .verified =>
      match d.payee.received C v total with
      | (payee, .ok ⟨true, _⟩) =>
          some ({ d with payee := payee, accepted := d.accepted ++ [v] }, none)
      | (payee, _) => some ({ d with payee := payee }, none)
  | _, _ => none

end Exchange

/-! ## What the functions do -/

section
variable {C : Circomlib} {channelId cumulative : ℤ} {seq : Number} {fields : List Bn254}

/-- A safe integer is converted to itself. -/
theorem bigInt_natCast {n : ℕ} (h : n ≤ 2 ^ 53) : bigInt (n : Number) = .ok n := by
  obtain ⟨x, hx, hxn⟩ := Number.ofRat_natCast h
  rw [hx, bigInt, hxn, if_pos (Rat.den_natCast n), Rat.num_natCast]

/-- The fields of a message are the channel, the total and the integer that the sequence number
stands for. -/
theorem messageFields_eq_ok (h : messageFields channelId cumulative seq = .ok fields) :
    ∃ n : ℤ, fields = [(channelId : Bn254), (cumulative : Bn254), (n : Bn254)] := by
  obtain ⟨n, -, hn⟩ := bind_eq_ok.1 h
  exact ⟨n, (pure_eq_ok.1 hn).symm⟩

/-- A message is the hash of its fields. -/
theorem voucherMessage_eq_ok {msg : Bn254} (h : voucherMessage C channelId cumulative seq = .ok msg) :
    ∃ fields, messageFields channelId cumulative seq = .ok fields ∧ C.poseidon fields = msg :=
  map_eq_ok.1 h

/-- A signed voucher has the values it was asked for, and they have a message. -/
theorem signVoucher_eq_ok {key : EddsaKeypair} {v : Voucher}
    (h : signVoucher C key channelId cumulative seq = .ok v) :
    v.channelId = channelId ∧ v.cumulative = cumulative ∧ v.seq = seq ∧
      ∃ msg, voucherMessage C channelId cumulative seq = .ok msg := by
  obtain ⟨msg, hmsg, hv⟩ := bind_eq_ok.1 h
  obtain rfl := pure_eq_ok.1 hv
  exact ⟨rfl, rfl, rfl, msg, hmsg⟩

/-- Verification returns only for values that have a message. -/
theorem verifyVoucher_eq_ok {v : Voucher} {r : Bool} (h : verifyVoucher C v = .ok r) :
    ∃ msg, voucherMessage C v.channelId v.cumulative v.seq = .ok msg := by
  obtain ⟨msg, hmsg, -⟩ := bind_eq_ok.1 h
  exact ⟨msg, hmsg⟩

/-- The highest voucher of a longer list. -/
theorem highestVoucher_append (l : List Voucher) (v : Voucher) :
    highestVoucher (l ++ [v]) = keepHigher (highestVoucher l) v := by
  rw [highestVoucher, List.foldl_append]
  rfl

/-- The highest voucher is one with the greatest amount. -/
theorem highestVoucher_spec (l : List Voucher) :
    (highestVoucher l = none → l = []) ∧
      ∀ b, highestVoucher l = some b → b ∈ l ∧ ∀ v ∈ l, v.cumulative ≤ b.cumulative := by
  induction l using List.reverseRecOn with
  | nil => exact ⟨fun _ => rfl, fun b hb => by cases hb⟩
  | append_singleton l v ih =>
      obtain ⟨hnone, hsome⟩ := ih
      rw [highestVoucher_append]
      cases hl : highestVoucher l with
      | none =>
          rw [hnone hl]
          refine ⟨(by cases ·), fun b hb => ?_⟩
          obtain rfl : v = b := Option.some.inj hb
          simp
      | some c =>
          obtain ⟨hc, hle⟩ := hsome c hl
          simp only [keepHigher]
          split
          · next hlt =>
            refine ⟨(by cases ·), fun b hb => ?_⟩
            obtain rfl : v = b := Option.some.inj hb
            refine ⟨by simp, fun u hu => ?_⟩
            rcases List.mem_append.1 hu with hu | hu
            · exact (hle u hu).trans hlt.le
            · rw [List.mem_singleton.1 hu]
          · next hge =>
            refine ⟨(by cases ·), fun b hb => ?_⟩
            obtain rfl : c = b := Option.some.inj hb
            refine ⟨List.mem_append_left _ hc, fun u hu => ?_⟩
            rcases List.mem_append.1 hu with hu | hu
            · exact hle u hu
            · rw [List.mem_singleton.1 hu]
              exact not_lt.1 hge

end

section
variable {C : Circomlib} {p : PayerAgent} {units next : ℤ}

/-- What is authorized is within the budget. -/
theorem PayerAgent.authorize_eq_ok (h : p.authorize units = .ok next) :
    0 < units ∧ next = p.cumulative + p.cfg.ratePerUnit * units ∧ next ≤ p.cfg.budget := by
  simp only [PayerAgent.authorize, bind_eq_ok, require_eq_ok, exists_unit, pure_eq_ok] at h
  obtain ⟨-, hunits, hbudget, -, rfl⟩ := h
  exact ⟨hunits, rfl, hbudget⟩

/-- A payment within budget and cap is authorized while the agent is not paused. -/
theorem PayerAgent.authorize_of (hpaused : p.paused = false) (hunits : 0 < units)
    (hnext : next = p.cumulative + p.cfg.ratePerUnit * units) (hbudget : next ≤ p.cfg.budget)
    (hcap : next ≤ p.cfg.cap) : p.authorize units = .ok next := by
  subst hnext
  simp only [PayerAgent.authorize, require_of hpaused, require_of hunits, require_of hbudget,
    require_of hcap, ok_bind]
  rfl

/-- An agent starts with a budget within the cap, and with nothing paid. -/
theorem PayerAgent.new_eq_ok {cfg : PayerAgentConfig} (h : PayerAgent.new cfg = .ok p) :
    cfg.budget ≤ cfg.cap ∧ p = ⟨cfg, 0, (0 : ℕ), false⟩ := by
  simp only [PayerAgent.new, bind_eq_ok, require_eq_ok, exists_unit, pure_eq_ok] at h
  exact ⟨h.1, h.2.symm⟩

end

section
variable {C : Circomlib} {p : PayeeAgent} {v : Voucher} {total : ℤ}

/-- A call that waits has found its channel and its key on the voucher. -/
theorem PayeeAgent.receive_waits (h : (p.receive v total).2 = none) :
    v.channelId = p.cfg.channelId ∧ v.Ax = p.cfg.payerAx ∧ v.Ay = p.cfg.payerAy := by
  unfold PayeeAgent.receive at h
  split at h
  · cases h
  · next hchannel =>
    split at h
    · cases h
    · next hkey =>
      push Not at hchannel hkey
      exact ⟨hchannel, hkey⟩

/-- A call records its total of units, whatever becomes of the voucher. -/
@[simp] theorem PayeeAgent.receive_fst :
    (p.receive v total).1 = { p with unitsServed := total } := by
  unfold PayeeAgent.receive
  split
  · rfl
  · split <;> rfl

/-- What an accepted voucher satisfies, and that the higher one is kept. -/
theorem PayeeAgent.received_accepts {reason : Option String}
    (h : (p.received C v total).2 = .ok ⟨true, reason⟩) :
    verifyVoucher C v = .ok true ∧ v.cumulative ≤ p.cfg.cap ∧
      p.cfg.ratePerUnit * total ≤ v.cumulative ∧
      (p.received C v total).1 = { p with best := keepHigher p.best v } := by
  unfold PayeeAgent.received at h ⊢
  cases hverify : verifyVoucher C v with
  | error e =>
      rw [hverify] at h
      cases h
  | ok r =>
      rw [hverify] at h
      cases r with
      | false => cases h
      | true =>
          simp only at h ⊢
          split at h
          · cases h
          · next hcap =>
            split at h
            · cases h
            · next howed =>
              refine ⟨trivial, not_lt.1 hcap, not_lt.1 howed, ?_⟩
              rw [if_neg hcap, if_neg howed]
              cases hbest : p.best with
              | none => rfl
              | some b =>
                  by_cases hle : v.cumulative ≤ b.cumulative
                  · simp only [keepHigher, if_pos hle, if_neg (not_lt.2 hle), ← hbest]
                  · simp only [keepHigher, if_neg hle, if_pos (not_le.1 hle)]

/-- A voucher that is not accepted leaves the agent as it was. -/
theorem PayeeAgent.received_rejects
    (h : ∀ reason, (p.received C v total).2 ≠ .ok ⟨true, reason⟩) :
    (p.received C v total).1 = p := by
  unfold PayeeAgent.received at h ⊢
  cases hverify : verifyVoucher C v with
  | error e => rfl
  | ok r =>
      rw [hverify] at h
      cases r with
      | false => rfl
      | true =>
          simp only at h ⊢
          by_cases hcap : p.cfg.cap < v.cumulative
          · rw [if_pos hcap]
          · rw [if_neg hcap] at h ⊢
            by_cases howed : v.cumulative < p.cfg.ratePerUnit * total
            · rw [if_pos howed]
            · rw [if_neg howed] at h ⊢
              cases hbest : p.best with
              | none =>
                  simp only [hbest] at h
                  exact absurd rfl (h none)
              | some b =>
                  simp only [hbest] at h
                  split at h
                  · exact absurd rfl (h _)
                  · exact absurd rfl (h none)

end

end ShadePay.Streams
