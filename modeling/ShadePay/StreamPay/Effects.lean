import ShadePay.StreamPay.Basic

/-!
# What a stream call did

The inversion lemmas of the streaming contract: `Effect` lists what a message call that did not
revert can have done up to its first external call, `Refunded` the rest of `stop`, and `effect_of`,
`refunded_of` say that nothing else happens. `Stream.accruedAt` is what a stream has accrued at a
moment, and `Stream.ticked` what `_advance` writes.
-/

namespace ShadePay.StreamPay

open Guard Evm

@[simp] theorem checkedAdd_eq_ok {x y z : ℕ} : checkedAdd x y = .ok z ↔ x + y < 2 ^ 256 ∧ x + y = z := by
  simp [checkedAdd]

@[simp] theorem checkedSub_eq_ok {x y z : ℕ} : checkedSub x y = .ok z ↔ y ≤ x ∧ x - y = z := by
  simp [checkedSub]

@[simp] theorem checkedMul_eq_ok {x y z : ℕ} : checkedMul x y = .ok z ↔ x * y < 2 ^ 256 ∧ x * y = z := by
  simp [checkedMul]

/-! ## Accrual -/

namespace Stream

/-- Whether the stream accrues. -/
def live (st : Stream) : Bool := st.active && !st.closed

/-- The accrual of the stream at `now`, before the cap. -/
def uncapped (st : Stream) (now : ℕ) : ℕ := st.accrued + st.ratePerSecond * (now - st.lastTick)

/-- What the stream has accrued at `now`. -/
def accruedAt (st : Stream) (now : ℕ) : ℕ :=
  if st.live then min st.deposited (st.uncapped now) else st.accrued

/-- The checked arithmetic of an accrual goes through. -/
def Computes (st : Stream) (now : ℕ) : Prop :=
  st.live = true → st.lastTick ≤ now ∧ st.uncapped now < 2 ^ 256

/-- The stream that `_advance` writes. -/
def ticked (st : Stream) (now : ℕ) : Stream :=
  { st with accrued := st.accruedAt now, lastTick := uint64 now }

variable {st : Stream} {now : ℕ}

@[simp] theorem ticked_payer : (st.ticked now).payer = st.payer := rfl
@[simp] theorem ticked_payee : (st.ticked now).payee = st.payee := rfl
@[simp] theorem ticked_deposited : (st.ticked now).deposited = st.deposited := rfl
@[simp] theorem ticked_accrued : (st.ticked now).accrued = st.accruedAt now := rfl
@[simp] theorem ticked_withdrawn : (st.ticked now).withdrawn = st.withdrawn := rfl
@[simp] theorem ticked_closed : (st.ticked now).closed = st.closed := rfl

/-- A stream accrues upwards, and never past its deposit. -/
theorem accruedAt_bounds (now : ℕ) (h : st.accrued ≤ st.deposited) :
    st.accrued ≤ st.accruedAt now ∧ st.accruedAt now ≤ st.deposited := by
  rw [accruedAt]
  split
  · exact ⟨le_min h (by simp [uncapped]), min_le_left _ _⟩
  · exact ⟨le_rfl, h⟩

/-- What does not accrue stays. -/
theorem accruedAt_of_not_live (h : st.live = false) : st.accruedAt now = st.accrued := by
  simp [accruedAt, h]

end Stream

namespace State

variable {s s' : State} {st st' : Stream} {id : Id}

/-- The cap as the source writes it. -/
theorem cap_eq_min (d t : ℕ) : (if d < t then d else t) = min d t := by
  split <;> omega

/-- `_advance` writes the accrual of the moment. -/
theorem advance_eq_ok : s.advance st = .ok st' ↔
    st.Computes s.timestamp ∧ st' = st.ticked s.timestamp := by
  by_cases hl : st.live = true
  · have hl' : (st.active && !st.closed) = true := hl
    simp only [advance, hl', if_true, bind_eq_ok, checkedSub_eq_ok, checkedMul_eq_ok,
      checkedAdd_eq_ok, pure_eq_ok, cap_eq_min, Stream.Computes, hl, forall_const, Stream.ticked,
      Stream.accruedAt, Stream.uncapped]
    constructor
    · rintro ⟨_, ⟨h1, rfl⟩, _, ⟨-, rfl⟩, _, ⟨h3, rfl⟩, _, rfl, rfl⟩
      exact ⟨⟨h1, h3⟩, rfl⟩
    · rintro ⟨⟨h1, h3⟩, rfl⟩
      exact ⟨_, ⟨h1, rfl⟩, _, ⟨by omega, rfl⟩, _, ⟨h3, rfl⟩, _, rfl, rfl⟩
  · have hl' : (st.active && !st.closed) = false := by simpa [Stream.live] using hl
    simp [advance, hl', Stream.Computes, hl, Stream.ticked, Stream.accruedAt, @eq_comm _ st']

/-- `earned` reads the accrual of the moment, capped. -/
theorem earned_eq_ok {v : ℕ} : s.earned id = .ok v ↔
    (s.streams id).Computes s.timestamp ∧
      v = min (s.streams id).deposited ((s.streams id).accruedAt s.timestamp) := by
  generalize hst : s.streams id = st
  by_cases hl : st.live = true
  · have hl' : (st.active && !st.closed) = true := hl
    simp only [earned, hst, hl', if_true, bind_eq_ok, checkedSub_eq_ok, checkedMul_eq_ok,
      checkedAdd_eq_ok, pure_eq_ok, cap_eq_min, Stream.Computes, hl, forall_const,
      Stream.accruedAt, Stream.uncapped, ← min_assoc, min_self]
    constructor
    · rintro ⟨_, ⟨h1, rfl⟩, _, ⟨-, rfl⟩, _, ⟨h3, rfl⟩, rfl⟩
      exact ⟨⟨h1, h3⟩, rfl⟩
    · rintro ⟨⟨h1, h3⟩, rfl⟩
      exact ⟨_, ⟨h1, rfl⟩, _, ⟨by omega, rfl⟩, _, ⟨h3, rfl⟩, rfl⟩
  · have hl' : (st.active && !st.closed) = false := by simpa [Stream.live] using hl
    simp [earned, hst, hl', Stream.Computes, hl, Stream.accruedAt, cap_eq_min, @eq_comm _ v]

/-- The contract sends what it has, to another account. -/
@[simp] theorem send_eq_ok {addr a : Address} {amount : ℕ} {e : Sent} :
    s.send addr a amount e = .ok s' ↔ (amount ≤ s.balance ∧ a ≠ addr) ∧
      s' = { s with balance := s.balance - amount, sent := s.sent ++ [e] } := by
  simp [send, @eq_comm _ s', and_assoc]

end State

/-! ## Calls -/

/-- What `stop` does once the payee has been paid. -/
inductive Refunded (s : State) (id : Id) (toPayee : ℕ) : ℕ → State → Option Kont → Prop
  | send {refund} (hpos : 0 < refund) (hle : refund ≤ s.balance) : Refunded s id toPayee refund
      { s with
        balance := s.balance - refund
        sent := s.sent ++ [.refund id (s.streams id).payer refund] }
      (some (.stopRefunding id toPayee refund))
  | none : Refunded s id toPayee 0 (s.emit (.stopped id toPayee 0)) none

/-- The end of a stop refunds the payer. -/
theorem refunded_of {addr : Address} {s s' : State} {id : Id} {toPayee refund : ℕ} {ko : Option Kont}
    (h : s.stopRefund addr id toPayee refund = .ok (s', ko)) : Refunded s id toPayee refund s' ko := by
  unfold State.stopRefund at h
  split at h
  · next hpos =>
    simp only [bind_eq_ok, State.send_eq_ok, pure_eq_ok, Prod.mk.injEq] at h
    obtain ⟨_, ⟨⟨hle, -⟩, rfl⟩, rfl, rfl⟩ := h
    exact .send hpos hle
  · next hpos =>
    obtain rfl : refund = 0 := by omega
    simp only [pure_eq_ok, Prod.mk.injEq] at h
    obtain ⟨rfl, rfl⟩ := h
    exact .none

/-- The state in which `stop` has closed the stream and paid nobody yet. -/
def State.stopped (s : State) (id : Id) : State :=
  s.setStream id { (s.streams id).ticked s.timestamp with
    closed := true
    active := false
    withdrawn := (s.streams id).accruedAt s.timestamp }

/-- What a message call can have done, up to its first external call. -/
inductive Effect (s : State) : Call → State → Option Kont → Prop
  | open {id payer payee rate value} (hfresh : (s.streams id).payer = 0) (hpayer : payer ≠ 0) :
      Effect s (.open id payee rate)
        { s with
          balance := s.balance + value
          streams := Function.update s.streams id
            ⟨payer, payee, rate, value, 0, 0, uint64 s.timestamp, true, false⟩
          events := s.events ++ [(s.timestamp, .opened id payer payee rate value)] } none
  | withdraw {id amount} (hpayee : (s.streams id).payee ≠ 0)
      (hcomputes : (s.streams id).Computes s.timestamp)
      (hamount : (s.streams id).accruedAt s.timestamp = (s.streams id).withdrawn + amount)
      (hpos : 0 < amount) (hle : amount ≤ s.balance) :
      Effect s (.withdraw id)
        { s with
          balance := s.balance - amount
          streams := Function.update s.streams id { (s.streams id).ticked s.timestamp with
            withdrawn := (s.streams id).accruedAt s.timestamp }
          sent := s.sent ++ [.payout id (s.streams id).payee amount] }
        (some (.withdrawing id amount))
  | pause {id} (hpayer : (s.streams id).payer ≠ 0) (hlive : (s.streams id).live = true)
      (hcomputes : (s.streams id).Computes s.timestamp) :
      Effect s (.pause id)
        { s with
          streams := Function.update s.streams id
            { (s.streams id).ticked s.timestamp with active := false }
          events := s.events ++
            [(s.timestamp, .paused id ((s.streams id).accruedAt s.timestamp))] } none
  | resume {id} (hpayer : (s.streams id).payer ≠ 0) (hclosed : (s.streams id).closed = false)
      (hactive : (s.streams id).active = false) :
      Effect s (.resume id)
        { s with
          streams := Function.update s.streams id
            { s.streams id with active := true, lastTick := uint64 s.timestamp }
          events := s.events ++ [(s.timestamp, .resumed id)] } none
  | stopPay {id toPayee refund} (hpayer : (s.streams id).payer ≠ 0)
      (hclosed : (s.streams id).closed = false)
      (hcomputes : (s.streams id).Computes s.timestamp)
      (htoPayee : (s.streams id).accruedAt s.timestamp = (s.streams id).withdrawn + toPayee)
      (hrefund : (s.streams id).deposited = (s.streams id).accruedAt s.timestamp + refund)
      (hpos : 0 < toPayee) (hle : toPayee ≤ s.balance) :
      Effect s (.stop id)
        { s.stopped id with
          balance := s.balance - toPayee
          sent := s.sent ++ [.payout id (s.streams id).payee toPayee] }
        (some (.stopPaying id toPayee refund))
  | stop {id refund s' ko} (hpayer : (s.streams id).payer ≠ 0)
      (hclosed : (s.streams id).closed = false)
      (hcomputes : (s.streams id).Computes s.timestamp)
      (htoPayee : (s.streams id).accruedAt s.timestamp = (s.streams id).withdrawn)
      (hrefund : (s.streams id).deposited = (s.streams id).accruedAt s.timestamp + refund)
      (hrest : Refunded (s.stopped id) id 0 refund s' ko) : Effect s (.stop id) s' ko

/-- **Inversion.** -/
theorem effect_of {addr : Address} {e : Entry addr} {s s' : State} {ko : Option Kont}
    (h : enter e s = .ok (s', ko)) : Effect s e.call s' ko := by
  obtain ⟨sender, value, call, hzero, hself⟩ := e
  cases call with
  | «open» id payee rate =>
      simp only [enter, State.openStream, State.setStream, State.emit, bind_eq_ok, require_eq_ok,
        exists_unit, pure_eq_ok, Prod.mk.injEq] at h
      obtain ⟨_, ⟨hfresh, -, rfl⟩, rfl, rfl⟩ := h
      exact .open hfresh hzero
  | withdraw id =>
      simp only [enter, State.withdraw, State.setStream, bind_eq_ok, require_eq_ok, exists_unit,
        State.advance_eq_ok, checkedSub_eq_ok, checkedAdd_eq_ok, State.send_eq_ok, pure_eq_ok,
        Prod.mk.injEq] at h
      obtain ⟨-, hpayee, -, _, ⟨hc, rfl⟩, amount, ⟨hsub, ha⟩, hne, w, ⟨-, hw⟩, _, ⟨⟨hle, -⟩, e1⟩,
        e2, e3⟩ := h
      simp only [Stream.ticked_accrued, Stream.ticked_withdrawn, Stream.ticked_payee] at *
      have hfull : w = (s.streams id).accruedAt s.timestamp := by omega
      subst e1 e2 e3 hfull
      exact .withdraw hpayee hc (by omega) (by omega) hle
  | pause id =>
      simp only [enter, State.pause, State.setStream, State.emit, bind_eq_ok, require_eq_ok,
        exists_unit, State.advance_eq_ok, pure_eq_ok, Prod.mk.injEq] at h
      obtain ⟨-, _, ⟨rfl, ⟨ha, hcl⟩, _, ⟨hc, rfl⟩, rfl⟩, rfl, rfl⟩ := h
      exact .pause hzero (by simp [Stream.live, ha, hcl]) hc
  | resume id =>
      simp only [enter, State.resume, State.setStream, State.emit, bind_eq_ok, require_eq_ok,
        exists_unit, pure_eq_ok, Prod.mk.injEq] at h
      obtain ⟨-, _, ⟨rfl, ⟨hcl, ha⟩, rfl⟩, rfl, rfl⟩ := h
      exact .resume hzero hcl ha
  | stop id =>
      simp only [enter, State.stop, bind_eq_ok, require_eq_ok, exists_unit, State.advance_eq_ok,
        checkedSub_eq_ok] at h
      obtain ⟨-, rfl, hcl, _, ⟨hc, rfl⟩, toPayee, ⟨hsub, ha⟩, refund, ⟨hsub', hr⟩, h⟩ := h
      simp only [Stream.ticked_accrued, Stream.ticked_withdrawn, Stream.ticked_deposited] at *
      split at h
      · next hpos =>
        simp only [bind_eq_ok, State.send_eq_ok, pure_eq_ok, Prod.mk.injEq] at h
        obtain ⟨_, ⟨⟨hle, -⟩, rfl⟩, rfl, rfl⟩ := h
        exact .stopPay hzero hcl hc (by omega) (by omega) hpos hle
      · next hpos =>
        obtain rfl : toPayee = 0 := by omega
        exact .stop hzero hcl hc (by omega) (by omega) (refunded_of h)

end ShadePay.StreamPay
