import ShadePay.StreamPay.Conservation

/-!
# Stopping a stream

Whether the payer can stop a stream. `stop` computes the accrual of the moment with checked
arithmetic before it caps it, and pays the payee before it refunds the payer, so it fails when the
product overflows and when the payee refuses what it is owed. Nothing else stands in the way:
`stop_succeeds_iff`.
-/

namespace ShadePay.StreamPay

open Guard Evm Reentrancy

section
variable {addr : Address}

/-! ## The clock -/

/-- No stream was advanced in the future. -/
def Ticked (s : State) : Prop := ∀ i, (s.streams i).lastTick ≤ s.timestamp

theorem uint64_le (x : ℕ) : uint64 x ≤ x := Nat.mod_le _ _

/-- A stream may be written if it was ticked now. -/
theorem Ticked.update {s s' : State} (h : Ticked s) {i : Id} {st : Stream}
    (hstreams : s'.streams = Function.update s.streams i st) (htime : s'.timestamp = s.timestamp)
    (hst : st.lastTick = uint64 s.timestamp) : Ticked s' := by
  intro j
  rw [hstreams, htime]
  by_cases hj : j = i
  · rw [hj, Function.update_self, hst]
    exact uint64_le _
  · rw [Function.update_of_ne hj]
    exact h j

/-- A refund ticks nothing. -/
theorem Ticked.refund {s s' : State} {id : Id} {t r : ℕ} {ko : Option Kont} (h : Ticked s)
    (hr : Refunded s id t r s' ko) : Ticked s' := by
  cases hr <;> exact h

/-- Every call leaves the streams ticked in the past. -/
theorem Ticked.effect {s s' : State} {c : Call} {ko : Option Kont} (h : Ticked s)
    (he : Effect s c s' ko) : Ticked s' := by
  cases he with
  | stop _ _ _ _ _ hrest => exact (h.update rfl rfl rfl : Ticked (s.stopped _)).refund hrest
  | _ => exact h.update rfl rfl rfl

/-- Going on after a payment leaves the streams ticked in the past. -/
theorem Ticked.proceed {s s' : State} {k : Kont} {ko : Option Kont} (h : Ticked s)
    (hr : proceed addr k s = .ok (s', ko)) : Ticked s' := by
  cases k with
  | withdrawing id a =>
      cases hr
      exact h
  | stopPaying id t r => exact h.refund (refunded_of hr)
  | stopRefunding id t r =>
      cases hr
      exact h

/-- **Invariant.** No stream was ticked in the future. -/
theorem preserves_ticked (addr : Address) :
    Preserves (machine addr) fun _ (w : World State (Entry addr) Kont) => Ticked w.1 where
  enter_done h he := Ticked.effect h (effect_of (toOption_eq_some he))
  enter h he := Ticked.effect h (effect_of (toOption_eq_some he))
  resume_done h hr := Ticked.proceed h (toOption_eq_some hr)
  resume h hr := Ticked.proceed h (toOption_eq_some hr)
  act := by
    intro K s tr a s' h ha
    cases a with
    | wait n =>
        simp only [machine] at ha
        split at ha
        · cases ha
          exact fun i => (h i).trans (Nat.le_add_right _ _)
        · cases ha
    | receive n =>
        cases ha
        exact h

/-! ## A stopped stream -/

/-- Nothing changes a stopped stream, not even the rest of its own `stop`. -/
theorem preserves_closed (addr : Address) {i : Id} {st : Stream} (hclosed : st.closed = true) (hpayer : st.payer ≠ 0)
    (hsettled : st.withdrawn = st.accrued) :
    Preserves (machine addr) fun _ (w : World State (Entry addr) Kont) => w.1.streams i = st := by
  have heffect : ∀ {s s' c ko}, s.streams i = st → Effect s c s' ko → s'.streams i = st := by
    rintro s s' c ko rfl he
    exact (he.frame (he.id_ne hclosed hpayer hsettled)).1
  have hproceed : ∀ {s s' k ko}, s.streams i = st → proceed addr k s = .ok (s', ko) →
      s'.streams i = st := by
    intro s s' k ko h hr
    rcases proceed_inv hr with ⟨_, _, _, -, href⟩ | ⟨-, -, -, h3, -⟩
    · rw [href.streams, h]
    · rw [h3, h]
  refine ⟨fun h he => heffect h (effect_of (toOption_eq_some he)),
    fun h he => heffect h (effect_of (toOption_eq_some he)),
    fun h hr => hproceed h (toOption_eq_some hr), fun h hr => hproceed h (toOption_eq_some hr), ?_⟩
  intro K s tr a s' h ha
  cases a with
  | wait n =>
      simp only [machine] at ha
      split at ha
      · cases ha
        exact h
      · cases ha
  | receive n =>
      cases ha
      exact h

/-! ## The calls `stop` makes -/

variable {s : State} {id : Id}

/-- `stop` from its first payment on. -/
theorem State.stop_eq (addr : Address) (hopen : (s.streams id).closed = false)
    (hc : (s.streams id).Computes s.timestamp)
    (hw : (s.streams id).withdrawn ≤ (s.streams id).accruedAt s.timestamp)
    (hd : (s.streams id).accruedAt s.timestamp ≤ (s.streams id).deposited) :
    s.stop addr (s.streams id).payer id =
      if 0 < (s.streams id).accruedAt s.timestamp - (s.streams id).withdrawn then do
        let s₂ ← (s.stopped id).send addr (s.streams id).payee
          ((s.streams id).accruedAt s.timestamp - (s.streams id).withdrawn)
          (.payout id (s.streams id).payee
            ((s.streams id).accruedAt s.timestamp - (s.streams id).withdrawn))
        return (s₂, some (.stopPaying id
          ((s.streams id).accruedAt s.timestamp - (s.streams id).withdrawn)
          ((s.streams id).deposited - (s.streams id).accruedAt s.timestamp)))
      else (s.stopped id).stopRefund addr id
        ((s.streams id).accruedAt s.timestamp - (s.streams id).withdrawn)
        ((s.streams id).deposited - (s.streams id).accruedAt s.timestamp) := by
  have hadv : s.advance (s.streams id) = .ok ((s.streams id).ticked s.timestamp) :=
    State.advance_eq_ok.2 ⟨hc, rfl⟩
  have hsub : checkedSub ((s.streams id).accruedAt s.timestamp) (s.streams id).withdrawn =
      .ok ((s.streams id).accruedAt s.timestamp - (s.streams id).withdrawn) :=
    checkedSub_eq_ok.2 ⟨hw, rfl⟩
  have hsub' : checkedSub (s.streams id).deposited ((s.streams id).accruedAt s.timestamp) =
      .ok ((s.streams id).deposited - (s.streams id).accruedAt s.timestamp) :=
    checkedSub_eq_ok.2 ⟨hd, rfl⟩
  simp only [State.stop, require_of hopen, ok_bind, hadv, Stream.ticked_accrued,
    Stream.ticked_withdrawn, Stream.ticked_deposited, hsub, hsub']
  rfl

/-- The refund goes out when the balance covers it. -/
theorem State.stopRefund_ok (toPayee : ℕ) {refund : ℕ} (hle : refund ≤ s.balance)
    (hpayer : (s.streams id).payer ≠ addr) : ∃ s' ko,
      s.stopRefund addr id toPayee refund = .ok (s', ko) ∧
        (ko = none ∨ ko = some (.stopRefunding id toPayee refund)) := by
  by_cases hpos : 0 < refund
  · have hsend : s.send addr (s.streams id).payer refund (.refund id (s.streams id).payer refund) =
        .ok _ := State.send_eq_ok.2 ⟨⟨hle, hpayer⟩, rfl⟩
    exact ⟨_, _, by simp only [State.stopRefund, if_pos hpos, hsend, ok_bind]; rfl, .inr rfl⟩
  · exact ⟨_, _, by simp only [State.stopRefund, if_neg hpos]; rfl, .inl rfl⟩

/-! ## Success -/

/-- What a stream owes its payee at `now`. -/
def Stream.owed (st : Stream) (now : ℕ) : ℕ := st.accruedAt now - st.withdrawn

/-- What the accounts do when `stop` pays them: a payee that is owed something runs `payee` and
accepts, or refuses (`none`); the payer runs `payer` and accepts. -/
def answers (owed : ℕ) (payee : Option (List (Tx (Entry addr) Action)))
    (payer : List (Tx (Entry addr) Action)) : List (List (Tx (Entry addr) Action)) :=
  if owed = 0 then [payer] else (payee.map fun i => [i, payer]).getD []

variable {K : List (Pending State (Entry addr) Kont)} {tr : List (Frame State (Entry addr) Kont)}
  {e : Entry addr} {payee : Option (List (Tx (Entry addr) Action))}
  {payer : List (Tx (Entry addr) Action)}

/-- The end of `stop` once the payer accepts. -/
theorem drive_stopRefunding {toPayee refund : ℕ} {p : Pending State (Entry addr) Kont}
    {w : World State (Entry addr) Kont} (hkont : p.kont = .stopRefunding id toPayee refund) :
    ∃ w', drive (machine addr) [payer] p K w = some w' := by
  generalize hw₁ : execAll (machine addr) payer (p :: K) w = w₁
  have hresume : (machine addr).resume p.kont w₁.1 =
      some (w₁.1.emit (.stopped id toPayee refund), none) := by
    rw [hkont]
    rfl
  rw [drive, hw₁]
  simp only [hresume]
  exact ⟨_, rfl⟩

/-- The rest of `stop` once its payee is paid: the refund goes out and the payer accepts. -/
theorem drive_refund {toPayee refund : ℕ} {p : Pending State (Entry addr) Kont}
    {i : List (Tx (Entry addr) Action)} {w : World State (Entry addr) Kont}
    (hkont : p.kont = .stopPaying id toPayee refund) (hinv : Inv (p :: K) (execAll (machine addr) i (p :: K) w))
    (hpayer : ((execAll (machine addr) i (p :: K) w).1.streams id).payer ≠ addr) :
    ∃ w', drive (machine addr) [i, payer] p K w = some w' := by
  generalize hw₁ : execAll (machine addr) i (p :: K) w = w₁ at hinv hpayer
  have hle : refund ≤ w₁.1.balance := by
    have := hinv.ledger.backed ∅
    simp only [Finset.sum_empty, dues, List.map_cons, List.sum_cons, hkont, Kont.due] at this
    omega
  obtain ⟨s', ko, hr, hko⟩ := State.stopRefund_ok toPayee hle hpayer
  have hresume : (machine addr).resume p.kont w₁.1 = some (s', ko) := by
    simp only [machine, hkont, proceed, hr]
    rfl
  rcases hko with rfl | rfl
  · exact ⟨(s', w₁.2 ++ [p.finish s']), by simp only [drive, hw₁, hresume]⟩
  · rw [drive, hw₁]
    simp only [hresume]
    exact drive_stopRefunding rfl

/-- The stream `stop` closes is the one it leaves to the accounts it pays. -/
theorem Effect.stopped {s' : State} {ko : Option Kont} (he : Effect s (.stop id) s' ko) :
    s'.streams id = (s.stopped id).streams id := by
  cases he with
  | stopPay => rfl
  | stop _ _ _ _ _ hrest => rw [hrest.streams]

/-- A stop by the payer. -/
theorem enter_stop (hcall : e.call = .stop id) (hvalue : e.value = 0)
    (hsender : e.sender = (s.streams id).payer) :
    (machine addr).enter e s = (s.stop addr (s.streams id).payer id).toOption := by
  simp [machine, enter, hcall, hvalue, hsender, require, bind, Except.bind]

/-- `stop` succeeds when its arithmetic does and the payee, if it is owed anything, accepts. -/
theorem stop_succeeds (hI : Inv K (s, tr)) (hcall : e.call = .stop id) (hvalue : e.value = 0)
    (hsender : e.sender = (s.streams id).payer) (hopen : (s.streams id).closed = false)
    (hc : (s.streams id).Computes s.timestamp)
    (hpayee : (s.streams id).owed s.timestamp = 0 ∨
      payee.isSome = true ∧ (s.streams id).payee ≠ addr) :
    ∃ w', call? (machine addr) e (answers ((s.streams id).owed s.timestamp) payee payer) K (s, tr) =
      some w' := by
  have hb : (s.streams id).withdrawn ≤ (s.streams id).accrued ∧
      (s.streams id).accrued ≤ (s.streams id).deposited := hI.ledger.bounds id
  have hacc := Stream.accruedAt_bounds s.timestamp hb.2
  have hlia : (s.streams id).liability ≤ s.balance := by
    have := hI.ledger.backed {id}
    rw [Finset.sum_singleton] at this
    exact le_trans (Nat.le_add_right _ _) this
  have hself : (s.streams id).payer ≠ addr := hsender ▸ e.sender_ne_addr
  simp only [Stream.liability, hopen, Bool.false_eq_true, if_false] at hlia
  have hstop := State.stop_eq addr hopen hc (hb.1.trans hacc.1) hacc.2
  have henter := enter_stop hcall hvalue hsender
  have hstream : ((s.stopped id).streams id).payer = (s.streams id).payer := by
    simp [State.stopped, State.setStream]
  by_cases howed : (s.streams id).owed s.timestamp = 0
  · -- nothing is owed: the refund is the first payment
    have hle : (s.streams id).deposited - (s.streams id).accruedAt s.timestamp ≤
        (s.stopped id).balance := by
      simp only [State.stopped, State.setStream]
      omega
    obtain ⟨s', ko, hr, hko⟩ := State.stopRefund_ok
      ((s.streams id).accruedAt s.timestamp - (s.streams id).withdrawn) hle (by rwa [hstream])
    have hnot : ¬ 0 < (s.streams id).accruedAt s.timestamp - (s.streams id).withdrawn :=
      Nat.not_lt.2 (Nat.le_of_eq howed)
    rw [hstop, if_neg hnot, hr] at henter
    rw [answers, if_pos howed]
    rcases hko with rfl | rfl
    · exact ⟨(s', tr ++ [⟨e, s, s', []⟩]), by simp only [call?, henter, Except.toOption]⟩
    · simp only [call?, henter, Except.toOption]
      exact drive_stopRefunding rfl
  · -- the payee is paid first, and may do anything before the refund goes out
    obtain ⟨haccept, hne⟩ := hpayee.resolve_left howed
    obtain ⟨i, rfl⟩ := Option.isSome_iff_exists.1 haccept
    have hpos : 0 < (s.streams id).accruedAt s.timestamp - (s.streams id).withdrawn :=
      Nat.pos_of_ne_zero howed
    have hsend : (s.stopped id).send addr (s.streams id).payee
        ((s.streams id).accruedAt s.timestamp - (s.streams id).withdrawn)
        (.payout id (s.streams id).payee
          ((s.streams id).accruedAt s.timestamp - (s.streams id).withdrawn)) = .ok _ :=
      State.send_eq_ok.2 ⟨⟨by simp only [State.stopped, State.setStream]; omega, hne⟩, rfl⟩
    obtain ⟨s₂, k, hk, henter⟩ : ∃ s₂ k, k = Kont.stopPaying id
        ((s.streams id).accruedAt s.timestamp - (s.streams id).withdrawn)
        ((s.streams id).deposited - (s.streams id).accruedAt s.timestamp) ∧
        (machine addr).enter e s = some (s₂, some k) := by
      rw [henter, hstop, if_pos hpos, hsend]
      exact ⟨_, _, rfl, rfl⟩
    have hinv := (preserves_inv addr).enter hI henter
    have hpre := effect_of (toOption_eq_some henter)
    rw [hcall] at hpre
    have hrule := @preserves_closed addr id ((s.stopped id).streams id)
      (by simp [State.stopped, State.setStream])
      (by rw [hstream, ← hsender]; exact e.sender_ne_zero)
      (by simp [State.stopped, State.setStream])
    rw [answers, if_neg howed]
    simp only [call?, henter, Option.map_some, Option.getD_some]
    refine drive_refund hk ((preserves_inv addr).execAll i hinv) fun hpaid => hself ?_
    have hkept := hrule.execAll i (K := ⟨e, s, [], k⟩ :: K) (w := (s₂, tr)) hpre.stopped
    rwa [hkept, hstream] at hpaid

/-- What a `stop` that succeeded had. -/
theorem stop_requires (hI : Inv K (s, tr)) (hcall : e.call = .stop id) (hvalue : e.value = 0)
    (hsender : e.sender = (s.streams id).payer) (hopen : (s.streams id).closed = false)
    {w' : World State (Entry addr) Kont}
    (hw' : call? (machine addr) e (answers ((s.streams id).owed s.timestamp) payee payer) K (s, tr) =
      some w') :
    (s.streams id).Computes s.timestamp ∧ ((s.streams id).owed s.timestamp = 0 ∨
      payee.isSome = true ∧ (s.streams id).payee ≠ addr) := by
  have hb : (s.streams id).withdrawn ≤ (s.streams id).accrued ∧
      (s.streams id).accrued ≤ (s.streams id).deposited := hI.ledger.bounds id
  have hacc := Stream.accruedAt_bounds s.timestamp hb.2
  obtain ⟨s', ko, he⟩ : ∃ s' ko, (machine addr).enter e s = some (s', ko) := by
    rw [call?] at hw'
    split at hw'
    · cases hw'
    · next s' he => exact ⟨_, _, he⟩
    · next s' k he => exact ⟨_, _, he⟩
  have hc : (s.streams id).Computes s.timestamp := by
    have heff := effect_of (toOption_eq_some he)
    rw [hcall] at heff
    cases heff with
    | stopPay _ _ hc => exact hc
    | stop _ _ hc => exact hc
  refine ⟨hc, or_iff_not_imp_left.2 fun howed => ?_⟩
  have hpos : 0 < (s.streams id).accruedAt s.timestamp - (s.streams id).withdrawn :=
    Nat.pos_of_ne_zero howed
  have henter := he
  rw [enter_stop hcall hvalue hsender,
    State.stop_eq addr hopen hc (hb.1.trans hacc.1) hacc.2, if_pos hpos] at henter
  have hsent := toOption_eq_some henter
  simp only [bind_eq_ok, State.send_eq_ok, pure_eq_ok, Prod.mk.injEq] at hsent
  obtain ⟨_, ⟨⟨-, hne⟩, rfl⟩, rfl, rfl⟩ := hsent
  refine ⟨?_, hne⟩
  cases payee with
  | some i => rfl
  | none => simp [call?, he, answers, howed, drive] at hw'

/-- A `stop` that succeeded sent the payer what was not accrued. -/
theorem stop_refunds (hI : Inv K (s, tr)) (hcall : e.call = .stop id)
    (hopen : (s.streams id).closed = false) {is : List (List (Tx (Entry addr) Action))}
    {w' : World State (Entry addr) Kont} (h : call? (machine addr) e is K (s, tr) = some w') :
    refundedOut id w'.1.sent = (s.streams id).deposited - (s.streams id).accruedAt s.timestamp := by
  have hstream : (s.stopped id).streams id = { (s.streams id).ticked s.timestamp with
      closed := true
      active := false
      withdrawn := (s.streams id).accruedAt s.timestamp } := by
    simp [State.stopped, State.setStream]
  have hpayer : ∀ {s' ko}, Effect s (.stop id) s' ko → ((s.stopped id).streams id).payer ≠ 0 := by
    intro s' ko he
    rw [hstream]
    cases he with
    | stopPay hpayer => exact hpayer
    | stop hpayer => exact hpayer
  have hkeep : w'.1.streams id = (s.stopped id).streams id := by
    have hrule := fun hp => @preserves_closed addr id ((s.stopped id).streams id)
      (by rw [hstream]) hp (by rw [hstream]; rfl)
    rw [call?] at h
    split at h
    · cases h
    · next s' he =>
      have heff := effect_of (toOption_eq_some he)
      rw [hcall] at heff
      cases h
      exact heff.stopped
    · next s' k he =>
      have heff := effect_of (toOption_eq_some he)
      rw [hcall] at heff
      exact (hrule (hpayer heff)).drive is heff.stopped h
  have hend := ((preserves_inv addr).call? hI h).ledger.refunded id
  -- no call that was running when `stop` began is a `stop` of this stream
  have hdue : duesFor K id = 0 := by
    have hcount := hI.stops id
    simp only [hopen, Bool.false_eq_true, if_false] at hcount
    have hnone := List.countP_eq_zero.1 (show K.countP (·.entry.call = .stop id) = 0 by omega)
    rw [duesFor, List.sum_eq_zero_iff]
    intro x hx
    obtain ⟨p, hp, rfl⟩ := List.mem_map.1 hx
    have hcall' := hI.konts p hp
    cases hk : p.kont with
    | stopPaying j t r =>
        have : j ≠ id := by
          rintro rfl
          rw [hk] at hcall'
          exact hnone p hp (by simpa [Kont.call] using hcall'.symm)
        simp [Kont.dueFor, this]
    | _ => rfl
  rw [hdue, hkeep, hstream] at hend
  simpa [Stream.tail] using hend

/-- **When a stream can be stopped.** In every reachable configuration and after any further wait, a
`stop` by the payer of an open stream, whose account accepts the refund, succeeds and returns the
unspent remainder if and only if the accrual of an active stream fits `uint256` before the cap, and
the payee is owed nothing or accepts what it is owed. -/
theorem stop_succeeds_iff {t₀ : ℕ} (h : Reachable addr t₀ K (s, tr)) {wait : ℕ}
    (hwait : K = [] ∨ wait = 0) (hcall : e.call = .stop id) (hvalue : e.value = 0)
    (hsender : e.sender = (s.streams id).payer) (hopen : (s.streams id).closed = false)
    (payee : Option (List (Tx (Entry addr) Action))) (payer : List (Tx (Entry addr) Action)) :
    (∃ w', call? (machine addr) e
        (answers ((s.streams id).owed (s.timestamp + wait)) payee payer) K
        ({ s with timestamp := s.timestamp + wait }, tr) = some w' ∧
      refundedOut id w'.1.sent =
        (s.streams id).deposited - (s.streams id).accruedAt (s.timestamp + wait)) ↔
    ((s.streams id).active = true → (s.streams id).accrued + (s.streams id).ratePerSecond *
      (s.timestamp + wait - (s.streams id).lastTick) < 2 ^ 256) ∧
    ((s.streams id).owed (s.timestamp + wait) = 0 ∨
      payee.isSome = true ∧ (s.streams id).payee ≠ addr) := by
  have h' : Reachable addr t₀ K ({ s with timestamp := s.timestamp + wait }, tr) := by
    rcases hwait with rfl | rfl
    · exact h.act (a := .wait wait) rfl
    · exact h
  generalize hs₁ : ({ s with timestamp := s.timestamp + wait } : State) = s₁ at h'
  have hstreams : s.streams id = s₁.streams id := by rw [← hs₁]
  have htime : s.timestamp + wait = s₁.timestamp := by rw [← hs₁]
  rw [hstreams] at hopen hsender
  rw [hstreams, htime]
  have hI := Inv.of_reachable h'
  have htick := (preserves_ticked addr).reach (by intro i; simp [construct, Stream.zero]) h' id
  have hcomputes : (s₁.streams id).Computes s₁.timestamp ↔ ((s₁.streams id).active = true →
      (s₁.streams id).accrued + (s₁.streams id).ratePerSecond *
        (s₁.timestamp - (s₁.streams id).lastTick) < 2 ^ 256) := by
    simp only [Stream.Computes, Stream.live, hopen, Stream.uncapped, Bool.not_false, Bool.and_true]
    exact ⟨fun h ha => (h ha).2, fun h ha => ⟨htick, h ha⟩⟩
  rw [← hcomputes]
  constructor
  · rintro ⟨w', hw', -⟩
    exact stop_requires hI hcall hvalue hsender hopen hw'
  · rintro ⟨hc, hp⟩
    obtain ⟨w', hw'⟩ := stop_succeeds hI hcall hvalue hsender hopen hc hp
    exact ⟨w', hw', stop_refunds hI hcall hopen hw'⟩

/-- Account 1 opens a stream of 100 to account 2 at one per second on the contract at 9, and 30
seconds pass. -/
theorem reachable_streaming : ∃ s tr, Reachable 9 0 [] (s, tr) ∧ s.timestamp = 30 ∧
    s.streams 7 = ⟨1, 2, 1, 100, 0, 0, 0, true, false⟩ := by
  have hopen : Reachable 9 0 [] _ := .enter_done (e := ⟨1, 100, .open 7 2 1, by decide, by decide⟩)
    .refl rfl
  exact ⟨_, _, hopen.act (a := .wait 30) rfl, rfl, rfl⟩

/-- A `stop` by account 1. -/
def stopEntry : Entry 9 := ⟨1, 0, .stop 7, by decide, by decide⟩

/-- A payer that accepts its refund stops the stream and gets 70 back. -/
theorem stop_succeeds_iff_accepting : ∃ s tr w', Reachable 9 0 [] (s, tr) ∧
    call? (machine 9) stopEntry (answers 30 (some []) []) [] (s, tr) = some w' ∧
      refundedOut 7 w'.1.sent = 70 := by
  obtain ⟨s, tr, h, htime, hst⟩ := reachable_streaming
  have howed : (s.streams 7).owed (s.timestamp + 0) = 30 := by
    rw [hst, htime]
    rfl
  have hrest : (s.streams 7).deposited - (s.streams 7).accruedAt (s.timestamp + 0) = 70 := by
    rw [hst, htime]
    rfl
  obtain ⟨w', hw', hr⟩ := (stop_succeeds_iff (e := stopEntry) h (.inr rfl) rfl rfl (by rw [hst]; rfl)
    (by rw [hst]) (some []) []).2
      ⟨fun _ => by rw [hst, htime]; norm_num, .inr ⟨rfl, by rw [hst]; decide⟩⟩
  rw [howed] at hw'
  rw [hrest] at hr
  exact ⟨s, tr, w', h, hw', hr⟩

/-- Two streams nobody can stop: a payee that refuses its 30 keeps the payer from the other 70, and
at a rate of `2 ^ 255` two seconds are enough for the product to overflow. -/
theorem stop_fails :
    (∃ s tr, Reachable 9 0 [] (s, tr) ∧ (s.streams 7).closed = false ∧
      (s.streams 7).payer = stopEntry.sender ∧
      call? (machine 9) stopEntry (answers ((s.streams 7).owed s.timestamp) none []) [] (s, tr) =
        none) ∧
    ∃ s tr, Reachable 9 0 [] (s, tr) ∧ (s.streams 7).closed = false ∧
      (s.streams 7).payer = stopEntry.sender ∧
      call? (machine 9) stopEntry (answers ((s.streams 7).owed s.timestamp) (some []) []) [] (s, tr) =
        none := by
  constructor
  · have hopen : Reachable 9 0 [] _ :=
      .enter_done (e := ⟨1, 100, .open 7 2 1, by decide, by decide⟩) .refl rfl
    exact ⟨_, _, hopen.act (a := .wait 30) rfl, rfl, rfl, rfl⟩
  · have hopen : Reachable 9 0 [] _ :=
      .enter_done (e := ⟨1, 100, .open 7 2 (2 ^ 255), by decide, by decide⟩) .refl rfl
    exact ⟨_, _, hopen.act (a := .wait 2) rfl, rfl, rfl, rfl⟩

end

end ShadePay.StreamPay
