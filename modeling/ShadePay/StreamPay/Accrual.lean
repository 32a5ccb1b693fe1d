import ShadePay.StreamPay.Conservation

/-!
# Accrual is path-independent

`activeSeconds` reads the log of events as a stopwatch: the seconds during which a stream was active.
`Metered` ties the checkpointed `accrued` and `lastTick` of a stream to the stopwatch; every call
keeps it, however often it checkpoints, as long as the clock fits the 64 bits of `lastTick`.
`earned_eq` is the consequence for the view `earned` and for `_advance`.
-/

namespace ShadePay.StreamPay

open Guard Evm Reentrancy

/-- A stopwatch: the seconds counted so far, and since when it has been running. -/
structure Meter where
  total : ℕ
  since : Option ℕ
deriving DecidableEq

namespace Meter

/-- The reading at `now`. -/
def read (m : Meter) (now : ℕ) : ℕ := m.total + m.since.elim 0 (now - ·)

/-- Stop counting at `t`. -/
def halt (m : Meter) (t : ℕ) : Meter := ⟨m.read t, none⟩

/-- Start counting at `t`. -/
def start (m : Meter) (t : ℕ) : Meter := ⟨m.total, some t⟩

/-- What an event does to the stopwatch of a stream. -/
def step (i : Id) (m : Meter) : ℕ × Event → Meter
  | (t, .opened j _ _ _ _) => if j = i then m.start t else m
  | (t, .resumed j) => if j = i then m.start t else m
  | (t, .paused j _) => if j = i then m.halt t else m
  | (t, .stopped j _ _) => if j = i then m.halt t else m
  | (_, .withdrawn _ _ _) => m

end Meter

/-- The stopwatch of a stream after a log of events. -/
def meter (i : Id) (events : List (ℕ × Event)) : Meter := events.foldl (Meter.step i) ⟨0, none⟩

/-- The seconds during which a stream was active, until `now`. -/
def activeSeconds (i : Id) (events : List (ℕ × Event)) (now : ℕ) : ℕ := (meter i events).read now

@[simp] theorem meter_concat (i : Id) (l : List (ℕ × Event)) (e : ℕ × Event) :
    meter i (l ++ [e]) = (meter i l).step i e := by
  simp [meter]

/-- The checkpoint of an open stream against its stopwatch. -/
structure Metered (m : Meter) (now : ℕ) (st : Stream) : Prop where
  active : st.active = true → ∃ t, m.since = some t ∧ t ≤ st.lastTick ∧ st.lastTick ≤ now ∧
    st.accrued = min st.deposited (st.ratePerSecond * (m.total + (st.lastTick - t)))
  idle : st.active = false → m.since = none ∧
    st.accrued = min st.deposited (st.ratePerSecond * m.total)

section
variable {m : Meter} {now : ℕ} {st : Stream}

/-- Capping a checkpoint and capping at the end are the same. -/
theorem min_add_min (d a b : ℕ) : min d (min d a + b) = min d (a + b) := by omega

/-- What the stream has accrued is the rate times the stopwatch, capped once. -/
theorem Metered.accruedAt_eq (h : Metered m now st) (hopen : st.closed = false) :
    st.accruedAt now = min st.deposited (st.ratePerSecond * m.read now) := by
  cases ha : st.active with
  | true =>
      obtain ⟨t, ht, h1, h2, hacc⟩ := h.active ha
      have hread : m.read now = m.total + (st.lastTick - t) + (now - st.lastTick) := by
        simp only [Meter.read, ht, Option.elim_some]
        omega
      rw [Stream.accruedAt, if_pos (by simp [Stream.live, ha, hopen]), Stream.uncapped, hacc,
        min_add_min, hread, ← Nat.mul_add]
  | false =>
      obtain ⟨hs, hacc⟩ := h.idle ha
      rw [Stream.accruedAt_of_not_live (by simp [Stream.live, ha]), hacc]
      simp [Meter.read, hs]

/-- The checked arithmetic goes through while the uncapped total is a word. -/
theorem Metered.computes (h : Metered m now st) (hlt : st.ratePerSecond * m.read now < 2 ^ 256) :
    st.Computes now := by
  intro hlive
  simp only [Stream.live, Bool.and_eq_true] at hlive
  obtain ⟨t, ht, h1, h2, hacc⟩ := h.active hlive.1
  have hread : m.read now = m.total + (st.lastTick - t) + (now - st.lastTick) := by
    simp only [Meter.read, ht, Option.elim_some]
    omega
  refine ⟨h2, lt_of_le_of_lt ?_ hlt⟩
  rw [Stream.uncapped, hacc, hread, Nat.mul_add _ _ (now - st.lastTick)]
  exact Nat.add_le_add_right (min_le_right _ _) _

/-- Time passes. -/
theorem Metered.mono (h : Metered m now st) {now' : ℕ} (hle : now ≤ now') : Metered m now' st :=
  ⟨fun ha => by
    obtain ⟨t, ht, h1, h2, hacc⟩ := h.active ha
    exact ⟨t, ht, h1, h2.trans hle, hacc⟩, h.idle⟩

end

/-- Every open stream agrees with its stopwatch, while the clock fits `lastTick`. -/
def Accrual (s : State) : Prop :=
  s.timestamp < 2 ^ 64 → ∀ i,
    ((s.streams i).payer = 0 → meter i s.events = ⟨0, none⟩) ∧
    ((s.streams i).payer ≠ 0 → (s.streams i).closed = false →
      Metered (meter i s.events) s.timestamp (s.streams i))

/-- A call that rewrites one stream and logs events for that stream only. -/
theorem Accrual.update {s s' : State} (h : Accrual s) {i : Id} {st : Stream}
    (hstreams : s'.streams = Function.update s.streams i st)
    (htime : s'.timestamp = s.timestamp) (hpayer : st.payer ≠ 0)
    (hother : ∀ j, j ≠ i → meter j s'.events = meter j s.events)
    (hst : s.timestamp < 2 ^ 64 → st.closed = false →
      Metered (meter i s'.events) s.timestamp st) : Accrual s' := by
  intro hlt j
  rw [htime] at hlt ⊢
  rw [hstreams]
  by_cases hj : j = i
  · subst hj
    rw [Function.update_self]
    exact ⟨fun hz => absurd hz hpayer, fun _ => hst hlt⟩
  · rw [Function.update_of_ne hj, hother j hj]
    exact h hlt j

section
variable {D : Id → ℕ} {d : ℕ} {s s' : State}

/-- The end of `stop` logs for a closed stream. -/
theorem Accrual.refund (h : Accrual s) {id : Id} {t r : ℕ} {ko : Option Kont}
    (hclosed : (s.streams id).closed = true) (hpayer : (s.streams id).payer ≠ 0)
    (hr : Refunded s id t r s' ko) : Accrual s' := by
  cases hr with
  | send => exact h
  | none =>
      refine h.update (Function.update_eq_self id s.streams).symm rfl hpayer ?_ ?_
      · intro j hj
        simp [State.emit, Meter.step, hj.symm]
      · intro _ hopen
        rw [hclosed] at hopen
        cases hopen

/-- **A message call keeps the stopwatches.** -/
theorem Accrual.effect {c : Call} {ko : Option Kont} (h : Accrual s) (hL : Ledger D d s)
    (he : Effect s c s' ko) : Accrual s' := by
  have htick : s.timestamp < 2 ^ 64 → uint64 s.timestamp = s.timestamp := Nat.mod_eq_of_lt
  cases he with
  | @«open» id payer payee rate value hfresh hpayer =>
      refine h.update (i := id) rfl rfl hpayer ?_ ?_
      · intro j hj
        simp [Meter.step, hj.symm]
      · intro hlt _
        have hm := (h hlt id).1 hfresh
        refine ⟨fun _ => ⟨s.timestamp, ?_, ?_, ?_, ?_⟩, fun ha => absurd ha (by simp)⟩ <;>
          simp [hm, Meter.step, Meter.start, htick hlt]
  | @withdraw id amount hpayee hcomputes hamount hpos hle =>
      have hpayer : (s.streams id).payer ≠ 0 := fun hz => hpayee (by rw [hL.unopened id hz]; rfl)
      refine h.update (i := id) rfl rfl hpayer (fun _ _ => rfl) ?_
      intro hlt hopen
      have hM := (h hlt id).2 hpayer hopen
      have hacc := hM.accruedAt_eq hopen
      constructor
      · intro ha
        obtain ⟨t, ht, h1, h2, -⟩ := hM.active ha
        refine ⟨t, ht, ?_, ?_, ?_⟩
        · simp only [Stream.ticked, htick hlt]
          omega
        · simp [Stream.ticked, htick hlt]
        · simp [Stream.ticked, hacc, Meter.read, ht, htick hlt]
      · intro ha
        obtain ⟨hs, h1⟩ := hM.idle ha
        refine ⟨hs, ?_⟩
        simp [Stream.ticked, hacc, Meter.read, hs]
  | @pause id hpayer hlive hcomputes =>
      refine h.update (i := id) rfl rfl hpayer ?_ ?_
      · intro j hj
        simp [Meter.step, hj.symm]
      · intro hlt hopen
        have hM := (h hlt id).2 hpayer hopen
        refine ⟨fun ha => absurd ha (by simp), fun _ => ?_⟩
        simp [Meter.step, Meter.halt, Stream.ticked, hM.accruedAt_eq hopen]
  | @resume id hpayer hclosed hactive =>
      refine h.update (i := id) rfl rfl hpayer ?_ ?_
      · intro j hj
        simp [Meter.step, hj.symm]
      · intro hlt _
        have hM := ((h hlt id).2 hpayer hclosed).idle hactive
        refine ⟨fun _ => ⟨s.timestamp, ?_, ?_, ?_, ?_⟩, fun ha => absurd ha (by simp)⟩
        · simp [Meter.step, Meter.start]
        · simp [htick hlt]
        · simp [htick hlt]
        · simp [htick hlt, Meter.step, Meter.start, hM.2]
  | @stopPay id toPayee refund hpayer hclosed hcomputes htoPayee hrefund hpos hle =>
      exact h.update (i := id) rfl rfl hpayer (fun _ _ => rfl) fun _ hopen => by cases hopen
  | @stop id refund _ _ hpayer hclosed hcomputes htoPayee hrefund hrest =>
      have hstop : Accrual (s.stopped id) :=
        h.update (i := id) rfl rfl hpayer (fun _ _ => rfl) fun _ hopen => by cases hopen
      refine hstop.refund ?_ ?_ hrest
      · simp [State.stopped, State.setStream]
      · simpa [State.stopped, State.setStream] using hpayer

end

section
variable {addr : Address}

/-- Resuming a suspended call keeps the stopwatches. -/
theorem Accrual.proceed {K : List (Pending State (Entry addr) Kont)}
    {p : Pending State (Entry addr) Kont} {s s' : State}
    {tr : List (Frame State (Entry addr) Kont)} {ko : Option Kont} (h : Accrual s)
    (hI : Inv (p :: K) (s, tr)) (hr : StreamPay.proceed addr p.kont s = .ok (s', ko)) :
    Accrual s' := by
  have hcall := hI.konts p (by simp)
  -- a stream with a running `stop` is closed
  have hclosed : ∀ id, p.kont.call = .stop id →
      (s.streams id).closed = true ∧ (s.streams id).payer ≠ 0 := by
    intro id hc
    refine ⟨?_, hI.payer_ne (p := p) (by simp) (hcall ▸ hc)⟩
    have hcount := hI.stops id
    by_contra ho
    rw [if_neg ho, List.countP_cons_of_pos (by simp [← hcall, hc])] at hcount
    omega
  cases hk : p.kont with
  | withdrawing id a =>
      rw [hk] at hr
      cases hr
      intro hlt i
      simpa [State.emit, Meter.step] using h hlt i
  | stopPaying id t r =>
      rw [hk] at hr hclosed
      obtain ⟨h1, h2⟩ := hclosed id rfl
      exact h.refund h1 h2 (refunded_of hr)
  | stopRefunding id t r =>
      rw [hk] at hr hclosed
      obtain ⟨h1, h2⟩ := hclosed id rfl
      cases hr
      refine h.update (Function.update_eq_self id s.streams).symm rfl h2 ?_ ?_
      · intro j hj
        simp [State.emit, Meter.step, hj.symm]
      · intro _ hopen
        rw [h1] at hopen
        cases hopen

/-- **The step lemma.** -/
theorem preserves_accrual (addr : Address) :
    Preserves (machine addr) fun K w => Inv K w ∧ Accrual w.1 where
  enter_done := by
    rintro K s tr e s' ⟨hI, hA⟩ he
    exact ⟨(preserves_inv addr).enter_done hI he,
      hA.effect hI.ledger (effect_of (toOption_eq_some he))⟩
  enter := by
    rintro K s tr e s' k ⟨hI, hA⟩ he
    exact ⟨(preserves_inv addr).enter hI he,
      hA.effect hI.ledger (effect_of (toOption_eq_some he))⟩
  resume_done := by
    rintro K p s tr s' ⟨hI, hA⟩ hr
    exact ⟨(preserves_inv addr).resume_done hI hr, hA.proceed hI (toOption_eq_some hr)⟩
  resume := by
    rintro K p s tr s' k ⟨hI, hA⟩ hr
    exact ⟨(preserves_inv addr).resume hI hr, hA.proceed hI (toOption_eq_some hr)⟩
  act := by
    rintro K s tr a s' ⟨hI, hA⟩ ha
    refine ⟨(preserves_inv addr).act hI ha, ?_⟩
    cases a with
    | wait n =>
        simp only [machine] at ha
        split at ha
        · cases ha
          intro hlt i
          obtain ⟨h1, h2⟩ := hA (by simp only at hlt ⊢; omega) i
          exact ⟨h1, fun hp ho => (h2 hp ho).mono (Nat.le_add_right _ _)⟩
        · cases ha
    | receive n =>
        cases ha
        exact hA

/-- **Accrual is path-independent.** In every run, after any withdrawals, pauses and resumes, an open
stream has earned the rate times the seconds it was active, capped at its deposit, and that is what
`_advance` writes; the clock is below `2 ^ 64`, the width of `lastTick`. -/
theorem earned_eq {t₀ : ℕ} {K : List (Pending State (Entry addr) Kont)} {s : State}
    {tr : List (Frame State (Entry addr) Kont)} (h : Reachable addr t₀ K (s, tr)) {i : Id}
    (hopened : (s.streams i).payer ≠ 0) (hopen : (s.streams i).closed = false)
    (hclock : s.timestamp < 2 ^ 64)
    (hword : (s.streams i).ratePerSecond * activeSeconds i s.events s.timestamp < 2 ^ 256) :
    s.earned i = .ok (min (s.streams i).deposited
        ((s.streams i).ratePerSecond * activeSeconds i s.events s.timestamp)) ∧
      ∃ st, s.advance (s.streams i) = .ok st ∧ s.earned i = .ok st.accrued := by
  obtain ⟨hI, hA⟩ := (preserves_accrual addr).reach
    ⟨inv_construct t₀, fun _ j => by simp [construct, Stream.zero, meter]⟩ h
  have hM := (hA hclock i).2 hopened hopen
  have hc := hM.computes hword
  have hacc := hM.accruedAt_eq hopen
  have hearned : s.earned i = .ok ((s.streams i).accruedAt s.timestamp) := by
    refine State.earned_eq_ok.2 ⟨hc, (min_eq_right ?_).symm⟩
    exact (Stream.accruedAt_bounds s.timestamp (hI.ledger.bounds i).2).2
  refine ⟨by rw [hearned, hacc, activeSeconds], ?_⟩
  exact ⟨_, State.advance_eq_ok.2 ⟨hc, rfl⟩, hearned⟩

/-- A stream of 100 at two per second: 10 seconds, a pause of 40 seconds, a withdrawal in it, and 5
seconds more. -/
theorem earned_eq_paused : ∃ K s tr, Reachable 9 0 K (s, tr) ∧
    activeSeconds 7 s.events s.timestamp = 15 ∧ s.earned 7 = .ok (min 100 (2 * 15)) := by
  have hopen : Reachable 9 0 [] _ := .enter_done (e := ⟨1, 100, .open 7 2 2, by decide, by decide⟩)
    .refl rfl
  have h1 := hopen.act (a := .wait 10) rfl
  have h2 := h1.enter_done (e := ⟨1, 0, .pause 7, by decide, by decide⟩) rfl
  have h3 := h2.act (a := .wait 40) rfl
  have h4 := h3.enter (e := ⟨2, 0, .withdraw 7, by decide, by decide⟩) rfl
  have h5 := h4.resume_done rfl
  have h6 := h5.enter_done (e := ⟨1, 0, .resume 7, by decide, by decide⟩) rfl
  have h7 := h6.act (a := .wait 5) rfl
  refine ⟨_, _, _, h7, rfl, ?_⟩
  exact (earned_eq h7 (i := 7) (by decide) rfl (by decide) (by decide)).1

/-- At the second `2 ^ 64` the tick of a new stream is zero: it has earned its deposit at once. -/
theorem earned_wraps : ¬ ∀ (addr : Address) (t₀ : ℕ) (K : List (Pending State (Entry addr) Kont))
    (s : State) (tr : List (Frame State (Entry addr) Kont)) (i : Id),
    Reachable addr t₀ K (s, tr) → (s.streams i).payer ≠ 0 → (s.streams i).closed = false →
    (s.streams i).ratePerSecond * (s.timestamp - t₀) < 2 ^ 256 →
    s.earned i = .ok (min (s.streams i).deposited
      ((s.streams i).ratePerSecond * activeSeconds i s.events s.timestamp)) := by
  intro hall
  have hopen : Reachable 9 (2 ^ 64) [] _ :=
    .enter_done (e := ⟨1, 100, .open 7 2 1, by decide, by decide⟩) .refl rfl
  have := hall 9 (2 ^ 64) [] _ _ 7 hopen (by decide) rfl (by decide)
  revert this
  decide

end

end ShadePay.StreamPay
