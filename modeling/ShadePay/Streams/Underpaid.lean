import ShadePay.Streams.Exchange

/-!
# When the payee finds itself underpaid

`receive` writes the reported total of units at the start of every call, before it looks at the
voucher. The verdict of `isUnderpaid` is therefore about the total that the last call to start reported.
It is the right one as long as no call reports less than an earlier one did (`Growing`); a call that comes
late with an old total makes the agent forget service (`isUnderpaid_forgets`).
-/

namespace ShadePay.Streams

open Interleave

/-- The best accepted cumulative amount, zero when no voucher was accepted. -/
def bestAccepted (accepted : List Voucher) : ℤ :=
  ((highestVoucher accepted).map Voucher.cumulative).getD 0

/-- The verdict is about the largest total that was reported. -/
def Verdict (d : Exchange) : Prop :=
  ∀ total ∈ d.reported, (∀ t ∈ d.reported, t ≤ total) →
    (d.payee.isUnderpaid = true ↔ bestAccepted d.accepted < d.payee.cfg.ratePerUnit * total)

/-- No call reports a smaller total than a call that started before it. -/
def Growing (d : Exchange) : Act → Prop
  | .receive _ total => ∀ t ∈ d.reported, t ≤ total
  | _ => True

/-- The agent remembers the largest total. -/
structure Remembers (d : Exchange) : Prop where
  best : d.payee.best = highestVoucher d.accepted
  le : ∀ t ∈ d.reported, t ≤ d.payee.unitsServed
  mem : d.reported ≠ [] → d.payee.unitsServed ∈ d.reported

section
variable {ι : Type} [DecidableEq ι] {C : Circomlib} {d d' : Exchange} {l l' : Option Waiting} {a : Act}

theorem Remembers.verdict (h : Remembers d) : Verdict d := by
  intro total htotal hmax
  have hunits : d.payee.unitsServed = total :=
    le_antisymm (hmax _ (h.mem (List.ne_nil_of_mem htotal))) (h.le total htotal)
  rw [PayeeAgent.isUnderpaid, decide_eq_true_eq, h.best, hunits, bestAccepted]

theorem Remembers.step (h : Remembers d) (hok : Growing d a) (heff : Effect C d l a d' l') :
    Remembers d' := by
  cases heff with
  | receives =>
      refine ⟨h.best, fun t ht => ?_, fun _ => List.mem_append_right _ (List.mem_singleton_self _)⟩
      rcases List.mem_append.1 ht with ht | ht
      · exact hok t ht
      · exact (List.mem_singleton.1 ht).le
  | accepts => exact ⟨by rw [highestVoucher_append, ← h.best], h.le, h.mem⟩
  | idles => exact ⟨h.best, h.le, h.mem⟩
  | pays => exact ⟨h.best, h.le, h.mem⟩
  | rejects => exact h

/-- **When the verdict is right.** Any calls with any vouchers interleave in any order. As long as no
call reports a smaller total than one that started before it, the agent says in every state that it is
underpaid exactly when the best accepted amount does not pay for the largest total reported. -/
theorem isUnderpaid_iff {p : PayerAgent} {payee : PayeeAgentConfig} {es : List (ι × Act)}
    {s : State ι Exchange (Option Waiting)}
    (hrun : run (Exchange.under C Growing) ⟨.start p payee, fun _ => none⟩ es = some s) :
    Verdict s.shared := by
  have hstart : Remembers (Exchange.start p payee) :=
    ⟨rfl, fun t ht => (by cases ht), fun h => absurd rfl h⟩
  refine Remembers.verdict ?_
  refine run_induction (motive := fun _ s => Remembers s.shared) hstart ?_ hrun
  intro es t e t' _ ih hstep
  obtain ⟨d, l, hprog, rfl⟩ := step_eq_some hstep
  obtain ⟨hok, heff⟩ := Exchange.under_effect hprog
  exact ih.step hok heff

end

/-! ## A late call -/

/-- A voucher of another channel. -/
def strayVoucher : Voucher := ⟨0, 0, (0 : ℕ), 0, 0, 0, 0, 0⟩

/-- The exchange after a total was reported with a stray voucher. -/
def told (d : Exchange) (total : ℤ) : Exchange :=
  { d with
    payee := { d.payee with unitsServed := total }
    reported := d.reported ++ [total] }

/-- A call with a stray voucher ends at once, and reports its total. -/
theorem act_told {d : Exchange} (hd : d.payee.cfg.channelId ≠ 0) (total : ℤ) :
    Exchange.act sampleLib none d (.receive strayVoucher total) = some (told d total, none) := by
  have hcall : d.payee.receive strayVoucher total =
      ({ d.payee with unitsServed := total }, some ⟨false, some "wrong channel"⟩) := by
    rw [PayeeAgent.receive, if_pos]
    exact hd.symm
  rw [Exchange.act, hcall]
  rfl

/-- One unit is paid for and reported, and then nine more are reported: the agent is right both times. -/
theorem isUnderpaid_iff_told : kept.payee.isUnderpaid = false ∧ Verdict kept ∧
    (told kept 10).payee.isUnderpaid = true ∧ Verdict (told kept 10) := by
  obtain ⟨es, loc, hidle, hrun⟩ := @run_kept Growing trivial (fun t ht => by cases ht) trivial
  have hprog : Exchange.under sampleLib Growing (loc 1) kept (.receive strayVoucher 10) =
      some (told kept 10, none) := by
    rw [hidle]
    exact Exchange.under_of (by decide : ∀ t ∈ [(1 : ℤ)], t ≤ 10) (act_told (by decide) 10)
  have hrun' := run_append.2 ⟨_, hrun, run_singleton.2 (step_of_prog (i := 1) hprog)⟩
  exact ⟨by decide, isUnderpaid_iff hrun, by decide, isUnderpaid_iff hrun'⟩

/-- Ten units are reported, and then a call with an old total comes in: the agent forgets the ten. -/
theorem isUnderpaid_forgets : ¬ ∀ (C : Circomlib) (p : PayerAgent) (payee : PayeeAgentConfig)
    (es : List (ℕ × Act)) (s : State ℕ Exchange (Option Waiting)),
      run (Exchange.act C) ⟨.start p payee, fun _ => none⟩ es = some s →
        (∀ i, s.loc i = none) → Verdict s.shared := by
  intro h
  have hten : Exchange.act sampleLib none (.start (paid 0).payer countingPayee)
      (.receive strayVoucher 10) = some (told (paid 0) 10, none) := act_told (by decide) 10
  have hrun := run_cons.2 ⟨_, step_of_prog (i := 0)
    (s := (⟨_, fun _ => none⟩ : State ℕ Exchange (Option Waiting))) hten,
    run_singleton.2 (step_of_prog (i := 1) (act_told (by decide) 0))⟩
  have hverdict : Verdict (told (told (paid 0) 10) 0) := h _ _ _ _ _ hrun fun i => by
    simp only [Function.update_apply]
    split_ifs <;> rfl
  have hforgot : ¬ ((told (told (paid 0) 10) 0).payee.isUnderpaid = true) := by decide
  exact hforgot ((hverdict 10 (by decide) (by decide)).2 (by decide))

end ShadePay.Streams
