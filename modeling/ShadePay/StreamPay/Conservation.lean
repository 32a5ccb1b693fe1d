import ShadePay.StreamPay.Effects
import Mathlib.Algebra.BigOperators.Group.Finset.Basic
import Mathlib.Algebra.Order.BigOperators.Group.Finset

/-!
# Conservation of streamed value

`Ledger` is the accounting invariant of the streaming contract: the value sent for each stream, the
refunds that running `stop` calls still owe, and a balance that covers every open stream.
`Ledger.update` is the one step lemma behind it: a call rewrites one stream and sends value for that
stream only. `conservation` states what holds wherever control is outside of the contract.
-/

namespace ShadePay.StreamPay

open Guard Evm Reentrancy

/-! ## What was sent and what is owed -/

namespace Sent

/-- The stream an entry is for. -/
def id : Sent → Id
  | .payout i _ _ => i
  | .refund i _ _ => i

/-- Who received it. -/
def recipient : Sent → Address
  | .payout _ a _ => a
  | .refund _ a _ => a

/-- Who should have: the payee of a payout, the payer of a refund. -/
def party (st : Stream) : Sent → Address
  | .payout _ _ _ => st.payee
  | .refund _ _ _ => st.payer

/-- The amount of a payout. -/
def payoutOf (i : Id) : Sent → ℕ
  | .payout j _ a => if j = i then a else 0
  | .refund _ _ _ => 0

/-- The amount of a refund. -/
def refundOf (i : Id) : Sent → ℕ
  | .payout _ _ _ => 0
  | .refund j _ a => if j = i then a else 0

end Sent

/-- The value sent to the payee of a stream. -/
def paidOut (i : Id) (l : List Sent) : ℕ := (l.map (Sent.payoutOf i)).sum

/-- The value sent back to the payer of a stream. -/
def refundedOut (i : Id) (l : List Sent) : ℕ := (l.map (Sent.refundOf i)).sum

theorem paidOut_append (i : Id) (l m : List Sent) : paidOut i (l ++ m) = paidOut i l + paidOut i m := by
  simp [paidOut]

/-- What was refunded in two stretches. -/
theorem refundedOut_append (i : Id) (l m : List Sent) :
    refundedOut i (l ++ m) = refundedOut i l + refundedOut i m := by
  simp [refundedOut]

/-- Entries for one stream are not for another. -/
theorem sent_other {i j : Id} (hij : i ≠ j) {l : List Sent} (hl : ∀ e ∈ l, e.id = j) :
    paidOut i l = 0 ∧ refundedOut i l = 0 := by
  induction l with
  | nil => exact ⟨rfl, rfl⟩
  | cons e l ih =>
      obtain ⟨h1, h2⟩ := ih fun e he => hl e (by simp [he])
      have hj := hl e (by simp)
      simp only [paidOut, refundedOut, List.map_cons, List.sum_cons] at h1 h2 ⊢
      cases e <;> simp_all [Sent.payoutOf, Sent.refundOf, Sent.id, hij.symm]

namespace Kont

/-- The function that is suspended. -/
def call : Kont → Call
  | .withdrawing id _ => .withdraw id
  | .stopPaying id _ _ => .stop id
  | .stopRefunding id _ _ => .stop id

/-- The refund still to be sent. -/
def due : Kont → ℕ
  | .stopPaying _ _ refund => refund
  | _ => 0

/-- The refund still to be sent to the payer of a stream. -/
def dueFor (i : Id) : Kont → ℕ
  | .stopPaying id _ refund => if id = i then refund else 0
  | _ => 0

end Kont

/-- What an open stream may still cost the contract. -/
def Stream.liability (st : Stream) : ℕ := if st.closed then 0 else st.deposited - st.withdrawn

/-- What a closed stream leaves to its payer. -/
def Stream.tail (st : Stream) : ℕ := if st.closed then st.deposited - st.accrued else 0

/-! ## The ledger -/

/-- The accounts of the contract, while `stop` calls that are running owe `due` in total, `dueFor` by
stream. -/
structure Ledger (dueFor : Id → ℕ) (due : ℕ) (s : State) : Prop where
  bounds : ∀ i, (s.streams i).withdrawn ≤ (s.streams i).accrued ∧
    (s.streams i).accrued ≤ (s.streams i).deposited
  settled : ∀ i, (s.streams i).closed = true → (s.streams i).withdrawn = (s.streams i).accrued
  unopened : ∀ i, (s.streams i).payer = 0 → s.streams i = .zero
  paid : ∀ i, paidOut i s.sent = (s.streams i).withdrawn
  refunded : ∀ i, refundedOut i s.sent + dueFor i = (s.streams i).tail
  recipients : ∀ e ∈ s.sent, (s.streams e.id).payer ≠ 0 ∧ e.recipient = e.party (s.streams e.id)
  backed : ∀ S : Finset Id, ∑ i ∈ S, (s.streams i).liability + due ≤ s.balance

/-- Rewriting one stream changes the total of the liabilities by the difference. -/
theorem backed_update {f : Id → Stream} {i : Id} {st : Stream} {d d' B B' : ℕ}
    (h : ∀ S : Finset Id, ∑ j ∈ S, (f j).liability + d ≤ B)
    (hle : st.liability + d' + B ≤ (f i).liability + d + B') (S : Finset Id) :
    ∑ j ∈ S, (Function.update f i st j).liability + d' ≤ B' := by
  have hnew : ∑ j ∈ insert i S, (Function.update f i st j).liability =
      st.liability + ∑ j ∈ S.erase i, (f j).liability := by
    rw [← Finset.add_sum_erase _ _ (Finset.mem_insert_self i S), Function.update_self,
      Finset.erase_insert_eq_erase]
    congr 1
    refine Finset.sum_congr rfl fun j hj => ?_
    rw [Function.update_of_ne (Finset.ne_of_mem_erase hj)]
  have hold : ∑ j ∈ insert i S, (f j).liability =
      (f i).liability + ∑ j ∈ S.erase i, (f j).liability := by
    rw [← Finset.add_sum_erase _ _ (Finset.mem_insert_self i S), Finset.erase_insert_eq_erase]
  have hsub : ∑ j ∈ S, (Function.update f i st j).liability ≤
      ∑ j ∈ insert i S, (Function.update f i st j).liability :=
    Finset.sum_le_sum_of_subset (Finset.subset_insert i S)
  have := h (insert i S)
  omega

section
variable {D D' : Id → ℕ} {d d' : ℕ} {s s' : State}

/-- **One stream.** The ledger survives a call that rewrites one stream and sends value for it, when
the stream's own accounts balance. -/
theorem Ledger.update (h : Ledger D d s) {i : Id} {st : Stream} {l : List Sent}
    (hstreams : s'.streams = Function.update s.streams i st) (hsent : s'.sent = s.sent ++ l)
    (hbounds : st.withdrawn ≤ st.accrued ∧ st.accrued ≤ st.deposited)
    (hsettled : st.closed = true → st.withdrawn = st.accrued) (hopen : st.payer ≠ 0)
    (hparty : (s.streams i).payer ≠ 0 →
      st.payer = (s.streams i).payer ∧ st.payee = (s.streams i).payee)
    (hl : ∀ e ∈ l, e.id = i ∧ e.recipient = e.party st)
    (hpaid : (s.streams i).withdrawn + paidOut i l = st.withdrawn)
    (hrefunded : refundedOut i l + D' i + (s.streams i).tail = D i + st.tail)
    (hD : ∀ j, j ≠ i → D' j = D j)
    (hbacked : st.liability + d' + s.balance ≤ (s.streams i).liability + d + s'.balance) :
    Ledger D' d' s' := by
  have hsame : s'.streams i = st := by rw [hstreams, Function.update_self]
  have hother : ∀ j, j ≠ i → s'.streams j = s.streams j := fun j hj => by
    rw [hstreams, Function.update_of_ne hj]
  have hzero : ∀ j, j ≠ i → paidOut j l = 0 ∧ refundedOut j l = 0 := fun j hj =>
    sent_other hj fun e he => (hl e he).1
  refine ⟨fun j => ?_, fun j hj => ?_, fun j hj => ?_, fun j => ?_, fun j => ?_, fun e he => ?_, ?_⟩
  · by_cases hji : j = i
    · rwa [hji, hsame]
    · rw [hother j hji]
      exact h.bounds j
  · by_cases hji : j = i
    · rw [hji, hsame] at hj ⊢
      exact hsettled hj
    · rw [hother j hji] at hj ⊢
      exact h.settled j hj
  · by_cases hji : j = i
    · rw [hji, hsame] at hj
      exact absurd hj hopen
    · rw [hother j hji] at hj ⊢
      exact h.unopened j hj
  · rw [hsent, paidOut_append, h.paid j]
    by_cases hji : j = i
    · rw [hji, hsame, hpaid]
    · rw [hother j hji, (hzero j hji).1, Nat.add_zero]
  · have := h.refunded j
    rw [hsent, refundedOut_append]
    by_cases hji : j = i
    · subst hji
      rw [hsame]
      omega
    · rw [hother j hji, (hzero j hji).2, hD j hji]
      omega
  · rw [hsent, List.mem_append] at he
    rcases he with he | he
    · obtain ⟨h1, h2⟩ := h.recipients e he
      by_cases hei : e.id = i
      · rw [hei] at h1 h2 ⊢
        rw [hsame]
        obtain ⟨h3, h4⟩ := hparty h1
        refine ⟨hopen, h2.trans ?_⟩
        cases e <;> simp [Sent.party, h3, h4]
      · rw [hother _ hei]
        exact ⟨h1, h2⟩
    · obtain ⟨h1, h2⟩ := hl e he
      rw [h1, hsame]
      exact ⟨hopen, h2⟩
  · rw [hstreams]
    exact backed_update h.backed hbacked

/-- A state that differs in the log and the time has the same ledger. -/
theorem Ledger.congr (h : Ledger D d s) (hstreams : s'.streams = s.streams)
    (hsent : s'.sent = s.sent) (hbalance : s.balance ≤ s'.balance) : Ledger D d s' := by
  obtain ⟨h1, h2, h3, h4, h5, h6, h7⟩ := h
  refine ⟨?_, ?_, ?_, ?_, ?_, ?_, ?_⟩ <;> rw [hstreams]
  · exact h1
  · exact h2
  · exact h3
  · rwa [hsent]
  · rwa [hsent]
  · rwa [hsent]
  · exact fun S => (h7 S).trans hbalance

/-! ## Steps -/

/-- The refund a suspended call owes, zero for a call that has returned. -/
def due (ko : Option Kont) : ℕ := ko.elim 0 Kont.due

/-- The refund a suspended call owes for a stream. -/
def dueFor (ko : Option Kont) (i : Id) : ℕ := ko.elim 0 (Kont.dueFor i)

/-- The end of `stop` sends the refund that was owed. -/
theorem Ledger.refund {id : Id} {toPayee refund : ℕ} {ko : Option Kont}
    (h : Ledger (fun i => D i + if id = i then refund else 0) (d + refund) s)
    (hpayer : (s.streams id).payer ≠ 0) (hr : Refunded s id toPayee refund s' ko) :
    Ledger D d s' ∧ due ko = 0 ∧ ∀ i, dueFor ko i = 0 := by
  cases hr with
  | send hpos hle =>
      refine ⟨h.update (Function.update_eq_self id s.streams).symm rfl (h.bounds id) (h.settled id)
        hpayer (fun _ => ⟨rfl, rfl⟩) ?_ ?_ ?_ ?_ ?_, rfl, fun _ => rfl⟩
      · simp [Sent.id, Sent.recipient, Sent.party]
      · simp [paidOut, Sent.payoutOf]
      · simp [refundedOut, Sent.refundOf]
        omega
      · intro j hj
        simp [hj.symm]
      · simp only
        omega
  | none =>
      refine ⟨?_, rfl, fun _ => rfl⟩
      simp only [Nat.add_zero, ite_self] at h
      exact h.congr rfl rfl le_rfl

/-- **A message call keeps the ledger.** -/
theorem Ledger.effect {c : Call} {ko : Option Kont} (h : Ledger D d s) (he : Effect s c s' ko) :
    Ledger (fun i => D i + dueFor ko i) (d + due ko) s' := by
  cases he with
  | @«open» id payer payee rate value hfresh hpayer =>
      have hz := h.unopened id hfresh
      refine h.update (i := id) (l := []) rfl (by simp) ⟨le_rfl, by simp⟩ (by simp) hpayer
        (fun hne => absurd hfresh hne) (by simp) ?_ ?_ (fun _ _ => rfl) ?_
      · simp [hz, Stream.zero, paidOut]
      · simp [hz, Stream.zero, refundedOut, dueFor, Stream.tail]
      · simp [hz, Stream.zero, due, Stream.liability]
        omega
  | @withdraw id amount hpayee hcomputes hamount hpos hle =>
      have hb := h.bounds id
      have hacc := Stream.accruedAt_bounds s.timestamp hb.2
      have hopen : (s.streams id).closed = false := by
        by_contra hc
        have hcl : (s.streams id).closed = true := by simpa using hc
        have := h.settled id hcl
        rw [Stream.accruedAt_of_not_live (by simp [Stream.live, hcl])] at hamount
        omega
      refine h.update (i := id) rfl rfl ⟨le_rfl, hacc.2⟩ (fun _ => rfl) ?_ (fun _ => ⟨rfl, rfl⟩) ?_
        ?_ ?_ (fun _ _ => rfl) ?_
      · intro hz
        exact hpayee (by rw [h.unopened id hz]; rfl)
      · simp [Sent.id, Sent.recipient, Sent.party]
      · simp [paidOut, Sent.payoutOf, hamount]
      · simp [refundedOut, Sent.refundOf, dueFor, Kont.dueFor, Stream.tail, hopen]
      · simp [due, Kont.due, Stream.liability, hopen]
        omega
  | @pause id hpayer hlive hcomputes =>
      have hb := h.bounds id
      have hacc := Stream.accruedAt_bounds s.timestamp hb.2
      have hopen : (s.streams id).closed = false := by
        simp only [Stream.live, Bool.and_eq_true, Bool.not_eq_true'] at hlive
        exact hlive.2
      refine h.update (i := id) (l := []) rfl (by simp) ⟨hb.1.trans hacc.1, hacc.2⟩ (by simp [hopen])
        hpayer (fun _ => ⟨rfl, rfl⟩) (by simp) ?_ ?_ (fun _ _ => rfl) ?_
      · simp [paidOut]
      · simp [refundedOut, dueFor, Stream.tail, hopen]
      · simp [due, Stream.liability, hopen]
  | @resume id hpayer hclosed hactive =>
      refine h.update (i := id) (l := []) rfl (by simp) (h.bounds id) (by simp [hclosed]) hpayer
        (fun _ => ⟨rfl, rfl⟩) (by simp) ?_ ?_ (fun _ _ => rfl) ?_
      · simp [paidOut]
      · simp [refundedOut, dueFor, Stream.tail, hclosed]
      · simp [due, Stream.liability, hclosed]
  | @stopPay id toPayee refund hpayer hclosed hcomputes htoPayee hrefund hpos hle =>
      refine h.update (i := id) rfl rfl ⟨le_rfl, by simp; omega⟩ (fun _ => rfl) hpayer
        (fun _ => ⟨rfl, rfl⟩) ?_ ?_ ?_ ?_ ?_
      · simp [Sent.id, Sent.recipient, Sent.party]
      · simp [paidOut, Sent.payoutOf, htoPayee]
      · simp [refundedOut, Sent.refundOf, dueFor, Kont.dueFor, Stream.tail, hclosed]
        omega
      · intro j hj
        simp [dueFor, Kont.dueFor, hj.symm]
      · simp [due, Kont.due, Stream.liability, hclosed]
        omega
  | @stop id refund _ _ hpayer hclosed hcomputes htoPayee hrefund hrest =>
      have hstop : Ledger (fun i => D i + if id = i then refund else 0) (d + refund)
          (s.stopped id) := by
        refine h.update (i := id) (l := []) rfl (by simp [State.stopped, State.setStream])
          ⟨le_rfl, by simp; omega⟩ (fun _ => rfl) hpayer (fun _ => ⟨rfl, rfl⟩) (by simp) ?_ ?_ ?_ ?_
        · simp [paidOut, htoPayee]
        · simp [refundedOut, Stream.tail, hclosed]
          omega
        · intro j hj
          simp [hj.symm]
        · simp [State.stopped, State.setStream, Stream.liability, hclosed]
          omega
      have hpayer' : ((s.stopped id).streams id).payer ≠ 0 := by
        simpa [State.stopped, State.setStream] using hpayer
      obtain ⟨hL, h1, h2⟩ := hstop.refund hpayer' hrest
      simpa [h1, h2] using hL

end

/-! ## Runs -/

section
variable {addr : Address}

/-- The refunds that suspended calls owe. -/
def dues (K : List (Pending State (Entry addr) Kont)) : ℕ := (K.map (·.kont.due)).sum

/-- The refunds that suspended calls owe for a stream. -/
def duesFor (K : List (Pending State (Entry addr) Kont)) (i : Id) : ℕ :=
  (K.map (·.kont.dueFor i)).sum

/-- The invariant of runs: the ledger, and for every stream at most one `stop`, which is running or
has returned exactly when the stream is closed. -/
structure Inv (K : List (Pending State (Entry addr) Kont)) (w : World State (Entry addr) Kont) :
    Prop where
  ledger : Ledger (duesFor K) (dues K) w.1
  konts : ∀ p ∈ K, p.kont.call = p.entry.call
  stops : ∀ i, K.countP (·.entry.call = .stop i) + w.2.countP (·.entry.call = .stop i) =
    if (w.1.streams i).closed then 1 else 0

/-- A refund writes no stream. -/
theorem Refunded.streams {s s' : State} {id : Id} {t r : ℕ} {ko : Option Kont}
    (h : Refunded s id t r s' ko) : s'.streams = s.streams := by
  cases h <;> rfl

/-- The suspension point of a call is one of its own. -/
theorem Refunded.call {s s' : State} {id : Id} {t r : ℕ} {k : Kont}
    (h : Refunded s id t r s' (some k)) : k.call = .stop id := by
  cases h
  rfl

/-- A call that suspends is the call of its suspension point. -/
theorem Effect.call {s s' : State} {c : Call} {k : Kont} (h : Effect s c s' (some k)) :
    k.call = c := by
  cases h with
  | withdraw => rfl
  | stopPay => rfl
  | stop _ _ _ _ _ hrest => exact hrest.call

/-- A stream closes by a `stop` of its own, which finds it open. -/
theorem Effect.closed {D : Id → ℕ} {d : ℕ} {s s' : State} {c : Call} {ko : Option Kont}
    (h : Effect s c s' ko) (hL : Ledger D d s) (i : Id) :
    (if (s'.streams i).closed then 1 else 0) =
      (if (s.streams i).closed then 1 else 0) + if c = .stop i then 1 else 0 := by
  have hstop : ∀ {id : Id}, (s.streams id).closed = false →
      (if ((s.stopped id).streams i).closed then 1 else 0) =
        (if (s.streams i).closed then 1 else 0) + if Call.stop id = .stop i then 1 else 0 := by
    intro id hcl
    by_cases hi : i = id
    · subst hi
      simp [State.stopped, State.setStream, hcl]
    · simp [State.stopped, State.setStream, Function.update_of_ne hi, Ne.symm hi]
  cases h with
  | @«open» id _ _ _ _ hfresh =>
      by_cases hi : i = id
      · subst hi
        simp [hL.unopened i hfresh, Stream.zero]
      · simp [Function.update_of_ne hi]
  | @withdraw id =>
      by_cases hi : i = id
      · subst hi
        simp
      · simp [Function.update_of_ne hi]
  | @pause id =>
      by_cases hi : i = id
      · subst hi
        simp
      · simp [Function.update_of_ne hi]
  | @resume id =>
      by_cases hi : i = id
      · subst hi
        simp
      · simp [Function.update_of_ne hi]
  | stopPay _ hcl => exact hstop hcl
  | stop _ hcl _ _ _ hrest =>
      rw [hrest.streams]
      exact hstop hcl

/-- What resuming a suspended call does. -/
theorem proceed_inv {k : Kont} {s s' : State} {ko : Option Kont}
    (h : proceed addr k s = .ok (s', ko)) :
    (∃ id t r, k = .stopPaying id t r ∧ Refunded s id t r s' ko) ∨
      (∀ i, k.dueFor i = 0) ∧ k.due = 0 ∧ ko = none ∧ s'.streams = s.streams ∧
        s'.sent = s.sent ∧ s'.balance = s.balance := by
  cases k with
  | withdrawing id a =>
      cases h
      exact .inr ⟨fun _ => rfl, rfl, rfl, rfl, rfl, rfl⟩
  | stopPaying id t r => exact .inl ⟨id, t, r, rfl, refunded_of h⟩
  | stopRefunding id t r =>
      cases h
      exact .inr ⟨fun _ => rfl, rfl, rfl, rfl, rfl, rfl⟩

/-- A step is taken if the call does not revert. -/
theorem toOption_eq_some {ε α : Type} {x : Except ε α} {a : α} (h : x.toOption = some a) :
    x = .ok a := by
  cases x with
  | error => cases h
  | ok b => exact congrArg _ (Option.some.inj h)

/-- The ledger after resuming, with the suspended call's debts replaced by its new ones. -/
theorem Ledger.proceed {D : Id → ℕ} {d : ℕ} {k : Kont} {s s' : State} {ko : Option Kont}
    (h : Ledger (fun i => k.dueFor i + D i) (k.due + d) s) (hopen : ∀ id t r,
      k = .stopPaying id t r → (s.streams id).payer ≠ 0)
    (hr : proceed addr k s = .ok (s', ko)) :
    Ledger D d s' ∧ due ko = 0 ∧ (∀ i, dueFor ko i = 0) ∧ s'.streams = s.streams := by
  rcases proceed_inv hr with ⟨id, t, r, rfl, href⟩ | ⟨h1, h2, rfl, h3, h4, h5⟩
  · have h' : Ledger (fun i => D i + if id = i then r else 0) (d + r) s := by
      simpa only [Kont.dueFor, Kont.due, Nat.add_comm] using h
    obtain ⟨hL, h1, h2⟩ := h'.refund (hopen id t r rfl) href
    exact ⟨hL, h1, h2, href.streams⟩
  · simp only [h1, h2, Nat.zero_add] at h
    exact ⟨h.congr h3 h4 h5.ge, rfl, fun _ => rfl, h3⟩

/-- A stream with a `stop` that runs was opened. -/
theorem Inv.payer_ne {K : List (Pending State (Entry addr) Kont)}
    {w : World State (Entry addr) Kont} (h : Inv K w) {p : Pending State (Entry addr) Kont}
    (hp : p ∈ K) {id : Id} (hc : p.entry.call = .stop id) : (w.1.streams id).payer ≠ 0 := by
  intro hz
  have hcount := h.stops id
  have hpos : 0 < K.countP (·.entry.call = .stop id) :=
    List.countP_pos_iff.2 ⟨p, hp, by simpa using hc⟩
  rw [h.ledger.unopened id hz] at hcount
  simp only [Stream.zero, Bool.false_eq_true, if_false] at hcount
  omega

/-- The invariant holds at the start. -/
theorem inv_construct (t₀ : ℕ) : @Inv addr [] (construct t₀, []) where
  ledger := by
    refine ⟨?_, ?_, ?_, ?_, ?_, ?_, ?_⟩ <;>
      simp [construct, Stream.zero, paidOut, refundedOut, duesFor, dues, Stream.tail,
        Stream.liability]
  konts := by simp
  stops := by simp [construct, Stream.zero]

/-- **The step lemma.** -/
theorem preserves_inv (addr : Address) : Preserves (machine addr) Inv where
  enter_done := by
    intro K s tr e s' hI he
    have heff := effect_of (toOption_eq_some he)
    refine ⟨by simpa [due, dueFor] using hI.ledger.effect heff, hI.konts, fun i => ?_⟩
    have := hI.stops i
    simp only [heff.closed hI.ledger i, List.countP_append, List.countP_singleton,
      decide_eq_true_eq] at this ⊢
    omega
  enter := by
    intro K s tr e s' k hI he
    have heff := effect_of (toOption_eq_some he)
    refine ⟨?_, ?_, fun i => ?_⟩
    · have hD : duesFor (⟨e, s, [], k⟩ :: K) = fun i => duesFor K i + dueFor (some k) i := by
        funext i
        simp [duesFor, dueFor, Nat.add_comm]
      have hd : dues (⟨e, s, [], k⟩ :: K) = dues K + due (some k) := by
        simp [dues, due, Nat.add_comm]
      rw [hD, hd]
      exact hI.ledger.effect heff
    · rintro p hp
      rcases List.mem_cons.1 hp with rfl | hp
      · exact heff.call
      · exact hI.konts p hp
    · have := hI.stops i
      simp only [heff.closed hI.ledger i, List.countP_cons, decide_eq_true_eq] at this ⊢
      omega
  resume_done := by
    intro K p s tr s' hI hr
    have hopen : ∀ id t r, p.kont = .stopPaying id t r → (s.streams id).payer ≠ 0 :=
      fun id t r hk => hI.payer_ne (p := p) (by simp) (by
        rw [← hI.konts p (by simp), hk]
        rfl)
    obtain ⟨hL, -, -, hst⟩ := hI.ledger.proceed hopen (toOption_eq_some hr)
    refine ⟨hL, fun q hq => hI.konts q (by simp [hq]), fun i => ?_⟩
    have := hI.stops i
    simp only [hst, Pending.finish, List.countP_append, List.countP_cons,
      List.countP_nil] at this ⊢
    omega
  resume := by
    intro K p s tr s' k hI hr
    have hcall := hI.konts p (by simp)
    have hopen : ∀ id t r, p.kont = .stopPaying id t r → (s.streams id).payer ≠ 0 :=
      fun id t r hk => hI.payer_ne (p := p) (by simp) (by
        rw [← hcall, hk]
        rfl)
    have hr' := toOption_eq_some hr
    obtain ⟨hL, h1, h2, hst⟩ := hI.ledger.proceed hopen hr'
    refine ⟨?_, ?_, fun i => ?_⟩
    · have hD : duesFor (p.advance k :: K) = duesFor K := by
        funext i
        simpa [duesFor, Pending.advance, dueFor] using h2 i
      have hd : dues (p.advance k :: K) = dues K := by
        simpa [dues, Pending.advance, due] using h1
      rw [hD, hd]
      exact hL
    · rintro q hq
      rcases List.mem_cons.1 hq with rfl | hq
      · rcases proceed_inv hr' with ⟨id, t, r, hk, href⟩ | ⟨-, -, hk, -⟩
        · rw [Pending.advance, href.call, ← hcall, hk]
          rfl
        · cases hk
      · exact hI.konts q (by simp [hq])
    · have := hI.stops i
      simpa only [hst, Pending.advance, List.countP_cons] using this
  act := by
    intro K s tr a s' hI ha
    refine ⟨?_, hI.konts, ?_⟩
    · cases a with
      | wait n =>
          simp only [machine] at ha
          split at ha
          · cases ha
            exact hI.ledger.congr rfl rfl le_rfl
          · cases ha
      | receive n =>
          cases ha
          exact hI.ledger.congr rfl rfl (Nat.le_add_right _ _)
    · cases a with
      | wait n =>
          simp only [machine] at ha
          split at ha
          · cases ha
            exact hI.stops
          · cases ha
      | receive n =>
          cases ha
          exact hI.stops

/-- The invariant wherever control is outside. -/
theorem Inv.of_reachable {t₀ : ℕ} {K : List (Pending State (Entry addr) Kont)}
    {w : World State (Entry addr) Kont} (h : Reachable addr t₀ K w) : Inv K w :=
  (preserves_inv addr).reach (inv_construct t₀) h


/-! ## After a stop -/

/-- The stream a call is about. -/
def Call.id : Call → Id
  | .open i _ _ => i
  | .withdraw i => i
  | .pause i => i
  | .resume i => i
  | .stop i => i

/-- A refund sends nothing for another stream. -/
theorem Refunded.frame {s s' : State} {id i : Id} {t r : ℕ} {ko : Option Kont}
    (h : Refunded s id t r s' ko) (hi : id ≠ i) :
    s'.sent.filter (·.id = i) = s.sent.filter (·.id = i) := by
  cases h with
  | send => simp [Sent.id, hi]
  | none => rfl

/-- A call leaves the other streams alone. -/
theorem Effect.frame {s s' : State} {c : Call} {ko : Option Kont} (h : Effect s c s' ko) {i : Id}
    (hi : c.id ≠ i) : s'.streams i = s.streams i ∧
      s'.sent.filter (·.id = i) = s.sent.filter (·.id = i) := by
  have hi' : i ≠ c.id := hi.symm
  have hsent : ∀ (e : Sent), e.id = c.id →
      (s.sent ++ [e]).filter (·.id = i) = s.sent.filter (·.id = i) := by
    intro e he
    simp [he, hi]
  cases h with
  | «open» => exact ⟨Function.update_of_ne hi' _ _, rfl⟩
  | withdraw => exact ⟨Function.update_of_ne hi' _ _, hsent _ rfl⟩
  | pause => exact ⟨Function.update_of_ne hi' _ _, rfl⟩
  | resume => exact ⟨Function.update_of_ne hi' _ _, rfl⟩
  | stopPay => exact ⟨Function.update_of_ne hi' _ _, hsent _ rfl⟩
  | stop _ _ _ _ _ hrest =>
      rw [hrest.streams, hrest.frame hi]
      exact ⟨Function.update_of_ne hi' _ _, rfl⟩

/-- Nothing succeeds on a closed stream whose payee has been paid. -/
theorem Effect.id_ne {s s' : State} {c : Call} {ko : Option Kont} (h : Effect s c s' ko) {i : Id}
    (hclosed : (s.streams i).closed = true) (hpayer : (s.streams i).payer ≠ 0)
    (hsettled : (s.streams i).withdrawn = (s.streams i).accrued) : c.id ≠ i := by
  rintro rfl
  cases h with
  | «open» hfresh => exact hpayer hfresh
  | withdraw _ _ hamount hpos =>
      rw [Call.id] at hclosed hsettled
      rw [Stream.accruedAt_of_not_live (by simp [Stream.live, hclosed])] at hamount
      omega
  | pause _ hlive =>
      rw [Call.id] at hclosed
      simp [Stream.live, hclosed] at hlive
  | resume _ hopen => simp [Call.id, hopen] at hclosed
  | stopPay _ hopen => simp [Call.id, hopen] at hclosed
  | stop _ hopen => simp [Call.id, hopen] at hclosed

/-- The stream `i` is `st`, the value sent for it is `l`, and no running `stop` will send more. -/
structure Frozen (i : Id) (st : Stream) (l : List Sent)
    (K : List (Pending State (Entry addr) Kont)) (w : World State (Entry addr) Kont) : Prop where
  stream : w.1.streams i = st
  sent : w.1.sent.filter (·.id = i) = l
  quiet : ∀ p ∈ K, ∀ t r, p.kont ≠ .stopPaying i t r

/-- Once stopped, a stream stays as it is. -/
theorem preserves_frozen {i : Id} {st : Stream} {l : List Sent} (hclosed : st.closed = true)
    (hpayer : st.payer ≠ 0) (hsettled : st.withdrawn = st.accrued) :
    Preserves (machine addr) (Frozen i st l) := by
  have hne : ∀ {s s' c ko}, s.streams i = st → Effect s c s' ko → c.id ≠ i := by
    rintro s s' c ko rfl he
    exact he.id_ne hclosed hpayer hsettled
  -- a suspended call that resumes sends for a stream other than `i`
  have hresume : ∀ {K : List (Pending State (Entry addr) Kont)} {p s tr s' ko},
      Frozen i st l (p :: K) (s, tr) → proceed addr p.kont s = .ok (s', ko) →
      s'.streams i = st ∧ s'.sent.filter (·.id = i) = l ∧
        ∀ k, ko = some k → ∀ t r, k ≠ .stopPaying i t r := by
    intro K p s tr s' ko hI hr
    rcases proceed_inv hr with ⟨id, t, r, hk, href⟩ | ⟨-, -, rfl, h3, h4, -⟩
    · have hid : id ≠ i := by
        rintro rfl
        exact hI.quiet p (by simp) t r hk
      refine ⟨by rw [href.streams]; exact hI.stream, by rw [href.frame hid]; exact hI.sent, ?_⟩
      rintro k rfl
      cases href
      simp
    · exact ⟨by rw [h3]; exact hI.stream, by rw [h4]; exact hI.sent, by simp⟩
  constructor
  · intro K s tr e s' hI he
    have heff := effect_of (toOption_eq_some he)
    obtain ⟨h1, h2⟩ := heff.frame (hne hI.stream heff)
    exact ⟨h1.trans hI.stream, h2.trans hI.sent, hI.quiet⟩
  · intro K s tr e s' k hI he
    have heff := effect_of (toOption_eq_some he)
    have hid := hne hI.stream heff
    obtain ⟨h1, h2⟩ := heff.frame hid
    refine ⟨h1.trans hI.stream, h2.trans hI.sent, ?_⟩
    rintro p hp t r hk
    rcases List.mem_cons.1 hp with rfl | hp
    · have hcall := heff.call
      obtain rfl : k = _ := hk
      rw [← hcall] at hid
      exact hid rfl
    · exact hI.quiet p hp t r hk
  · intro K p s tr s' hI hr
    obtain ⟨h1, h2, -⟩ := hresume hI (toOption_eq_some hr)
    exact ⟨h1, h2, fun q hq => hI.quiet q (by simp [hq])⟩
  · intro K p s tr s' k hI hr
    obtain ⟨h1, h2, h3⟩ := hresume hI (toOption_eq_some hr)
    refine ⟨h1, h2, ?_⟩
    rintro q hq
    rcases List.mem_cons.1 hq with rfl | hq
    · exact h3 k rfl
    · exact hI.quiet q (by simp [hq])
  · intro K s tr a s' hI ha
    cases a with
    | wait n =>
        simp only [machine] at ha
        split at ha
        · cases ha
          exact ⟨hI.stream, hI.sent, hI.quiet⟩
        · cases ha
    | receive n =>
        cases ha
        exact ⟨hI.stream, hI.sent, hI.quiet⟩

/-- **Conservation.** Wherever control is outside of the contract, for arbitrary payers and payees:
the balance covers what every open stream still holds and the refunds of running `stop` calls, every
stream has `withdrawn ≤ accrued ≤ deposited`, and for a stream whose `stop` has returned the value
sent to its payee and the refund to its payer make up the deposit and nothing more moves for it. -/
theorem conservation {t₀ : ℕ} {K : List (Pending State (Entry addr) Kont)} {s : State}
    {tr : List (Frame State (Entry addr) Kont)} (h : Reachable addr t₀ K (s, tr)) :
    (∀ S : Finset Id, ∑ i ∈ S with (s.streams i).closed = false,
        ((s.streams i).deposited - (s.streams i).withdrawn) + dues K ≤ s.balance) ∧
      (∀ i, (s.streams i).withdrawn ≤ (s.streams i).accrued ∧
        (s.streams i).accrued ≤ (s.streams i).deposited) ∧
      ∀ i, (∃ f ∈ tr, f.entry.call = .stop i) →
        (∀ e ∈ s.sent, e.id = i → e.recipient = e.party (s.streams i)) ∧
        paidOut i s.sent + refundedOut i s.sent = (s.streams i).deposited ∧
        ∀ K' s' tr', Reach (machine addr) K (s, tr) K' (s', tr') →
          s'.streams i = s.streams i ∧
            s'.sent.filter (·.id = i) = s.sent.filter (·.id = i) := by
  have hI := Inv.of_reachable h
  refine ⟨fun S => ?_, hI.ledger.bounds, ?_⟩
  · refine le_trans (Nat.add_le_add_right ?_ _) (hI.ledger.backed S)
    rw [Finset.sum_filter]
    refine Finset.sum_le_sum fun i _ => ?_
    cases hc : (s.streams i).closed <;> simp [Stream.liability, hc]
  · rintro i ⟨f, hf, hcall⟩
    -- the one `stop` has returned: the stream is closed, and no other `stop` of it is running
    have hcount := hI.stops i
    dsimp only at hcount
    have hpos : 0 < tr.countP (·.entry.call = .stop i) :=
      List.countP_pos_iff.2 ⟨f, hf, by simpa using hcall⟩
    have hclosed : (s.streams i).closed = true := by
      by_contra hc
      rw [if_neg hc] at hcount
      omega
    rw [if_pos hclosed] at hcount
    have hnone : ∀ p ∈ K, p.entry.call ≠ .stop i := by
      have := List.countP_eq_zero.1 (show K.countP (·.entry.call = .stop i) = 0 by omega)
      simpa using this
    have hpayer : (s.streams i).payer ≠ 0 := fun hz => by
      rw [hI.ledger.unopened i hz] at hclosed
      cases hclosed
    have hquiet : ∀ p ∈ K, ∀ t r, p.kont ≠ .stopPaying i t r := by
      intro p hp t r hk
      refine hnone p hp ?_
      rw [← hI.konts p hp, hk]
      rfl
    have hdue : duesFor K i = 0 := by
      rw [duesFor, List.sum_eq_zero_iff]
      intro x hx
      obtain ⟨p, hp, rfl⟩ := List.mem_map.1 hx
      cases hk : p.kont with
      | stopPaying j t r =>
          have : j ≠ i := by
            rintro rfl
            exact hquiet p hp t r hk
          simp [Kont.dueFor, this]
      | _ => rfl
    have hsettled := hI.ledger.settled i hclosed
    have hb := hI.ledger.bounds i
    refine ⟨?_, ?_, ?_⟩
    · rintro e he rfl
      exact (hI.ledger.recipients e he).2
    · have h1 := hI.ledger.paid i
      have h2 := hI.ledger.refunded i
      rw [hdue, Stream.tail, if_pos hclosed] at h2
      simp only at h1 h2 hb hsettled
      omega
    · intro K' s' tr' hreach
      have := (preserves_frozen hclosed hpayer hsettled).reach ⟨rfl, rfl, hquiet⟩ hreach
      exact ⟨this.stream, this.sent⟩

/-- Open a stream of 100 at one per second, let it pay 30 seconds, and stop it. -/
theorem conservation_stopped : ∃ K s tr, Reachable 9 0 K (s, tr) ∧
    (∃ f ∈ tr, f.entry.call = .stop 7) ∧ (s.streams 7).deposited = 100 ∧
    paidOut 7 s.sent + refundedOut 7 s.sent = (s.streams 7).deposited := by
  have hopen : Reachable 9 0 [] _ := .enter_done (e := ⟨1, 100, .open 7 2 1, by decide, by decide⟩)
    .refl rfl
  have hwait := hopen.act (a := .wait 30) rfl
  have hstop := hwait.enter (e := ⟨1, 0, .stop 7, by decide, by decide⟩) rfl
  have hrefund := hstop.resume rfl
  have hdone := hrefund.resume_done rfl
  refine ⟨_, _, _, hdone, ⟨_, List.mem_append_right _ (List.mem_singleton_self _), rfl⟩, rfl, ?_⟩
  exact ((conservation hdone).2.2 7
    ⟨_, List.mem_append_right _ (List.mem_singleton_self _), rfl⟩).2.1

end

end ShadePay.StreamPay
