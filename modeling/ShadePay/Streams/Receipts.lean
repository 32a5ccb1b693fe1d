import Mathlib.Data.List.Permutation
import ShadePay.Evm.StreamLog

/-!
# Receipts

`packages/sdk/src/receipts.ts`: `reconstructChannelReceipt` folds the events of the escrow, in any
order, into the receipt of one channel; `fetchChannelReceipt` of `arc-actions` queries them from the
chain. `Reproduces` relates a receipt to the operations of a run on the channel and to its record, and
`receipts_reproduce` says that every receipt of an opened channel is so related.
-/

namespace ShadePay.Streams

open Guard Reentrancy Evm

/-! ## Events off chain -/

/-- `ChannelOpenedEvent`. -/
structure ChannelOpenedEvent where
  channelId : ℤ
  cap : ℤ
  expiry : ℤ
  changeCommitment : ℤ
  txHash : String
deriving DecidableEq

/-- `ChannelSettledEvent`. -/
structure ChannelSettledEvent where
  channelId : ℤ
  cumulative : ℤ
  payeeCommitment : ℤ
  refundCommitment : ℤ
  txHash : String
deriving DecidableEq

/-- `ChannelReclaimedEvent`. -/
structure ChannelReclaimedEvent where
  channelId : ℤ
  cap : ℤ
  reclaimCommitment : ℤ
  txHash : String
deriving DecidableEq

/-- `ChannelEvent`. -/
inductive ChannelEvent where
  | opened (e : ChannelOpenedEvent)
  | settled (e : ChannelSettledEvent)
  | reclaimed (e : ChannelReclaimedEvent)
deriving DecidableEq

namespace ChannelEvent

def channelId : ChannelEvent → ℤ
  | .opened e => e.channelId
  | .settled e => e.channelId
  | .reclaimed e => e.channelId

/-- `e.kind === "opened"`. -/
def opened? : ChannelEvent → Option ChannelOpenedEvent
  | .opened e => some e
  | _ => none

/-- `e.kind === "settled"`. -/
def settled? : ChannelEvent → Option ChannelSettledEvent
  | .settled e => some e
  | _ => none

/-- `e.kind === "reclaimed"`. -/
def reclaimed? : ChannelEvent → Option ChannelReclaimedEvent
  | .reclaimed e => some e
  | _ => none

end ChannelEvent

/-- An event of the chain and the hash of its transaction, as `fetchChannelReceipt` reads them. -/
def channelEvent : Event × String → Option ChannelEvent
  | (.channelOpened c cap expiry change, h) => some (.opened ⟨c, cap, expiry, change, h⟩)
  | (.channelSettled c cumulative payee refund, h) => some (.settled ⟨c, cumulative, payee, refund, h⟩)
  | (.channelReclaimed c cap reclaim, h) => some (.reclaimed ⟨c, cap, reclaim, h⟩)
  | _ => none

/-! ## Receipts -/

/-- `ChannelState`. -/
inductive ChannelState where
  | open
  | settled
  | reclaimed
deriving DecidableEq

/-- Who a part of the split is for. -/
inductive Recipient where
  | payee
  | payer
deriving DecidableEq

/-- A part of the split. -/
structure Part where
  recipient : Recipient
  amount : ℤ
  commitment : ℤ
deriving DecidableEq

/-- `StreamReceipt`. -/
structure StreamReceipt where
  channelId : ℤ
  state : ChannelState
  cap : ℤ
  gross : ℤ
  split : List Part
  openTxHash : String
  closeTxHash : Option String
deriving DecidableEq

/-- What `reconstructChannelReceipt` throws. -/
inductive ReceiptError where
  /-- `no ChannelOpened event for channel ...`. -/
  | noOpened (channelId : ℤ)
  /-- `channel ... has both settle and reclaim events`. -/
  | both (channelId : ℤ)
deriving DecidableEq

/-- `reconstructChannelReceipt`. -/
def reconstructChannelReceipt (channelId : ℤ) (events : List ChannelEvent) :
    Except ReceiptError StreamReceipt :=
  let forChannel := events.filter fun e => e.channelId = channelId
  match forChannel.findSome? ChannelEvent.opened? with
  | none => .error (.noOpened channelId)
  | some opened =>
      match forChannel.findSome? ChannelEvent.settled?,
        forChannel.findSome? ChannelEvent.reclaimed? with
      | some _, some _ => .error (.both channelId)
      | some settled, none => .ok {
          channelId := channelId
          state := .settled
          cap := opened.cap
          gross := settled.cumulative
          split := [⟨.payee, settled.cumulative, settled.payeeCommitment⟩,
            ⟨.payer, opened.cap - settled.cumulative, settled.refundCommitment⟩]
          openTxHash := opened.txHash
          closeTxHash := some settled.txHash }
      | none, some reclaimed => .ok {
          channelId := channelId
          state := .reclaimed
          cap := opened.cap
          gross := 0
          split := [⟨.payer, reclaimed.cap, reclaimed.reclaimCommitment⟩]
          openTxHash := opened.txHash
          closeTxHash := some reclaimed.txHash }
      | none, none => .ok {
          channelId := channelId
          state := .open
          cap := opened.cap
          gross := 0
          split := []
          openTxHash := opened.txHash
          closeTxHash := none }

/-! ## What a receipt says -/

/-- The receipt of a channel, against its record and the operations on it. -/
structure Reproduces (c : ℕ) (ch : Channel) (ops : List ChannelOp) (r : StreamReceipt) : Prop where
  channelId : r.channelId = c
  cap : r.cap = ch.cap
  isOpen : r.state = .open ↔ ch.consumed = false
  /-- A consumed channel was consumed by one operation of its history. -/
  consumed : ch.consumed = true → ∃ op ∈ ops, op.inserted ≠ []
  settled : ∀ pub, .settled pub ∈ ops → r.state = .settled ∧ r.gross = pub.cumulative ∧
    r.split = [⟨.payee, pub.cumulative, pub.payeeCommitment⟩,
      ⟨.payer, ch.cap - pub.cumulative, pub.refundCommitment⟩]
  reclaimed : ∀ ch' block, .reclaimed ch' block ∈ ops → r.state = .reclaimed ∧
    r.split = [⟨.payer, ch.cap, ch.reclaimCommitment⟩]
  gross : (∀ pub, ChannelOp.settled pub ∉ ops) → r.gross = 0
  commitments : r.split.map Part.commitment = (ops.flatMap ChannelOp.inserted).map Nat.cast
  nonneg : ∀ p ∈ r.split, 0 ≤ p.amount
  sum : (r.split.map Part.amount).sum = if ch.consumed then (ch.cap : ℤ) else 0

section
variable {E : Env} {c : ℕ} {ch : Channel} {ops : List ChannelOp} {events : List ChannelEvent}

/-- What a list with one announcement is. -/
theorem announced_one {op : ChannelOp} {log : List (Event × String)}
    (h : List.Forall₂ (Announces c) [op] (log.map Prod.fst)) :
    ∃ e t, log = [(e, t)] ∧ Announces c op e := by
  obtain ⟨e, _, he, hnil, hlog⟩ := List.forall₂_cons_left_iff.1 h
  obtain rfl := List.forall₂_nil_left_iff.1 hnil
  obtain ⟨⟨_, t⟩, _, rfl, rfl, hnil⟩ := List.map_eq_cons_iff.1 hlog
  obtain rfl := List.map_eq_nil_iff.1 hnil
  exact ⟨_, t, rfl, he⟩

theorem announced_two {op op' : ChannelOp} {log : List (Event × String)}
    (h : List.Forall₂ (Announces c) [op, op'] (log.map Prod.fst)) :
    ∃ e t e' t', log = [(e, t), (e', t')] ∧ Announces c op e ∧ Announces c op' e' := by
  obtain ⟨e, _, he, hrest, hlog⟩ := List.forall₂_cons_left_iff.1 h
  obtain ⟨⟨_, t⟩, rest, rfl, rfl, rfl⟩ := List.map_eq_cons_iff.1 hlog
  obtain ⟨e', t', rfl, he'⟩ := announced_one hrest
  exact ⟨_, t, e', t', rfl, he, he'⟩

/-- The events about one channel, whatever their order and that of the others. -/
theorem reconstruct_of_perm {log : List (Event × String)} (hlife : Lifecycle E ops ch)
    (hann : List.Forall₂ (Announces c) ops (log.map Prod.fst)) (hop : ch.opened = true)
    (hperm : (events.filter fun e => e.channelId = (c : ℤ)).Perm (log.filterMap channelEvent)) :
    ∃ r, reconstructChannelReceipt c events = .ok r ∧ Reproduces c ch ops r := by
  cases hlife with
  | unopened => cases hop
  | opened _ hcon =>
      obtain ⟨_, h, rfl, hopened⟩ := announced_one hann
      cases hopened
      have hfor := List.perm_singleton.1 hperm
      refine ⟨_, by simp only [reconstructChannelReceipt, hfor]; rfl, ?_⟩
      exact ⟨rfl, rfl, by simp [hcon], by simp [hcon], by simp, by simp, fun _ => rfl, rfl, by simp,
        by simp [hcon]⟩
  | @settled ch pub _ hcon _ _ hcap _ hle =>
      obtain ⟨_, h, _, h', rfl, hopened, hsettled⟩ := announced_two hann
      cases hopened
      cases hsettled
      have hreceipt : reconstructChannelReceipt c events = .ok {
          channelId := c
          state := .settled
          cap := ch.cap
          gross := pub.cumulative
          split := [⟨.payee, pub.cumulative, pub.payeeCommitment⟩,
            ⟨.payer, ch.cap - pub.cumulative, pub.refundCommitment⟩]
          openTxHash := h
          closeTxHash := some h' } := by
        rcases List.perm_pair.1 hperm with hfor | hfor
        · simp only [reconstructChannelReceipt, hfor]
          rfl
        · simp only [reconstructChannelReceipt, hfor]
          rfl
      have hrefund : (0 : ℤ) ≤ ch.cap - pub.cumulative := by omega
      refine ⟨_, hreceipt, rfl, rfl, by simp, by simp [ChannelOp.inserted], ?_, by simp, ?_, ?_, ?_,
        ?_⟩
      · simp
      · exact fun hnone => absurd (by simp) (hnone pub)
      · simp [ChannelOp.inserted]
      · simpa using hrefund
      · simp
  | @reclaimed ch block _ hcon _ =>
      obtain ⟨_, h, _, h', rfl, hopened, hreclaimed⟩ := announced_two hann
      cases hopened
      cases hreclaimed
      have hreceipt : reconstructChannelReceipt c events = .ok {
          channelId := c
          state := .reclaimed
          cap := ch.cap
          gross := 0
          split := [⟨.payer, ch.cap, ch.reclaimCommitment⟩]
          openTxHash := h
          closeTxHash := some h' } := by
        rcases List.perm_pair.1 hperm with hfor | hfor
        · simp only [reconstructChannelReceipt, hfor]
          rfl
        · simp only [reconstructChannelReceipt, hfor]
          rfl
      refine ⟨_, hreceipt, rfl, rfl, by simp, by simp [ChannelOp.inserted], by simp, by simp,
        fun _ => rfl, ?_, ?_, ?_⟩
      · simp [ChannelOp.inserted]
      · simp
      · simp

/-- Reading the log of the chain commutes with picking out a channel. -/
theorem filter_channelEvent (log : List (Event × String)) (c : ℕ) :
    ((log.filterMap channelEvent).filter fun e => e.channelId = (c : ℤ)) =
      (log.filter fun e => e.1.channel = some c).filterMap channelEvent := by
  rw [List.filter_filterMap, List.filterMap_filter]
  refine List.filterMap_congr fun e _ => ?_
  obtain ⟨e, h⟩ := e
  cases e <;> simp [channelEvent, Event.channel, ChannelEvent.channelId, Option.filter]

variable {s₀ : State} {K : List (Reentrancy.Pending State (Entry E) Kont)}
  {w : World State (Entry E) Kont}

/-- What is known of a channel is enough, also without the events of the others. -/
theorem reconstruct_of_log (hd : Deployed E s₀) (h : Reachable E s₀ K w)
    (hop : (w.1.escrow.channels c).opened = true) {log : List (Event × String)}
    (hlog : log.map Prod.fst = w.1.events)
    (hperm : (events.filter fun e => e.channelId = (c : ℤ)).Perm
      ((log.filterMap channelEvent).filter fun e => e.channelId = (c : ℤ))) :
    ∃ r, reconstructChannelReceipt c events = .ok r ∧
      Reproduces c (w.1.escrow.channels c) (opsOf c w.2) r := by
  have hann := announced_reach hd h c
  rw [← hlog, List.filter_map] at hann
  refine reconstruct_of_perm (lifecycle_reach hd h c) hann hop ?_
  rwa [filter_channelEvent] at hperm

/-- **Receipts reproduce the escrow.** In every configuration of a run, any arrangement of the events
emitted so far gives a receipt for every opened channel. It agrees with the record of the channel and
with the operation that consumed it, whose commitments it lists; these are what the consuming calls
inserted into the pool's tree. -/
theorem receipts_reproduce (hd : Deployed E s₀) (h : Reachable E s₀ K w) :
    (∀ c, (w.1.escrow.channels c).opened = true → ∀ log : List (Event × String),
      log.map Prod.fst = w.1.events → ∀ events, events.Perm (log.filterMap channelEvent) →
      ∃ r, reconstructChannelReceipt c events = .ok r ∧
        Reproduces c (w.1.escrow.channels c) (opsOf c w.2) r) ∧
    ∀ f ∈ w.2, f.entry.call.closes = true → f.post.pool.tree.leaves =
      f.pre.pool.tree.leaves ++ (f.entry.call.channelOps f.pre).flatMap fun o => o.2.inserted :=
  ⟨fun _ hop _ hlog _ hperm => reconstruct_of_log hd h hop hlog (hperm.filter _),
    fun _ hf hcl => closes_leaves hd h hf hcl⟩

/-- Channel 3 settled at 10, with the events of its run in reverse. -/
theorem receipts_reproduce_settled :
    ∃ r, reconstructChannelReceipt 3 (((runFrom streaming (openRun ++ [settleTx])).1.events.map
        fun e => (e, "0x00")).filterMap channelEvent).reverse = .ok r ∧
      r.state = .settled ∧ r.gross = 10 ∧ (r.split.map Part.amount).sum = 100 := by
  have hrun := (@reach_run streaming (fun _ => True) (fun _ _ => trivial)
    (openRun ++ [settleTx])).of_within
  have hopened : ((runFrom streaming (openRun ++ [settleTx])).1.escrow.channels 3).opened = true := by
    decide +kernel
  have hcon : ((runFrom streaming (openRun ++ [settleTx])).1.escrow.channels 3).consumed = true := by
    decide +kernel
  have hcap : ((runFrom streaming (openRun ++ [settleTx])).1.escrow.channels 3).cap = 100 := by
    decide +kernel
  have hop : ChannelOp.settled (settleOf (usdcNote 10 7 15) (usdcNote 90 7 16) [7] 100 10 4) ∈
      opsOf 3 (runFrom streaming (openRun ++ [settleTx])).2 := by
    decide
  obtain ⟨r, hr, hrep⟩ := (receipts_reproduce deployed_fresh hrun).1 3 hopened
    ((runFrom streaming (openRun ++ [settleTx])).1.events.map fun e => (e, "0x00"))
    (by rw [List.map_map]; exact List.map_id _) _ (List.reverse_perm _)
  refine ⟨r, hr, (hrep.settled _ hop).1, (hrep.settled _ hop).2.1, ?_⟩
  rw [hrep.sum, hcon, hcap]
  rfl

/-! ## Fetching -/

/-- The three queries of `fetchChannelReceipt` from block 0: the openings, settlements and reclaims of
one channel. -/
def fetchEvents (channelId : ℕ) (log : List (Event × String)) : List ChannelEvent :=
  let found := (log.filter fun e => e.1.channel = some channelId).filterMap channelEvent
  found.filter (·.opened?.isSome) ++ (found.filter (·.settled?.isSome) ++
    found.filter (·.reclaimed?.isSome))

/-- `fetchChannelReceipt`. -/
def fetchChannelReceipt (channelId : ℕ) (log : List (Event × String)) :
    Except ReceiptError StreamReceipt :=
  reconstructChannelReceipt channelId (fetchEvents channelId log)

/-- The queries return every event once. -/
theorem kinds_perm (l : List ChannelEvent) :
    (l.filter (·.opened?.isSome) ++ (l.filter (·.settled?.isSome) ++
      l.filter (·.reclaimed?.isSome))).Perm l := by
  induction l with
  | nil => exact .nil
  | cons e l ih =>
      cases e with
      | opened e => simpa [ChannelEvent.opened?, ChannelEvent.settled?, ChannelEvent.reclaimed?] using ih
      | settled e =>
          simp only [ChannelEvent.opened?, ChannelEvent.settled?, ChannelEvent.reclaimed?,
            List.filter_cons, Option.isSome_none, Option.isSome_some, if_true]
          exact List.perm_middle.trans (ih.cons _)
      | reclaimed e =>
          simp only [ChannelEvent.opened?, ChannelEvent.settled?, ChannelEvent.reclaimed?,
            List.filter_cons, Option.isSome_none, Option.isSome_some, if_true]
          rw [← List.append_assoc] at ih ⊢
          exact List.perm_middle.trans (ih.cons _)

/-- The receipt that is fetched is one of those above. -/
theorem fetchChannelReceipt_reproduces (hd : Deployed E s₀) (h : Reachable E s₀ K w)
    (hop : (w.1.escrow.channels c).opened = true) {log : List (Event × String)}
    (hlog : log.map Prod.fst = w.1.events) :
    ∃ r, fetchChannelReceipt c log = .ok r ∧
      Reproduces c (w.1.escrow.channels c) (opsOf c w.2) r := by
  refine reconstruct_of_log hd h hop hlog (((kinds_perm _).filter _).trans ?_)
  rw [← filter_channelEvent, List.filter_filter]
  simp

end

end ShadePay.Streams
