import ShadePay.Stellar.EventLog
import ShadePay.Stellar.Deposit
import ShadePay.Lib.OrderedMap

/-!
# The root auditor

`apps/root-auditor`: collect the leaves of the Soroban pool from its events, recompute the root over
them with `coinutils compute-root`, and compare it with the root the pool stores. The RPC's answers and
the external program are parameters. `audit_status_iff` says for every run which roots pass: the root
over the deposited leaves, and the root over the last of them alone. Where all leaves come from deposits
this is a verdict on the pool's own root (`audit_verdict`).

A text of 64 hex digits is the word it spells, in the one spelling `norm` leaves, and a decimal text the
number. The fallback to the registrar's database is left out.
-/

namespace ShadePay.RootAuditor

open Stellar

/-! ## Reading the events -/

/-- A Soroban value, after `scValToNative`. -/
inductive ScVal where
  | bytes (b : Bytes32)
  | u32 (n : ℕ)
  | i128 (x : ℤ)
  | address (a : Address)

/-- The data of an event, where it is a tuple. -/
def eventData : Event → Option (List ScVal)
  | .deposit _ n a amount c enc pol i r => some [.bytes n, .address a, .i128 amount, .bytes c,
      .bytes enc, .bytes pol, .u32 i, .bytes r]
  | .withdraw a nh net fee => some [.address a, .bytes nh, .i128 net, .i128 fee]
  | .xfer nh c i r => some [.bytes nh, .bytes c, .u32 i, .bytes r]
  | .regasset _ _ => none
  | .cctpout _ a nh r amount => some [.address a, .bytes nh, .bytes r, .i128 amount]
  | .rfq _ a nh credit => some [.address a, .bytes nh, .i128 credit]
  | .rfqswap _ u v nh out credit => some [.address u, .address v, .bytes nh, .i128 out, .i128 credit]
  | .mpc _ na nb oa ob r => some [.bytes na, .bytes nb, .bytes oa, .bytes ob, .bytes r]
  | .mpcprice _ na nb oa ob r => some [.bytes na, .bytes nb, .bytes oa, .bytes ob, .bytes r]

/-- `DepositLeaf`. -/
structure DepositLeaf where
  leafIndex : ℕ
  commitmentDecimal : ℕ
  commitmentHex : Bytes32

/-- The leaf in the data of a deposit event: the commitment at position 3, the index at position 6. -/
def readData (data : List ScVal) : Option DepositLeaf :=
  if data.length < 7 then none
  else match data[3]?, data[6]? with
    | some (ScVal.bytes c), some (ScVal.u32 i) => some ⟨i, c.toNat, c⟩
    | _, _ => none

/-- The leaf the reader takes from an event, if any. -/
def readEvent (ev : Event) : Option DepositLeaf :=
  if ev.topic = "deposit" then (eventData ev).bind readData else none

/-- A page of `getEvents`. -/
structure Page where
  events : List Event
  cursor : Bool

/-- The answers of the RPC to the requests of one lookback, by page; `none` is a call that throws. -/
abbrev Answers : Type := ℕ → Option Page

/-- `byIndex`. -/
abbrev ByIndex : Type := OrderedMap ℕ DepositLeaf

/-- `byIndex.set`, for the leaves of a page. -/
def setAll (m : ByIndex) (ls : List DepositLeaf) : ByIndex :=
  ls.foldl (fun m l => m.set l.leafIndex l) m

/-- The page loop of a lookback, with `n` pages to go, and the count it ends with unless it throws. -/
def readPages (rpc : Answers) : ℕ → ℕ → ByIndex → ℕ → ByIndex × Option ℕ
  | 0, _, m, got => (m, some got)
  | n + 1, page, m, got =>
      match rpc page with
      | none => (m, none)
      | some resp =>
        let ls := resp.events.filterMap readEvent
        if !resp.cursor || resp.events.isEmpty then (setAll m ls, some (got + ls.length))
        else readPages rpc n (page + 1) (setAll m ls) (got + ls.length)

/-- The loop over the lookbacks: the first that yields a leaf ends it. -/
def readLookbacks : List Answers → ByIndex → ByIndex
  | [], m => m
  | rpc :: rest, m =>
      match readPages rpc 50 0 m 0 with
      | (m', none) => readLookbacks rest m'
      | (m', some got) => if 0 < got then m' else readLookbacks rest m'

/-- `[...].sort((a, b) => a.leafIndex - b.leafIndex)`. -/
def sortLeaves (ls : List DepositLeaf) : List DepositLeaf :=
  ls.mergeSort fun a b => decide (a.leafIndex ≤ b.leafIndex)

/-- `readDepositLeavesFromEvents`. -/
def readDepositLeavesFromEvents (lookbacks : List Answers) : List DepositLeaf :=
  sortLeaves (readLookbacks lookbacks .empty).values

/-! ## Comparing the roots -/

/-- Where the leaves come from. -/
inductive Source where
  | events
  | db
deriving DecidableEq

/-- The verdict. -/
inductive Status where
  | ok
  | rootMismatchCritical
deriving DecidableEq

/-- The registrar convention a root matches. -/
inductive Convention where
  | cumulative
  | perDeposit
deriving DecidableEq

/-- What the text of `detail` reports. -/
inductive Detail where
  | matched (convention : Convention) (leaves : ℕ)
  | mismatched (onchain cumulative latestOnly : Bytes32) (leaves : ℕ)
deriving DecidableEq

/-- `AuditResult`. -/
structure AuditResult where
  poolContract : Address
  leafCount : ℕ
  source : Source
  recomputedRootHex : Bytes32
  onchainRootHex : Bytes32
  status : Status
  detail : Detail
deriving DecidableEq

section
variable (computeRoot : List ℕ → ℕ)

/-- `recomputeRoot`. -/
def recomputeRoot : List ℕ → Bytes32
  | [] => zeroWord
  | c :: cs => .ofNat 32 (computeRoot (c :: cs))

/-- `compareRoots`. -/
def compareRoots (poolContract : Address) (leaves : List DepositLeaf) (onchain : Bytes32)
    (source : Source) : AuditResult :=
  let ordered := sortLeaves leaves
  let cumulative := recomputeRoot computeRoot (ordered.map DepositLeaf.commitmentDecimal)
  let latestOnly := match ordered.getLast? with
    | some l => recomputeRoot computeRoot [l.commitmentDecimal]
    | none => cumulative
  { poolContract := poolContract
    leafCount := ordered.length
    source := source
    recomputedRootHex := cumulative
    onchainRootHex := onchain
    status := if onchain = cumulative ∨ onchain = latestOnly then .ok else .rootMismatchCritical
    detail :=
      if onchain = cumulative then .matched .cumulative ordered.length
      else if onchain = latestOnly then .matched .perDeposit ordered.length
      else .mismatched onchain cumulative latestOnly ordered.length }

/-- An audit from the events. -/
def audit (poolContract : Address) (lookbacks : List Answers) (onchain : Bytes32) : AuditResult :=
  compareRoots computeRoot poolContract (readDepositLeavesFromEvents lookbacks) onchain .events

end

/-! ## What the reader collects -/

/-- The commitments of the deposits in a log. -/
def depositLeaves (log : List Event) : List Bytes32 :=
  log.flatMap fun e => if e.topic = "deposit" then e.leaves else []

/-- The RPC serves `log` from a page on, in at most `n` pages. -/
inductive Serves (rpc : Answers) : ℕ → ℕ → List Event → Prop
  | full (page : ℕ) : Serves rpc 0 page []
  | last {n page : ℕ} {resp : Page} (h : rpc page = some resp)
      (hlast : resp.cursor = false ∨ resp.events = []) : Serves rpc (n + 1) page resp.events
  | more {n page : ℕ} {resp : Page} {log : List Event} (h : rpc page = some resp)
      (hcursor : resp.cursor = true) (hne : resp.events ≠ []) (hrest : Serves rpc n (page + 1) log) :
      Serves rpc (n + 1) page (resp.events ++ log)

/-- Retention covers a log: lookbacks beyond it are refused, the first one that is not gets the whole
log within the 50 pages the reader asks for, and what a later one gets is of the log. -/
inductive Retains (log : List Event) : List Answers → Prop
  | refused {rpc : Answers} {rest : List Answers} (h : rpc 0 = none) (hrest : Retains log rest) :
      Retains log (rpc :: rest)
  | served {rpc : Answers} {rest : List Answers} (h : Serves rpc 50 0 log)
      (hrest : ∀ later ∈ rest, ∀ page resp, later page = some resp → resp.events ⊆ log) :
      Retains log (rpc :: rest)

section
variable {log : List Event} {rpc : Answers}

theorem setAll_append (m : ByIndex) (ls ms : List DepositLeaf) :
    setAll m (ls ++ ms) = setAll (setAll m ls) ms := List.foldl_append

/-- Deposits are read, and nothing else. -/
theorem readEvent_eq_some {ev : Event} {l : DepositLeaf} : readEvent ev = some l ↔
    ∃ d n a amount c enc pol i r, ev = .deposit d n a amount c enc pol i r ∧ l = ⟨i, c.toNat, c⟩ := by
  cases ev with
  | deposit d n a amount c enc pol i r => simp [readEvent, Event.topic, eventData, readData, eq_comm]
  | _ => simp [readEvent, Event.topic]

/-- The page loop collects what it is served. -/
theorem readPages_of_serves {n page : ℕ} (h : Serves rpc n page log) (m : ByIndex) (got : ℕ) :
    readPages rpc n page m got = (setAll m (log.filterMap readEvent),
      some (got + (log.filterMap readEvent).length)) := by
  induction h generalizing m got with
  | full page => rfl
  | last h hlast =>
      rw [readPages, h]
      rcases hlast with hlast | hlast <;> simp [hlast]
  | more h hcursor hne _ ih =>
      rw [readPages, h]
      simp only [hcursor, Bool.not_true, Bool.false_or, List.isEmpty_iff, hne, if_false]
      rw [ih, List.filterMap_append, setAll_append, List.length_append, Nat.add_assoc]

/-- The page loop on a log without deposits. -/
theorem readPages_of_none (hrpc : ∀ page resp, rpc page = some resp →
      resp.events.filterMap readEvent = []) (n page : ℕ) (m : ByIndex) :
    (readPages rpc n page m 0).1 = m ∧ ∀ got, (readPages rpc n page m 0).2 = some got → got = 0 := by
  induction n generalizing page with
  | zero => simp [readPages]
  | succ n ih =>
      rw [readPages]
      cases hp : rpc page with
      | none => simp
      | some resp =>
          simp only [hrpc page resp hp, setAll, List.foldl_nil, List.length_nil]
          split
          · simp
          · exact ih (page + 1)

/-- Answers without deposits change nothing. -/
theorem readLookbacks_of_none {rest : List Answers} (hrpc : ∀ rpc ∈ rest, ∀ page resp,
      rpc page = some resp → resp.events.filterMap readEvent = []) (m : ByIndex) :
    readLookbacks rest m = m := by
  induction rest with
  | nil => rfl
  | cons rpc rest ih =>
      obtain ⟨h1, h2⟩ := readPages_of_none (hrpc rpc (by simp)) 50 0 m
      have ih := ih fun r hr => hrpc r (List.mem_cons_of_mem _ hr)
      rw [readLookbacks]
      split
      · next m' he =>
        rw [he] at h1
        exact h1 ▸ ih
      · next m' got he =>
        rw [he] at h1 h2
        rw [h2 got rfl, if_neg (lt_irrefl 0)]
        exact h1 ▸ ih

/-- **The reader collects the log**, when retention covers it. -/
theorem readLookbacks_of_retains {lookbacks : List Answers} (h : Retains log lookbacks) :
    readLookbacks lookbacks .empty = setAll .empty (log.filterMap readEvent) := by
  induction h with
  | refused h _ ih =>
      rw [readLookbacks, readPages, h]
      exact ih
  | served h hrest =>
      rw [readLookbacks, readPages_of_serves h .empty 0]
      simp only [Nat.zero_add]
      split
      · rfl
      · next hgot =>
        have hnil : log.filterMap readEvent = [] := List.length_eq_zero_iff.1 (by omega)
        rw [hnil]
        refine readLookbacks_of_none (fun rpc hr page resp hp => ?_) _
        rw [List.filterMap_eq_nil_iff] at hnil ⊢
        exact fun e he => hnil e (hrest rpc hr page resp hp he)

/-- The collected leaves carry increasing indices. -/
theorem pairwise_filterMap {n : ℕ} (h : IndexedFrom n log) :
    (log.filterMap readEvent).Pairwise (fun a b => a.leafIndex < b.leafIndex) ∧
      ∀ l ∈ log.filterMap readEvent, n ≤ l.leafIndex := by
  induction log generalizing n with
  | nil => simp
  | cons e log ih =>
      obtain ⟨he, h⟩ := h
      obtain ⟨ih₁, ih₂⟩ := ih h
      cases hr : readEvent e with
      | none =>
          rw [List.filterMap_cons_none hr]
          exact ⟨ih₁, fun l hl => le_trans (Nat.le_add_right _ _) (ih₂ l hl)⟩
      | some l =>
          rw [List.filterMap_cons_some hr]
          obtain ⟨d, n', a, amount, c, enc, pol, i, r, rfl, rfl⟩ := readEvent_eq_some.1 hr
          obtain rfl : i = n := he
          refine ⟨List.pairwise_cons.2 ⟨fun l hl => ih₂ l hl, ih₁⟩, fun l hl => ?_⟩
          rcases List.mem_cons.1 hl with rfl | hl
          · exact le_rfl
          · exact le_trans (Nat.le_add_right _ _) (ih₂ l hl)

/-- Leaves in their order stay so. -/
theorem sortLeaves_of_pairwise {ls : List DepositLeaf}
    (h : ls.Pairwise fun a b => a.leafIndex < b.leafIndex) : sortLeaves ls = ls :=
  List.mergeSort_of_pairwise (h.imp fun hab => by simpa using hab.le)

/-- **What the audit compares over**: the deposits of the log, in order. -/
theorem readDepositLeavesFromEvents_eq {lookbacks : List Answers} (h : IndexedFrom 0 log)
    (hret : Retains log lookbacks) :
    readDepositLeavesFromEvents lookbacks = log.filterMap readEvent := by
  have hp := (pairwise_filterMap h).1
  have hnodup : ((OrderedMap.empty : ByIndex).keys ++
      (log.filterMap readEvent).map DepositLeaf.leafIndex).Nodup := by
    rw [OrderedMap.keys_empty, List.nil_append, List.Nodup, List.pairwise_map]
    exact hp.imp fun hab => hab.ne
  rw [readDepositLeavesFromEvents, readLookbacks_of_retains hret, setAll,
    OrderedMap.values_foldl_set _ _ hnodup]
  exact sortLeaves_of_pairwise hp

/-- The commitments that are read are those of the deposits. -/
theorem map_filterMap_readEvent :
    (log.filterMap readEvent).map DepositLeaf.commitmentHex = depositLeaves log ∧
      (log.filterMap readEvent).map DepositLeaf.commitmentDecimal =
        (depositLeaves log).map BytesN.toNat := by
  induction log with
  | nil => exact ⟨rfl, rfl⟩
  | cons e log ih =>
      obtain ⟨ih₁, ih₂⟩ := ih
      cases e with
      | deposit d n a amount c enc pol i r =>
          rw [List.filterMap_cons_some (readEvent_eq_some.2 ⟨_, _, _, _, _, _, _, _, _, rfl, rfl⟩)]
          simpa [depositLeaves, Event.topic, Event.leaves] using ⟨ih₁, ih₂⟩
      | _ =>
          rw [List.filterMap_cons_none (by simp [readEvent, Event.topic])]
          simpa [depositLeaves, Event.topic] using ⟨ih₁, ih₂⟩

end

/-! ## The verdict -/

/-- `coinutils compute-root` on a list that fits a tree of the depth: the root of the full tree over the
zero-padded scalars, as a number. -/
def ComputesRoot (E : Env) (depth : ℕ) (computeRoot : List ℕ → ℕ) : Prop :=
  ∀ l, l ≠ [] → l.length ≤ capacity depth → computeRoot l =
    (Merkle.root (hash2 E.poseidon) 0 depth (l.map fun c : ℕ => (c : Bls12381))).val

/-- No two pairs hashed in the trees over two leaf sequences collide. -/
def CollisionFree (E : Env) (depth : ℕ) (l m : List Bytes32) : Prop :=
  Set.InjOn (fun q => hash2 E.poseidon q.1 q.2)
    (Merkle.nodePairs (hash2 E.poseidon) (LeanIMT.leafFn l) depth 0 ∪
      Merkle.nodePairs (hash2 E.poseidon) (LeanIMT.leafFn m) depth 0)

/-- Two leaf sequences that fill a tree of a depth the same way, zero padding included. -/
def SameLeaves (depth : ℕ) (l m : List Bytes32) : Prop :=
  ∀ j < 2 ^ depth, LeanIMT.leafFn l j = LeanIMT.leafFn m j

section
variable {E : Env} {depth : ℕ} {computeRoot : List ℕ → ℕ} {log : List Event} {leaves : List Bytes32}

/-- The recomputed root is that of the pool's tree over the leaves. -/
theorem recomputeRoot_eq (hc : ComputesRoot E depth computeRoot)
    (hfit : leaves.length ≤ capacity depth) :
    recomputeRoot computeRoot (leaves.map BytesN.toNat) = leafRoot E depth leaves := by
  cases leaves with
  | nil => rfl
  | cons c cs =>
      have hscalars : ((c :: cs).map BytesN.toNat).map (fun n : ℕ => (n : Bls12381)) =
          LeanIMT.scalars (c :: cs) := by
        rw [List.map_map]
        rfl
      rw [leafRoot, if_neg (List.cons_ne_nil c cs), frToBytes, ← hscalars, List.map_cons,
        recomputeRoot, hc _ (List.cons_ne_nil _ _) (by simpa using hfit)]

/-- The deposited leaves are some of the announced ones. -/
theorem depositLeaves_sublist (log : List Event) :
    List.Sublist (depositLeaves log) (log.flatMap Event.leaves) := by
  induction log with
  | nil => exact List.Sublist.slnil
  | cons e log ih =>
      rw [depositLeaves, List.flatMap_cons, List.flatMap_cons]
      refine List.Sublist.append ?_ ih
      split
      · exact List.Sublist.refl _
      · exact List.nil_sublist _

/-- All of them, when every leaf was announced by a deposit. -/
theorem depositLeaves_eq (h : ∀ e ∈ log, e.leaves ≠ [] → e.topic = "deposit") :
    depositLeaves log = log.flatMap Event.leaves := by
  refine List.flatMap_congr fun e he => ?_
  by_cases hl : e.leaves = []
  · rw [hl, ite_self]
  · rw [if_pos (h e he hl)]

/-- The status is `ok` if and only if the roots are equal. -/
@[simp] theorem Status.ite_eq_ok {p : Prop} [Decidable p] :
    (if p then Status.ok else .rootMismatchCritical) = .ok ↔ p := by
  by_cases h : p
  · simp [h]
  · simp [h]

/-- **The roots that pass**, after every run: the root over the deposited leaves, and the root over the
last of them alone. -/
theorem audit_status_iff {s : State} {lookbacks : List Answers} (hs : Replays E depth s)
    (hc : ComputesRoot E depth computeRoot) (hret : Retains s.events lookbacks)
    (poolContract : Address) (onchain : Bytes32) :
    (audit computeRoot poolContract lookbacks onchain).status = .ok ↔
      onchain = leafRoot E depth (depositLeaves s.events) ∨
        ∃ c, (depositLeaves s.events).getLast? = some c ∧ onchain = leafRoot E depth [c] := by
  obtain ⟨hhex, hdec⟩ := @map_filterMap_readEvent s.events
  have hsort := sortLeaves_of_pairwise (pairwise_filterMap hs.indexed).1
  have hfit : (depositLeaves s.events).length ≤ capacity depth := by
    have := (depositLeaves_sublist s.events).length_le
    rw [← hs.leaves] at this
    exact this.trans hs.fits
  have hlast : (depositLeaves s.events).getLast? =
      (s.events.filterMap readEvent).getLast?.map DepositLeaf.commitmentHex := by
    rw [← hhex, List.getLast?_map]
  have hlast' : (depositLeaves s.events).getLast?.map BytesN.toNat =
      (s.events.filterMap readEvent).getLast?.map DepositLeaf.commitmentDecimal := by
    rw [← List.getLast?_map, ← hdec, List.getLast?_map]
  simp only [audit, compareRoots, readDepositLeavesFromEvents_eq hs.indexed hret, hsort, hdec,
    recomputeRoot_eq hc hfit, Status.ite_eq_ok]
  cases hl : (s.events.filterMap readEvent).getLast? with
  | none => simp [hlast, hl]
  | some l =>
      rw [hl] at hlast hlast'
      rw [hlast, Option.map_some, Option.map_some] at hlast'
      have hone : recomputeRoot computeRoot [l.commitmentDecimal] =
          leafRoot E depth [l.commitmentHex] := by
        have hpos : [l.commitmentHex].length ≤ capacity depth := by
          refine le_trans ?_ hfit
          cases hd : depositLeaves s.events with
          | nil => simp [hd] at hlast
          | cons c cs => simp
        have := recomputeRoot_eq hc hpos
        rwa [List.map_singleton, Option.some.inj hlast'] at this
      simp [hlast, hone]

theorem frToBytes_injective : Function.Injective frToBytes := fun x y h => by
  rw [← frFromBytes_frToBytes x, h, frFromBytes_frToBytes]

/-- **Binding of the root word**: two leaf sequences under one root fill the tree the same way. -/
theorem CollisionFree.sameLeaves {l m : List Bytes32} (h : CollisionFree E depth l m) (hl : l ≠ [])
    (hm : m ≠ []) (he : leafRoot E depth l = leafRoot E depth m) : SameLeaves depth l m := by
  rw [leafRoot, if_neg hl, leafRoot, if_neg hm] at he
  intro j hj
  exact Merkle.node_binding h depth 0 Set.subset_union_left Set.subset_union_right
    (frToBytes_injective he) j (by simp) (by simpa using hj)

end

/-- **The verdict of an audit.** In a run of the pool whose leaves all come from deposits, with events
that retention covers, a root passes exactly when it is the root over the complete leaf sequence, which
is the one the pool stores, or under the per-deposit convention the root over its last leaf. Unless two
pairs hashed in the trees compared collide, no root over another leaf sequence passes. -/
theorem audit_verdict {E : Env} (admin usdc verifier : Address) (depth poolId chainId : ℕ)
    (balance : Address → Address → ℤ) (ledger : ℕ) (ts : List Step) (computeRoot : List ℕ → ℕ)
    (lookbacks : List Answers) (poolContract : Address) :
    let r := run E ts (construct admin usdc verifier depth poolId chainId balance ledger)
    (∀ i ∈ r.2, i.call.settles = false) → ComputesRoot E depth computeRoot →
      Retains r.1.events lookbacks →
        (∀ onchain, (audit computeRoot poolContract lookbacks onchain).status = .ok ↔
          onchain = leafRoot E depth r.1.tree.leaves ∨
            ∃ c, r.1.tree.leaves.getLast? = some c ∧ onchain = leafRoot E depth [c]) ∧
        r.1.tree.root = leafRoot E depth r.1.tree.leaves ∧
        ∀ l, l ≠ [] → r.1.tree.leaves ≠ [] → CollisionFree E depth l r.1.tree.leaves →
          (∀ c, r.1.tree.leaves.getLast? = some c → CollisionFree E depth l [c]) →
          (audit computeRoot poolContract lookbacks (leafRoot E depth l)).status = .ok →
            SameLeaves depth l r.1.tree.leaves ∨
              ∃ c, r.1.tree.leaves.getLast? = some c ∧ SameLeaves depth l [c] := by
  intro r hdep hc hret
  obtain ⟨hs, hfrom⟩ := @replays_run E admin usdc verifier depth poolId chainId balance ledger ts
  have hstatus : ∀ onchain, (audit computeRoot poolContract lookbacks onchain).status = .ok ↔
      onchain = leafRoot E depth r.1.tree.leaves ∨
        ∃ c, r.1.tree.leaves.getLast? = some c ∧ onchain = leafRoot E depth [c] := fun onchain => by
    rw [audit_status_iff hs hc hret, depositLeaves_eq (hfrom hdep), ← hs.leaves]
  refine ⟨hstatus, hs.root, fun l hl hne hfree hlast hok => ?_⟩
  rcases (hstatus _).1 hok with he | ⟨c, hc, he⟩
  · exact .inl (hfree.sameLeaves hl hne he)
  · exact .inr ⟨c, hc, (hlast c hc).sameLeaves hl (List.cons_ne_nil _ _) he⟩

/-- `compute-root`, computed. -/
def exactRoot (E : Env) (depth : ℕ) (l : List ℕ) : ℕ :=
  (Merkle.root (hash2 E.poseidon) 0 depth (l.map fun c : ℕ => (c : Bls12381))).val

/-- The pool's own root is one that the auditor may compute. -/
theorem computesRoot_exactRoot (E : Env) (depth : ℕ) : ComputesRoot E depth (exactRoot E depth) :=
  fun _ _ _ => rfl

/-- An RPC that answers every request with the whole log. -/
def onePage (log : List Event) : List Answers := [fun _ => some ⟨log, false⟩]

theorem retains_onePage (log : List Event) : Retains log (onePage log) :=
  .served (@Serves.last _ 49 0 ⟨log, false⟩ rfl (.inl rfl)) (by simp)

/-! ## Two deposits -/

/-- A deployment whose pair hash is `2 * a + b`. -/
noncomputable def pairEnv : Env :=
  idealEnv ⟨fun l => match l with
    | [a, b] => a + a + b
    | _ => 0, fun b => word b.length, fun _ _ _ => true, fun _ _ _ _ => false, acct 2⟩

/-- The hash of a pair in the sample. -/
theorem hash2_pairEnv (a b : Bls12381) : hash2 pairEnv.poseidon a b = 2 * a + b := by
  rw [two_mul]
  rfl

/-- The nodes over leaves that are zero from index 2 on: even, small, and zero off the first path. -/
theorem node_pairEnv {f : ℕ → Bls12381} (hf : ∀ j, ∃ m : ℕ, f j = ((2 * m : ℕ) : Bls12381) ∧ m ≤ 3)
    (hz : ∀ j, 2 ≤ j → f j = 0) (d i : ℕ) :
    (∃ m : ℕ, Merkle.node (hash2 pairEnv.poseidon) f d i = ((2 * m : ℕ) : Bls12381) ∧
      m ≤ 3 ^ (d + 1)) ∧
      (2 ≤ i ∨ (i = 1 ∧ 0 < d) → Merkle.node (hash2 pairEnv.poseidon) f d i = 0) := by
  induction d generalizing i with
  | zero =>
      obtain ⟨m, hm, hle⟩ := hf i
      refine ⟨⟨m, hm, by simpa using hle⟩, ?_⟩
      rintro (hi | ⟨-, h0⟩)
      · exact hz i hi
      · omega
  | succ d ih =>
      obtain ⟨⟨m, hm, hle⟩, hz₁⟩ := ih (2 * i)
      obtain ⟨⟨m', hm', hle'⟩, hz₂⟩ := ih (2 * i + 1)
      rw [Merkle.node, hash2_pairEnv]
      refine ⟨⟨2 * m + m', ?_, ?_⟩, fun hi => ?_⟩
      · rw [hm, hm']
        push_cast
        ring
      · rw [pow_succ]
        omega
      · rw [hz₁ (.inl (by omega)), hz₂ (.inl (by omega)), mul_zero, add_zero]

/-- The pairs hashed over two leaves 2 and 6, or over part of them. -/
theorem mem_nodePairs_pairEnv {c₀ c₁ : Bytes32} (h₀ : frFromBytes c₀ = 2) (h₁ : frFromBytes c₁ = 6)
    {l : List Bytes32} (hl : List.Sublist l [c₀, c₁]) {q : Bls12381 × Bls12381}
    (hq : q ∈ Merkle.nodePairs (hash2 pairEnv.poseidon) (LeanIMT.leafFn l) 12 0) :
    q = (2, 6) ∨ (q.2 = 0 ∧ ∃ m : ℕ, q.1 = ((2 * m : ℕ) : Bls12381) ∧ m ≤ 3 ^ 13) := by
  have hcases : l = [] ∨ l = [c₀] ∨ l = [c₁] ∨ l = [c₀, c₁] := by
    have hmem : l ∈ [[], [c₀], [c₁], [c₀, c₁]] := List.mem_sublists.2 hl
    simpa using hmem
  have hleaf : ∀ j, ∃ m : ℕ, LeanIMT.leafFn l j = ((2 * m : ℕ) : Bls12381) ∧ m ≤ 3 := by
    intro j
    have hmem : LeanIMT.leafFn l j = 0 ∨ LeanIMT.leafFn l j = 2 ∨ LeanIMT.leafFn l j = 6 := by
      rcases Nat.lt_or_ge j (LeanIMT.scalars l).length with hj | hj
      · have := @Merkle.pad_of_lt _ 0 _ _ hj
        rw [LeanIMT.scalars, List.mem_map] at this
        obtain ⟨c, hc, he⟩ := this
        rcases List.mem_pair.1 (hl.subset hc) with rfl | rfl
        · exact .inr (.inl (he.symm.trans h₀))
        · exact .inr (.inr (he.symm.trans h₁))
      · exact .inl (Merkle.pad_of_le hj)
    rcases hmem with h | h | h
    · exact ⟨0, by simpa using h, by omega⟩
    · exact ⟨1, by simpa using h, by omega⟩
    · exact ⟨3, by rw [h]; norm_num, le_rfl⟩
  have hzero : ∀ j, 2 ≤ j → LeanIMT.leafFn l j = 0 := fun j hj =>
    Merkle.pad_of_le (le_trans (by simpa [LeanIMT.scalars] using hl.length_le) hj)
  obtain ⟨lv, hlv, j, -, rfl⟩ := Merkle.mem_nodePairs.1 hq
  obtain ⟨⟨m, hm, hle⟩, -⟩ := node_pairEnv hleaf hzero lv (2 * j)
  have hright := (node_pairEnv hleaf hzero lv (2 * j + 1)).2
  by_cases hfirst : lv = 0 ∧ j = 0
  · obtain ⟨rfl, rfl⟩ := hfirst
    simp only [Merkle.node, LeanIMT.leafFn, LeanIMT.scalars] at hm ⊢
    rcases hcases with rfl | rfl | rfl | rfl
    · exact .inr ⟨rfl, 0, rfl, by omega⟩
    · exact .inr ⟨rfl, 1, by simp [Merkle.pad, h₀], by omega⟩
    · exact .inr ⟨rfl, 3, by simp [Merkle.pad, h₁], by omega⟩
    · exact .inl (by simp [Merkle.pad, h₀, h₁])
  · refine .inr ⟨hright ?_, m, hm, hle.trans (Nat.pow_le_pow_right (by norm_num) (by omega))⟩
    by_cases hj : j = 0
    · exact .inr ⟨by omega, by omega⟩
    · exact .inl (by omega)

/-- No two trees over parts of the two leaves collide in the sample. -/
theorem collisionFree_pairEnv {c₀ c₁ : Bytes32} (h₀ : frFromBytes c₀ = 2) (h₁ : frFromBytes c₁ = 6)
    {l l' : List Bytes32} (hl : List.Sublist l [c₀, c₁]) (hl' : List.Sublist l' [c₀, c₁]) :
    CollisionFree pairEnv 12 l l' := by
  have hinj : ∀ m n : ℕ, m < bls12381 → n < bls12381 → ((m : ℕ) : Bls12381) = (n : ℕ) → m = n := by
    intro m n hm hn h
    rwa [ZMod.natCast_eq_natCast_iff', Nat.mod_eq_of_lt hm, Nat.mod_eq_of_lt hn] at h
  have hbig : 4 * 3 ^ 13 + 10 < bls12381 := by decide
  have hhash : ∀ m : ℕ, hash2 pairEnv.poseidon ((2 * m : ℕ) : Bls12381) 0 = ((4 * m : ℕ) : Bls12381) := by
    intro m
    rw [hash2_pairEnv]
    push_cast
    ring
  have htop : hash2 pairEnv.poseidon 2 6 = ((10 : ℕ) : Bls12381) := by
    rw [hash2_pairEnv]
    norm_num
  -- the pair of the two leaves hashes to 10, the others to multiples of 4
  have hcases : ∀ q ∈ Merkle.nodePairs (hash2 pairEnv.poseidon) (LeanIMT.leafFn l) 12 0 ∪
      Merkle.nodePairs (hash2 pairEnv.poseidon) (LeanIMT.leafFn l') 12 0,
      q = (2, 6) ∨ (q.2 = 0 ∧ ∃ m : ℕ, q.1 = ((2 * m : ℕ) : Bls12381) ∧ m ≤ 3 ^ 13) := by
    rintro q (hq | hq)
    · exact mem_nodePairs_pairEnv h₀ h₁ hl hq
    · exact mem_nodePairs_pairEnv h₀ h₁ hl' hq
  intro q hq q' hq' he
  rcases hcases q hq with rfl | ⟨h, m, hm, hle⟩
  · rcases hcases q' hq' with rfl | ⟨h', m', hm', hle'⟩
    · rfl
    · simp only [h', hm', htop, hhash] at he
      have := hinj _ _ (by omega) (by omega) he
      omega
  · rcases hcases q' hq' with rfl | ⟨h', m', hm', hle'⟩
    · simp only [h, hm, htop, hhash] at he
      have := hinj _ _ (by omega) (by omega) he
      omega
    · simp only [h, h', hm, hm', hhash] at he
      have := hinj _ _ (by omega) (by omega) he
      obtain rfl : m = m' := by omega
      exact Prod.ext (hm.trans hm'.symm) (h.trans h'.symm)

/-- A run of two deposits whose leaves are the words of 2 and 6. -/
theorem exists_twoDeposits : ∃ ts c₀ c₁ r r', frFromBytes c₀ = 2 ∧ frFromBytes c₁ = 6 ∧
    (run pairEnv ts fresh).1.tree.leaves = [c₀, c₁] ∧
    (run pairEnv ts fresh).1.events = [.regasset (pairEnv.recipientHash (acct 1)) (acct 1),
      .deposit 0 (word 0) (acct 1) 100 c₀ (word 0) (word 0) 0 r,
      .deposit 0 (word 1) (acct 1) 100 c₁ (word 0) (word 0) 1 r'] ∧
    ∀ i ∈ (run pairEnv ts fresh).2, i.call.settles = false := by
  have hE : pairEnv.Exact := exact_idealVerifier _
  obtain ⟨ts, r, r', hleaves, hevents, proof, proof', hcalls⟩ := run_deposits hE 1 3
  have hcommit : ∀ ν : Bls12381, (usdcNote pairEnv (100 : ℕ) ν).commitment pairEnv.poseidon = 2 * ν := by
    intro ν
    change 0 + 0 + (ν + ν + 0) = 2 * ν
    ring
  refine ⟨ts, _, _, r, r', ?_, ?_, hleaves, hevents, fun i hi => ?_⟩
  · rw [leafOf, frFromBytes_frToBytes, hcommit, mul_one]
  · rw [leafOf, frFromBytes_frToBytes, hcommit]
    norm_num
  · have hmem := List.mem_map_of_mem (f := Invocation.call) hi
    rw [hcalls, run_setup_calls] at hmem
    simp only [List.mem_append, List.mem_cons, List.not_mem_nil, or_false] at hmem
    rcases hmem with (h | h | h | h | h | h) | h | h <;> rw [h] <;> rfl

/-- After two deposits the pool's own root passes, and the root over the first leaf alone does not. -/
theorem audit_verdict_deposit : ∃ ts c₀ c₁, (run pairEnv ts fresh).1.tree.leaves = [c₀, c₁] ∧
    (audit (exactRoot pairEnv 12) (acct 2) (onePage (run pairEnv ts fresh).1.events)
      (run pairEnv ts fresh).1.tree.root).status = .ok ∧
    (audit (exactRoot pairEnv 12) (acct 2) (onePage (run pairEnv ts fresh).1.events)
      (leafRoot pairEnv 12 [c₀])).status = .rootMismatchCritical := by
  obtain ⟨ts, c₀, c₁, r, r', h₀, h₁, hleaves, -, hsettles⟩ := exists_twoDeposits
  have hverdict := @audit_verdict pairEnv (acct 0) (acct 1) (acct 0) 12 0 0 (fun _ _ => 0) 0 ts
    (exactRoot pairEnv 12) (onePage (run pairEnv ts fresh).1.events) (acct 2) hsettles
    (computesRoot_exactRoot pairEnv 12) (retains_onePage _)
  obtain ⟨hstatus, hroot, honly⟩ := hverdict
  refine ⟨ts, c₀, c₁, hleaves, (hstatus _).2 (.inl hroot), ?_⟩
  cases hst : (audit (exactRoot pairEnv 12) (acct 2) (onePage (run pairEnv ts fresh).1.events)
      (leafRoot pairEnv 12 [c₀])).status with
  | rootMismatchCritical => rfl
  | ok =>
      rw [← fresh, hleaves] at honly
      have hfree : ∀ {m}, List.Sublist m [c₀, c₁] → CollisionFree pairEnv 12 [c₀] m := fun hm =>
        collisionFree_pairEnv h₀ h₁ (by simp) hm
      have hsame := honly [c₀] (by simp) (by simp) (hfree (List.Sublist.refl _))
        (fun c hc => hfree (List.singleton_sublist.2 (List.mem_of_getLast? hc))) hst
      rcases hsame with h | ⟨c, hc, h⟩
      · -- the second leaf is missing
        have := h 1 (by norm_num)
        simp only [LeanIMT.leafFn, LeanIMT.scalars, Merkle.pad, List.map_cons, List.map_nil,
          List.getD_cons_succ, List.getD_cons_zero, List.getD_nil, h₁] at this
        exact absurd this (by decide)
      · obtain rfl : c₁ = c := by simpa using hc
        have := h 0 (by norm_num)
        simp only [LeanIMT.leafFn, LeanIMT.scalars, Merkle.pad, List.map_cons, List.getD_cons_zero,
          h₀, h₁] at this
        exact absurd this (by decide)

/-- After two deposits the root over the second leaf alone passes, though it omits the first. -/
theorem latest_root_accepted :
    ¬ ∀ (E : Env) (admin usdc verifier : Address) (depth poolId chainId : ℕ)
      (balance : Address → Address → ℤ) (ledger : ℕ) (ts : List Step) (computeRoot : List ℕ → ℕ)
      (lookbacks : List Answers) (poolContract : Address) (onchain : Bytes32),
      let s := (run E ts (construct admin usdc verifier depth poolId chainId balance ledger)).1
      ComputesRoot E depth computeRoot → Retains s.events lookbacks →
        (∀ l m, List.Sublist l s.tree.leaves → List.Sublist m s.tree.leaves →
          CollisionFree E depth l m) →
        ((audit computeRoot poolContract lookbacks onchain).status = .ok ↔
          onchain = leafRoot E depth s.tree.leaves) := by
  intro hall
  obtain ⟨ts, c₀, c₁, r, r', h₀, h₁, hleaves, hevents, -⟩ := exists_twoDeposits
  have hfree := @collisionFree_pairEnv c₀ c₁ h₀ h₁
  have hiff := hall pairEnv (acct 0) (acct 1) (acct 0) 12 0 0 (fun _ _ => 0) 0 ts (exactRoot pairEnv 12)
    (onePage (run pairEnv ts fresh).1.events) (acct 2) (leafRoot pairEnv 12 [c₁])
    (computesRoot_exactRoot pairEnv 12) (retains_onePage _)
    (by rw [← fresh, hleaves]; exact fun l m hl hm => hfree hl hm)
  rw [← fresh, hleaves] at hiff
  obtain ⟨hs, -⟩ := @replays_run pairEnv (acct 0) (acct 1) (acct 0) 12 0 0 (fun _ _ => 0) 0 ts
  have hok := (audit_status_iff hs (computesRoot_exactRoot pairEnv 12) (retains_onePage _) (acct 2)
    (leafRoot pairEnv 12 [c₁])).2 (.inr ⟨c₁, by rw [← fresh, hevents]; rfl, rfl⟩)
  have hsame := (hfree (by simp) (List.Sublist.refl _)).sameLeaves (by simp) (by simp) (hiff.1 hok) 0
    (by norm_num)
  simp only [LeanIMT.leafFn, LeanIMT.scalars, Merkle.pad, List.map_cons, List.getD_cons_zero, h₀,
    h₁] at hsame
  exact absurd hsame (by decide)

end ShadePay.RootAuditor
