import ShadePay.Rfq.Lifecycle

/-!
# One acceptance and one settlement an intent

Nothing in the tables or the handlers keeps a second quote of an intent from being accepted, a second
settlement with another nullifier from being recorded, or either from happening late. What the client
is told holds while no insert meets a row of another acceptance or settlement.
-/

namespace ShadePay.Rfq

variable {deterministicId : String → List String → String}

/-! ## What a step does -/

/-- A row of the acceptance that the client is told of, or of the settlement. -/
def Answer.Kept (d : Db) (a : Answer) : Prop :=
  match a with
  | .accepted r id => ∃ a ∈ d.quoteAcceptances,
      a.acceptanceId = id ∧ a.quoteId = r.quoteId ∧ a.intentHash = r.intentHash
  | .settled r id => ∃ s ∈ d.settlements,
      s.settlementId = id ∧ s.quoteId = r.quoteId ∧ s.intentHash = r.intentHash
  | _ => True

/-- The same for a handler that will tell or has told the client. -/
def Process.Kept (d : Db) (p : Process) : Prop :=
  match p with
  | .tagging r id => Answer.Kept d (.settled r id)
  | .closing a | .answered a => a.Kept d
  | _ => True

/-- A step, by what it writes. -/
inductive Process.Effect (deterministicId : String → List String → String) (d : Db) :
    Process → Act → Db → Process → Prop
  | insertIntent {i} : Effect deterministicId d .idle (.insertIntent i) (d.insertIntent i) .idle
  | linkSession {intentHash session} : Effect deterministicId d .idle
      (.linkSession intentHash session) (d.linkSession intentHash session) .idle
  | world {w} : Effect deterministicId d .idle (.world w) { d with world := w } .idle
  | insertQuote {q d'} (h : d.insertQuote q = some d') :
      Effect deterministicId d (.submitting q) .exec d' (.closing (.quoted q))
  | insertAcceptance {r : Accept} {d'}
      (h : d.insertAcceptance (r.row deterministicId) = some d') :
      Effect deterministicId d (.accepting r) .exec d'
        (.closing (.accepted r (r.row deterministicId).acceptanceId))
  | insertFill {b : FillBody} {d'} (h : d.insertFill (b.row deterministicId) = some d') :
      Effect deterministicId d (.filling b) .exec d'
        (.closing (.filled (b.row deterministicId).fillId))
  | executeFill {fillId hash p} (hp : ∀ d, p.Kept d) :
      Effect deterministicId d (.executing fillId hash) .exec (d.executeFill fillId hash) p
  | insertSettlement {r : Settle} {d'} (hr : r.fillReceiptHash = none)
      (h : d.insertSettlement (r.row deterministicId d.world.ledger) = some d') :
      Effect deterministicId d (.settling r) .exec d'
        (.tagging r (r.row deterministicId d.world.ledger).settlementId)
  | setRowUser {r id} : Effect deterministicId d (.tagging r id) .exec (d.setRowUser id r.userId)
      (.closing (.settled r id))
  | quiet {p a p'} (hkept : ∀ d, p.Kept d → p'.Kept d) : Effect deterministicId d p a d p'

/-- A refusal promises nothing. -/
theorem kept_orElse {refused : Option Refusal} {p : Process} {d : Db} (hp : p.Kept d) :
    (orElse refused p).Kept d := by
  cases refused with
  | none => exact hp
  | some r => trivial

/-- A handler that has read a row has told the client nothing yet. -/
theorem kept_read {c : Caller} {d e : Db} {l : Lookup} : (c.read d l).Kept e := by
  cases l with
  | intent | quote | accepted => trivial
  | fill intent quote accepted =>
      cases c with
      | accept | settle => exact kept_orElse trivial

/-- A request that starts has told the client nothing yet. -/
theorem kept_start (r : Request) (d : Db) : r.start.Kept d := by
  cases r with
  | execute fillId hash =>
      simp only [Request.start]
      split
      · trivial
      · trivial
  | _ => trivial

/-- An insert takes effect, or throws. -/
theorem inserted_effect {d d' : Db} {result : Option Db} {message : String} {p p' q : Process}
    (h : inserted d result message p = (d', p'))
    (heffect : ∀ d', result = some d' → q.Effect deterministicId d .exec d' p) :
    q.Effect deterministicId d .exec d' p' := by
  cases result with
  | none =>
      obtain ⟨rfl, rfl⟩ := Prod.mk.inj h
      exact .quiet fun _ _ => trivial
  | some e =>
      obtain ⟨rfl, rfl⟩ := Prod.mk.inj h
      exact heffect e rfl

/-- The next statement. -/
theorem exec_effect {p p' : Process} {d d' : Db}
    (h : p.exec deterministicId d = some (d', p')) : p.Effect deterministicId d .exec d' p' := by
  cases p with
  | idle | answered => cases h
  | submitting q =>
      exact inserted_effect (Option.some.inj h) fun _ hins => .insertQuote hins
  | accepting r =>
      exact inserted_effect (Option.some.inj h) fun _ hins => .insertAcceptance hins
  | filling b =>
      exact inserted_effect (Option.some.inj h) fun _ hins => .insertFill hins
  | settling r =>
      simp only [Process.exec] at h
      split at h
      · obtain ⟨rfl, rfl⟩ := Prod.mk.inj (Option.some.inj h)
        exact .quiet fun _ _ => trivial
      · next hr =>
        exact inserted_effect (Option.some.inj h) fun _ hins =>
          .insertSettlement (by simpa using hr) hins
  | tagging r id =>
      obtain ⟨rfl, rfl⟩ := Prod.mk.inj (Option.some.inj h)
      exact .setRowUser
  | closing a =>
      obtain ⟨rfl, rfl⟩ := Prod.mk.inj (Option.some.inj h)
      exact .quiet fun _ ha => ha
  | owning r =>
      obtain ⟨rfl, rfl⟩ := Prod.mk.inj (Option.some.inj h)
      exact .quiet fun _ _ => kept_orElse trivial
  | reading c l =>
      obtain ⟨rfl, rfl⟩ := Prod.mk.inj (Option.some.inj h)
      exact .quiet fun _ _ => kept_read
  | executing fillId hash =>
      obtain ⟨rfl, rfl⟩ := Prod.mk.inj (Option.some.inj h)
      refine .executeFill fun _ => ?_
      split
      · trivial
      · trivial
  | auditing | proving | spending | routing | matching =>
      obtain ⟨rfl, rfl⟩ := Prod.mk.inj (Option.some.inj h)
      refine .quiet fun _ _ => ?_
      split
      · trivial
      · trivial

/-- **What a step does.** -/
theorem next_effect {p p' : Process} {d d' : Db} {a : Act}
    (h : p.next deterministicId d a = some (d', p')) : p.Effect deterministicId d a d' p' := by
  unfold Process.next at h
  split at h
  · obtain ⟨rfl, rfl⟩ := Prod.mk.inj (Option.some.inj h)
    exact .quiet fun _ _ => kept_start _ _
  · obtain ⟨rfl, rfl⟩ := Prod.mk.inj (Option.some.inj h)
    exact .insertIntent
  · obtain ⟨rfl, rfl⟩ := Prod.mk.inj (Option.some.inj h)
    exact .linkSession
  · obtain ⟨rfl, rfl⟩ := Prod.mk.inj (Option.some.inj h)
    exact .world
  · exact exec_effect h
  · cases h
  · cases h
  · obtain ⟨rfl, rfl⟩ := Prod.mk.inj (Option.some.inj h)
    exact .quiet fun _ _ => trivial
  · cases h

/-! ## The law -/

/-- The settlement was recorded for a quote and an intent, before the ledgers they name. -/
structure Settlement.Timely (d : Db) (s : Settlement) : Prop where
  quoted : ∃ q ∈ d.quotes, q.quoteId = s.quoteId
  intended : ∃ i ∈ d.intents, i.intentHash = s.intentHash
  quote : ∀ q ∈ d.quotes, q.quoteId = s.quoteId → s.createdAt ≤ q.validUntilLedger
  intent : ∀ i ∈ d.intents, i.intentHash = s.intentHash → s.createdAt ≤ i.expiryLedger

/-- One acceptance and one settlement an intent, and no late settlement. -/
structure Lawful (d : Db) : Prop where
  accepted : (d.quoteAcceptances.map QuoteAcceptance.intentHash).Nodup
  settled : (d.settlements.map Settlement.intentHash).Nodup
  timely : ∀ s ∈ d.settlements, s.Timely d

/-- The acceptances that have the intent, the quote or the id of a request are this acceptance. -/
def Accept.clear (deterministicId : String → List String → String) (r : Accept) (d : Db) : Bool :=
  d.quoteAcceptances.all fun a =>
    !(a.intentHash = r.intentHash || a.quoteId = r.quoteId ||
        a.acceptanceId = (r.row deterministicId).acceptanceId) ||
      (a.intentHash = r.intentHash && a.quoteId = r.quoteId &&
        a.acceptanceId = (r.row deterministicId).acceptanceId)

/-- The settlements that have the intent or the id of a request are this settlement. -/
def Settle.clear (deterministicId : String → List String → String) (r : Settle) (d : Db) : Bool :=
  d.settlements.all fun s =>
    !(s.intentHash = r.intentHash ||
        s.settlementId = (r.row deterministicId d.world.ledger).settlementId) ||
      (s.intentHash = r.intentHash && s.quoteId = r.quoteId &&
        s.settlementId = (r.row deterministicId d.world.ledger).settlementId)

/-- The ledger has not passed those that the quote and the intent of a request name. -/
def Settle.inTime (r : Settle) (d : Db) : Bool :=
  (d.quotes.all fun q => !(q.quoteId = r.quoteId) || d.world.ledger ≤ q.validUntilLedger) &&
    d.intents.all fun i => !(i.intentHash = r.intentHash) || d.world.ledger ≤ i.expiryLedger

/-- The statement is not one of the inserts that go wrong. -/
def Process.spares (deterministicId : String → List String → String) (p : Process) (d : Db)
    (a : Act) : Bool :=
  match p, a with
  | .accepting r, .exec => r.clear deterministicId d
  | .settling r, .exec =>
      r.fillReceiptHash.isSome ||
        (d.insertSettlement (r.row deterministicId d.world.ledger)).isNone ||
        r.clear deterministicId d && ((d.settlements.any fun s =>
          s.settlementId = (r.row deterministicId d.world.ledger).settlementId) || r.inTime d)
  | _, _ => true

variable {d d' : Db} {p p' : Process} {a : Act}

/-- An insertion that succeeds found what it refers to, unless it conflicts with a row. -/
theorem insertGeneric_eq_some {α : Type} {conflict : α → Bool} {references : Bool} {row : α}
    {rows rows' : List α} (h : insertGeneric conflict references row rows = some rows') :
    (rows.any conflict = false → references) ∧ rows' = Table.insertNew conflict row rows := by
  unfold insertGeneric at h
  split at h
  · next hok =>
    refine ⟨fun hnone => ?_, (Option.some.inj h).symm⟩
    rwa [hnone, Bool.false_or] at hok
  · cases h

/-! ## Frames -/

/-- New quotes and intents are not those of a settlement. -/
theorem Settlement.Timely.mono {s : Settlement} (hs : s.Timely d)
    (hquotes : ∀ q ∈ d.quotes, q ∈ d'.quotes)
    (hquotes' : ∀ q ∈ d'.quotes, q ∈ d.quotes ∨ ∀ p ∈ d.quotes, p.quoteId ≠ q.quoteId)
    (hintents : ∀ i ∈ d.intents, ∃ j ∈ d'.intents, j.intentHash = i.intentHash)
    (hintents' : ∀ j ∈ d'.intents,
      (∃ i ∈ d.intents, i.intentHash = j.intentHash ∧ i.expiryLedger = j.expiryLedger) ∨
        ∀ i ∈ d.intents, i.intentHash ≠ j.intentHash) : s.Timely d' := by
  obtain ⟨⟨q, hq, hqs⟩, ⟨i, hi, his⟩, hquote, hintent⟩ := hs
  refine ⟨⟨q, hquotes q hq, hqs⟩, ?_, fun q' hq' hqs' => ?_, fun j hj hjs => ?_⟩
  · obtain ⟨j, hj, hji⟩ := hintents i hi
    exact ⟨j, hj, hji.trans his⟩
  · rcases hquotes' q' hq' with h | h
    · exact hquote q' h hqs'
    · exact absurd (hqs.trans hqs'.symm) (h q hq)
  · rcases hintents' j hj with ⟨i', hi', hhash, hexpiry⟩ | h
    · exact hexpiry ▸ hintent i' hi' (hhash.trans hjs)
    · exact absurd (his.trans hjs.symm) (h i hi)

/-- Tables that only the other statements write. -/
theorem Lawful.of_eq (hd : Lawful d) (ha : d'.quoteAcceptances = d.quoteAcceptances)
    (hs : d'.settlements = d.settlements) (ht : ∀ s : Settlement, s.Timely d → s.Timely d') :
    Lawful d' :=
  ⟨ha ▸ hd.accepted, hs ▸ hd.settled, fun s hmem => ht s (hd.timely s (hs ▸ hmem))⟩

/-- Settlements stay timely when an intent is inserted. -/
theorem timely_insertIntent {i : Intent} {s : Settlement} (hs : s.Timely d) :
    s.Timely (d.insertIntent i) := by
  refine hs.mono (fun q hq => hq) (fun q hq => .inl hq) (fun j hj => ?_) fun j hj => ?_
  · exact ⟨j, Table.mem_insertNew.2 (.inl hj), rfl⟩
  · rcases Table.mem_insertNew.1 hj with hj | ⟨hnone, rfl⟩
    · exact .inl ⟨j, hj, rfl, rfl⟩
    · refine .inr fun k hk hhash => List.any_eq_false.1 hnone k hk ?_
      simp [hhash]

/-- Settlements stay timely when a session is linked. -/
theorem timely_linkSession {intentHash session : String} {s : Settlement} (hs : s.Timely d) :
    s.Timely (d.linkSession intentHash session) := by
  refine hs.mono (fun q hq => hq) (fun q hq => .inl hq) (fun j hj => ?_) fun j hj => ?_
  · refine ⟨_, Table.mem_update.2 ⟨j, hj, rfl⟩, ?_⟩
    split
    · rfl
    · rfl
  · obtain ⟨k, hk, rfl⟩ := Table.mem_update.1 hj
    refine .inl ⟨k, hk, ?_⟩
    split
    · exact ⟨rfl, rfl⟩
    · exact ⟨rfl, rfl⟩

/-- An insertion of a quote touches the quotes only. -/
theorem insertQuote_eq_some {q : Quote} (h : d.insertQuote q = some d') :
    ∃ quotes, d' = { d with quotes } ∧ quotes = Table.insertNew
      (fun p => p.quoteId = q.quoteId || p.quoteHash = q.quoteHash) q d.quotes := by
  obtain ⟨quotes, hins, rfl⟩ := Option.map_eq_some_iff.1 h
  exact ⟨quotes, rfl, (insertGeneric_eq_some hins).2⟩

/-- Settlements stay timely when a quote is inserted. -/
theorem timely_insertQuote {q : Quote} (h : d.insertQuote q = some d') {s : Settlement}
    (hs : s.Timely d) : s.Timely d' := by
  obtain ⟨quotes, rfl, rfl⟩ := insertQuote_eq_some h
  refine hs.mono (fun p hp => Table.mem_insertNew.2 (.inl hp)) (fun p hp => ?_)
    (fun i hi => ⟨i, hi, rfl⟩) fun i hi => .inl ⟨i, hi, rfl, rfl⟩
  rcases Table.mem_insertNew.1 hp with hp | ⟨hnone, rfl⟩
  · exact .inl hp
  · refine .inr fun r hr hid => List.any_eq_false.1 hnone r hr ?_
    simp [hid]

/-! ## The two inserts -/

/-- An acceptance is clear if those it could meet are its own. -/
theorem Accept.clear_iff {r : Accept} : r.clear deterministicId d ↔
    ∀ a ∈ d.quoteAcceptances, a.intentHash = r.intentHash ∨ a.quoteId = r.quoteId ∨
      a.acceptanceId = (r.row deterministicId).acceptanceId →
        a.intentHash = r.intentHash ∧ a.quoteId = r.quoteId ∧
          a.acceptanceId = (r.row deterministicId).acceptanceId := by
  rw [Accept.clear, List.all_eq_true]
  refine forall₂_congr fun a _ => ?_
  simp only [Bool.or_eq_true, Bool.not_eq_true', Bool.or_eq_false_iff, Bool.and_eq_true,
    decide_eq_true_eq, decide_eq_false_iff_not]
  tauto

/-- A settlement is clear if those it could meet are its own. -/
theorem Settle.clear_iff {r : Settle} : r.clear deterministicId d ↔
    ∀ s ∈ d.settlements, s.intentHash = r.intentHash ∨
      s.settlementId = (r.row deterministicId d.world.ledger).settlementId →
        s.intentHash = r.intentHash ∧ s.quoteId = r.quoteId ∧
          s.settlementId = (r.row deterministicId d.world.ledger).settlementId := by
  rw [Settle.clear, List.all_eq_true]
  refine forall₂_congr fun s _ => ?_
  simp only [Bool.or_eq_true, Bool.not_eq_true', Bool.or_eq_false_iff, Bool.and_eq_true,
    decide_eq_true_eq, decide_eq_false_iff_not]
  tauto

/-- An acceptance that goes in clear of the others is the one of its intent, and the one that the
client is told of. -/
theorem insertAcceptance_step (hd : Lawful d) {r : Accept}
    (h : d.insertAcceptance (r.row deterministicId) = some d')
    (hclear : r.clear deterministicId d) :
    Lawful d' ∧ Answer.Kept d' (.accepted r (r.row deterministicId).acceptanceId) := by
  have hclear := Accept.clear_iff.1 hclear
  obtain ⟨rows, hins, rfl⟩ := Option.map_eq_some_iff.1 h
  obtain ⟨-, rfl⟩ := insertGeneric_eq_some hins
  refine ⟨⟨Table.nodup_insertNew hd.accepted fun hnone a ha hhash => ?_, hd.settled,
    fun s hs => ?_⟩, ?_⟩
  · have hid := (hclear a ha (.inl hhash)).2.2
    exact List.any_eq_false.1 hnone a ha (Bool.or_eq_true_iff.2 (.inl (decide_eq_true hid)))
  · obtain ⟨hq, hi, hquote, hintent⟩ := hd.timely s hs
    exact ⟨hq, hi, hquote, hintent⟩
  · cases hany : d.quoteAcceptances.any fun b =>
        b.acceptanceId = (r.row deterministicId).acceptanceId ||
          b.quoteId = (r.row deterministicId).quoteId with
    | false => exact ⟨_, Table.mem_insertNew.2 (.inr ⟨hany, rfl⟩), rfl, rfl, rfl⟩
    | true =>
        -- the row in conflict is this acceptance
        obtain ⟨b, hb, hconflict⟩ := List.any_eq_true.1 hany
        have hor : b.acceptanceId = (r.row deterministicId).acceptanceId ∨ b.quoteId = r.quoteId :=
          (Bool.or_eq_true_iff.1 hconflict).imp of_decide_eq_true of_decide_eq_true
        obtain ⟨hhash, hquote, hid⟩ := hclear b hb (.inr hor.symm)
        exact ⟨b, Table.mem_insertNew.2 (.inl hb), hid, hquote, hhash⟩

/-- A settlement is in time if its quote and its intent are. -/
theorem Settle.inTime_iff {r : Settle} : r.inTime d ↔
    (∀ q ∈ d.quotes, q.quoteId = r.quoteId → d.world.ledger ≤ q.validUntilLedger) ∧
      ∀ i ∈ d.intents, i.intentHash = r.intentHash → d.world.ledger ≤ i.expiryLedger := by
  rw [Settle.inTime, Bool.and_eq_true, List.all_eq_true, List.all_eq_true]
  refine and_congr (forall₂_congr fun q _ => ?_) (forall₂_congr fun i _ => ?_)
  · simp only [Bool.or_eq_true, Bool.not_eq_true', decide_eq_true_eq, decide_eq_false_iff_not]
    tauto
  · simp only [Bool.or_eq_true, Bool.not_eq_true', decide_eq_true_eq, decide_eq_false_iff_not]
    tauto

/-- A settlement that goes in clear of the others and in time is the one of its intent, and the one
that the client is told of. -/
theorem insertSettlement_step (hd : Lawful d) {r : Settle}
    (h : d.insertSettlement (r.row deterministicId d.world.ledger) = some d')
    (hclear : r.clear deterministicId d)
    (htime : (d.settlements.any fun s =>
      s.settlementId = (r.row deterministicId d.world.ledger).settlementId) ∨ r.inTime d) :
    Lawful d' ∧
      Answer.Kept d' (.settled r (r.row deterministicId d.world.ledger).settlementId) := by
  have hclear := Settle.clear_iff.1 hclear
  obtain ⟨rows, hins, rfl⟩ := Option.map_eq_some_iff.1 h
  obtain ⟨hrefs, rfl⟩ := insertGeneric_eq_some hins
  refine ⟨⟨hd.accepted, Table.nodup_insertNew hd.settled fun hnone s hs hhash => ?_, fun s hs => ?_⟩, ?_⟩
  · exact List.any_eq_false.1 hnone s hs (decide_eq_true (hclear s hs (.inl hhash)).2.2)
  · rcases Table.mem_insertNew.1 hs with hs | ⟨hnone, rfl⟩
    · obtain ⟨hq, hi, hquote, hintent⟩ := hd.timely s hs
      exact ⟨hq, hi, hquote, hintent⟩
    · obtain ⟨hquote, hintent⟩ := Settle.inTime_iff.1
        (htime.resolve_left fun hany => by rw [hnone] at hany; cases hany)
      have hrefs := hrefs hnone
      simp only [Bool.and_eq_true] at hrefs
      obtain ⟨⟨⟨hi, hq⟩, -⟩, -⟩ := hrefs
      obtain ⟨i, hi⟩ := Option.isSome_iff_exists.1 hi
      obtain ⟨q, hq⟩ := Option.isSome_iff_exists.1 hq
      exact ⟨⟨q, List.mem_of_find?_eq_some hq, by simpa using List.find?_some hq⟩,
        ⟨i, List.mem_of_find?_eq_some hi, by simpa using List.find?_some hi⟩, hquote, hintent⟩
  · cases hany : d.settlements.any fun s =>
        s.settlementId = (r.row deterministicId d.world.ledger).settlementId with
    | false => exact ⟨_, Table.mem_insertNew.2 (.inr ⟨hany, rfl⟩), rfl, rfl, rfl⟩
    | true =>
        obtain ⟨s, hs, hid⟩ := List.any_eq_true.1 hany
        obtain ⟨hhash, hquote, hid⟩ := hclear s hs (.inr (of_decide_eq_true hid))
        exact ⟨s, Table.mem_insertNew.2 (.inl hs), hid, hquote, hhash⟩

/-- Naming the user of a row keeps the tables lawful. -/
theorem Lawful.setRowUser (hd : Lawful d) (id : String) (userId : ℕ) :
    Lawful (d.setRowUser id userId) := by
  refine ⟨hd.accepted, ?_, fun s hs => ?_⟩
  · unfold Db.setRowUser
    rw [Table.map_update fun s _ _ => ?_]
    · exact hd.settled
    · rfl
  · obtain ⟨t, ht, rfl⟩ := Table.mem_update.1 hs
    obtain ⟨hq, hi, hquote, hintent⟩ := hd.timely t ht
    split
    · exact ⟨hq, hi, hquote, hintent⟩
    · exact ⟨hq, hi, hquote, hintent⟩

/-! ## Steps and runs -/

/-- What `spares` asks of a settlement that goes in. -/
theorem spares_settling {r : Settle} (hr : r.fillReceiptHash = none)
    (h : d.insertSettlement (r.row deterministicId d.world.ledger) = some d')
    (hok : (Process.settling r).spares deterministicId d .exec) :
    r.clear deterministicId d ∧ ((d.settlements.any fun s =>
      s.settlementId = (r.row deterministicId d.world.ledger).settlementId) ∨ r.inTime d) := by
  simpa [Process.spares, hr, h] using hok

/-- The law is kept by every step but the inserts that go wrong. -/
theorem Lawful.step (hd : Lawful d) (hstep : p.Effect deterministicId d a d' p')
    (hok : p.spares deterministicId d a) : Lawful d' := by
  cases hstep with
  | insertIntent => exact hd.of_eq rfl rfl fun _ => timely_insertIntent
  | linkSession => exact hd.of_eq rfl rfl fun _ => timely_linkSession
  | world => exact hd.of_eq rfl rfl fun _ hs => ⟨hs.quoted, hs.intended, hs.quote, hs.intent⟩
  | insertQuote h =>
      have htimely := fun s => @timely_insertQuote d d' _ h s
      obtain ⟨quotes, rfl, -⟩ := insertQuote_eq_some h
      exact hd.of_eq rfl rfl htimely
  | insertAcceptance h => exact (insertAcceptance_step hd h hok).1
  | insertFill h =>
      obtain ⟨fills, -, rfl⟩ := Option.map_eq_some_iff.1 h
      exact hd.of_eq rfl rfl fun _ hs => ⟨hs.quoted, hs.intended, hs.quote, hs.intent⟩
  | executeFill => exact hd.of_eq rfl rfl fun _ hs => ⟨hs.quoted, hs.intended, hs.quote, hs.intent⟩
  | insertSettlement hr h =>
      obtain ⟨hclear, htime⟩ := spares_settling hr h hok
      exact (insertSettlement_step hd h hclear htime).1
  | setRowUser => exact hd.setRowUser _ _
  | quiet => exact hd

/-- Rows stay, with the columns that answers name. -/
theorem rows_step (hstep : p.Effect deterministicId d a d' p') :
    (∀ a ∈ d.quoteAcceptances, a ∈ d'.quoteAcceptances) ∧
      ∀ s ∈ d.settlements, ∃ t ∈ d'.settlements, t.settlementId = s.settlementId ∧
        t.quoteId = s.quoteId ∧ t.intentHash = s.intentHash := by
  have hsame : ∀ s ∈ d.settlements, ∃ t ∈ d.settlements, t.settlementId = s.settlementId ∧
      t.quoteId = s.quoteId ∧ t.intentHash = s.intentHash := fun s hs => ⟨s, hs, rfl, rfl, rfl⟩
  cases hstep with
  | insertIntent | linkSession | world | executeFill | quiet => exact ⟨fun _ ha => ha, hsame⟩
  | insertQuote h =>
      obtain ⟨quotes, rfl, -⟩ := insertQuote_eq_some h
      exact ⟨fun _ ha => ha, hsame⟩
  | insertAcceptance h =>
      obtain ⟨rows, hins, rfl⟩ := Option.map_eq_some_iff.1 h
      obtain ⟨-, rfl⟩ := insertGeneric_eq_some hins
      exact ⟨fun _ ha => Table.mem_insertNew.2 (.inl ha), hsame⟩
  | insertFill h =>
      obtain ⟨fills, -, rfl⟩ := Option.map_eq_some_iff.1 h
      exact ⟨fun _ ha => ha, hsame⟩
  | insertSettlement _ h =>
      obtain ⟨rows, hins, rfl⟩ := Option.map_eq_some_iff.1 h
      obtain ⟨-, rfl⟩ := insertGeneric_eq_some hins
      exact ⟨fun _ ha => ha, fun s hs => ⟨s, Table.mem_insertNew.2 (.inl hs), rfl, rfl, rfl⟩⟩
  | setRowUser =>
      refine ⟨fun _ ha => ha, fun s hs => ⟨_, Table.mem_update.2 ⟨s, hs, rfl⟩, ?_⟩⟩
      split
      · exact ⟨rfl, rfl, rfl⟩
      · exact ⟨rfl, rfl, rfl⟩

/-- The row the client was told of stays. -/
theorem Answer.Kept.step {b : Answer} (hb : b.Kept d)
    (hstep : p.Effect deterministicId d a d' p') : b.Kept d' := by
  obtain ⟨hacceptances, hsettlements⟩ := rows_step hstep
  cases b with
  | accepted r id =>
      obtain ⟨a, ha, hcols⟩ := hb
      exact ⟨a, hacceptances a ha, hcols⟩
  | settled r id =>
      obtain ⟨s, hs, hid, hquote, hhash⟩ := hb
      obtain ⟨t, ht, htid, htquote, hthash⟩ := hsettlements s hs
      exact ⟨t, ht, htid.trans hid, htquote.trans hquote, hthash.trans hhash⟩
  | quoted | filled | executed | failed => trivial

/-- What a handler has promised stays, whoever steps. -/
theorem Process.Kept.other {q : Process} (hq : q.Kept d)
    (hstep : p.Effect deterministicId d a d' p') : q.Kept d' := by
  cases q with
  | tagging r id =>
      have hq : Answer.Kept d (.settled r id) := hq
      exact hq.step hstep
  | closing | answered => exact Answer.Kept.step hq hstep
  | _ => trivial

/-- The row a handler tells of is there after its own step. -/
theorem Process.Kept.own (hd : Lawful d) (hp : p.Kept d)
    (hstep : p.Effect deterministicId d a d' p') (hok : p.spares deterministicId d a) :
    p'.Kept d' := by
  have hstays : p.Kept d' := hp.other hstep
  cases hstep with
  | insertIntent | linkSession | world | insertQuote | insertFill => trivial
  | executeFill hp' => exact hp' _
  | insertAcceptance h => exact (insertAcceptance_step hd h hok).2
  | insertSettlement hr h =>
      obtain ⟨hclear, htime⟩ := spares_settling hr h hok
      exact (insertSettlement_step hd h hclear htime).2
  | setRowUser => exact hstays
  | quiet hkept => exact hkept d hp

/-- The outline of the lifecycle. -/
theorem lifecycleOutline : Interleave.Outline
    (Interleave.restrict (Process.next deterministicId) (Process.spares deterministicId))
    Lawful Process.Kept (fun _ _ => True) where
  symm _ := trivial
  own hd hp hnext := by
    obtain ⟨hok, hnext⟩ := Interleave.restrict_eq_some.1 hnext
    exact ⟨hd.step (next_effect hnext) hok, hp.own hd (next_effect hnext) hok⟩
  other _ _ hq _ hnext :=
    ⟨hq.other (next_effect (Interleave.restrict_eq_some.1 hnext).2), trivial⟩

section
variable {ι : Type} [DecidableEq ι]

/-- What clients rely on. -/
structure Safe (s : System ι) : Prop where
  accepted : ∀ a ∈ s.shared.quoteAcceptances, ∀ b ∈ s.shared.quoteAcceptances,
    a.intentHash = b.intentHash → a.quoteId = b.quoteId
  settled : (s.shared.settlements.map Settlement.intentHash).Nodup
  acceptanceId : ∀ i r id, s.loc i = .answered (.accepted r id) →
    ∃ a ∈ s.shared.quoteAcceptances,
      a.acceptanceId = id ∧ a.quoteId = r.quoteId ∧ a.intentHash = r.intentHash
  settlementId : ∀ i r id, s.loc i = .answered (.settled r id) →
    ∃ t ∈ s.shared.settlements,
      t.settlementId = id ∧ t.quoteId = r.quoteId ∧ t.intentHash = r.intentHash
  timely : ∀ t ∈ s.shared.settlements,
    (∀ q ∈ s.shared.quotes, q.quoteId = t.quoteId → t.createdAt ≤ q.validUntilLedger) ∧
      ∀ i ∈ s.shared.intents, i.intentHash = t.intentHash → t.createdAt ≤ i.expiryLedger

/-- **Safety.** In every run whose acceptances and settlements go in clear of those of the same
intent, and in time, every state is safe. -/
theorem safe_of_run {s₀ s : System ι} (h₀ : Fresh s₀) {es : List (ι × Act)}
    (h : Interleave.run (Interleave.restrict (Process.next deterministicId)
      (Process.spares deterministicId)) s₀ es = some s) : Safe s := by
  have hstart : Interleave.Holds Lawful Process.Kept (fun _ _ => True) s₀ := by
    refine ⟨⟨?_, ?_, fun s hs => ?_⟩, fun i => ?_, fun _ _ _ => trivial⟩
    · rw [h₀.quoteAcceptances]
      exact List.nodup_nil
    · rw [h₀.settlements]
      exact List.nodup_nil
    · rw [h₀.settlements] at hs
      exact (List.not_mem_nil hs).elim
    · rw [h₀.loc i]
      trivial
  obtain ⟨hlaw, hkept, -⟩ := lifecycleOutline.run hstart h
  refine ⟨fun a ha b hb hhash => ?_, hlaw.settled, fun i r id hi => ?_, fun i r id hi => ?_,
    fun t ht => ⟨(hlaw.timely t ht).quote, (hlaw.timely t ht).intent⟩⟩
  · rw [Table.eq_of_key hlaw.accepted ha hb hhash]
  · have hi' := hkept i
    rwa [hi] at hi'
  · have hi' := hkept i
    rwa [hi] at hi'

end

/-! ## Two quotes of one intent -/

/-- One intent of user 1, valid up to ledger 100, and nobody at work at ledger 10. -/
def oneIntent : System ℕ where
  shared :=
    { intents := [⟨"i", "key", some 1, 100, none⟩], quotes := [], quoteAcceptances := []
      fills := [], settlements := []
      world :=
        { ledger := 10, criticalRootMismatches := 0, proofStatus := fun _ => some "ready"
          nullifierSpent := fun _ => false, mpcMatched := fun _ => false } }
  loc _ := .idle

theorem oneIntent_fresh : Fresh oneIntent := ⟨rfl, rfl, fun _ => rfl⟩

/-- A process runs a request of `n` statements to its end. -/
def serves (i : ℕ) (r : Request) (n : ℕ) : List (ℕ × Act) :=
  (i, .call r) :: List.replicate n (i, .exec)

/-- A solver quotes, the user accepts, the solver fills and executes, and the user settles. -/
def settledRun : List (ℕ × Act) :=
  serves 0 (.submitQuote ⟨"q", "i", "h", "solver", 50⟩) 2 ++
    serves 1 (.accept ⟨1, "q", "i", "sig"⟩) 7 ++
    serves 2 (.fill ⟨"q", "receipt", none, "5", "r"⟩) 2 ++
    serves 3 (.execute (plainId "fill" ["q", "receipt"]) "0x1") 2 ++
    serves 4 (.settle ⟨1, "i", "q", none, none, "proof", "nullifier"⟩) 11

/-- The user accepts one quote of the intent and then another. -/
def acceptedTwice : List (ℕ × Act) :=
  serves 0 (.submitQuote ⟨"q", "i", "h", "solver", 50⟩) 2 ++
    serves 1 (.submitQuote ⟨"q'", "i", "h'", "solver'", 50⟩) 2 ++
    serves 2 (.accept ⟨1, "q", "i", "sig"⟩) 7 ++ serves 3 (.accept ⟨1, "q'", "i", "sig'"⟩) 7

/-- The settlement of the one quote is safe. -/
theorem safe_of_run_settledRun : ∃ s : System ℕ, run plainId oneIntent settledRun = some s ∧
    (∃ r id, s.loc 4 = .answered (.settled r id)) ∧ Safe s := by
  have hsettled : ((Interleave.run (Interleave.restrict (Process.next plainId)
      (Process.spares plainId)) oneIntent settledRun).map fun s => s.loc 4) =
      some (.answered (.settled ⟨1, "i", "q", none, none, "proof", "nullifier"⟩
        (plainId "settle" ["i", "q", "nullifier"]))) := by decide
  obtain ⟨s, h, hs⟩ := Option.map_eq_some_iff.1 hsettled
  exact ⟨s, Interleave.run_of_restrict h, ⟨_, _, hs⟩, safe_of_run oneIntent_fresh h⟩

/-- An intent with two accepted quotes. -/
theorem accepted_twice : ¬ ∀ s₀ s : System ℕ, Fresh s₀ → ∀ es,
    run plainId s₀ es = some s → Safe s := by
  intro hall
  have haccepted : ((run plainId oneIntent acceptedTwice).map fun s =>
      s.shared.quoteAcceptances.map fun a => (a.intentHash, a.quoteId)) =
        some [("i", "q"), ("i", "q'")] := by decide
  obtain ⟨s, h, hs⟩ := Option.map_eq_some_iff.1 haccepted
  have hmem : ∀ e ∈ [("i", "q"), ("i", "q'")], ∃ a ∈ s.shared.quoteAcceptances,
      (a.intentHash, a.quoteId) = e := fun e he => List.mem_map.1 (hs ▸ he)
  obtain ⟨a, ha, hae⟩ := hmem ("i", "q") (by decide)
  obtain ⟨b, hb, hbe⟩ := hmem ("i", "q'") (by decide)
  obtain ⟨hai, haq⟩ := Prod.mk.inj hae
  obtain ⟨hbi, hbq⟩ := Prod.mk.inj hbe
  have hsame := (hall oneIntent s oneIntent_fresh _ h).accepted a ha b hb (hai.trans hbi.symm)
  rw [haq, hbq] at hsame
  exact absurd hsame (by decide)

end ShadePay.Rfq
