import ShadePay.Rfq.Settler

/-!
# One path for a match

The settler asks once, per match, whether its intents have rows in `intents`, and queues a job when
neither has. As long as it skips no match of which only one intent has a row, and no row comes to be
for an intent whose match has a job or is about to get one, a match that has been dealt with is open
to exactly one path.
-/

namespace ShadePay.Rfq

/-! ## The gates ask for a row -/

section
variable {deterministicId : String → List String → String}

/-- A settle request that has not found the row of its intent, and one that has been refused. -/
inductive Process.Blocked (r : Settle) : Process → Prop
  | auditing : Blocked r (.auditing r)
  | intent : Blocked r (.reading (.settle r) .intent)
  | quote : Blocked r (.reading (.settle r) (.quote none))
  | accepted {q} : Blocked r (.reading (.settle r) (.accepted none q))
  | fill {q a} : Blocked r (.reading (.settle r) (.fill none q a))
  | answered {a} : Blocked r (.answered a)

/-- A settlement without its intent stays blocked. -/
theorem Process.Blocked.exec {r : Settle} {d : Db} (hnone : d.selectIntent r.intentHash = none)
    {p : Process} (hp : p.Blocked r) :
    Process.Blocked r (((p.exec deterministicId d).map Prod.snd).getD p) := by
  cases hp with
  | auditing =>
      simp only [Process.exec, Option.map_some, Option.getD_some]
      split
      · exact .answered
      · exact .intent
  | intent =>
      simp only [Process.exec, Option.map_some, Option.getD_some, Caller.read, Caller.intentHash,
        hnone]
      exact .quote
  | quote => exact .accepted
  | accepted => exact .fill
  | fill => exact .answered
  | answered => exact .answered

/-- Without a row in `intents` no settle request passes. -/
theorem not_passes {r : Settle} {d : Db} (hnone : d.selectIntent r.intentHash = none) :
    ¬ r.Passes deterministicId d := by
  rintro ⟨n, hn⟩
  have hblocked : ∀ n p, Process.Blocked r p →
      Process.Blocked r (Process.after deterministicId d n p) := by
    intro n
    induction n with
    | zero => exact fun _ hp => hp
    | succ n ih => exact fun p hp => ih _ (hp.exec hnone)
  have h := hblocked n _ .auditing
  rw [hn] at h
  cases h

end

/-! ## What stays -/

/-- A job is queued for a match. -/
def Tables.Queued (d : Tables) (batchId : String) (i : ℕ) : Prop :=
  ∃ j ∈ d.jobs, j.batchId = batchId ∧ j.matchIndex = i

/-- Both intents of a match have rows. -/
def Tables.Routed (d : Tables) (m : Match) : Prop :=
  d.isRfqRouted m.intentAId ∧ d.isRfqRouted m.intentBId

/-- A batch that is in the table, as far as its matches go. -/
def Tables.Knows (d : Tables) (b : Batch) : Prop :=
  ∃ c ∈ d.mpcBatches, c.batchId = b.batchId ∧ c.matchesJson = b.matchesJson

/-- Rows of intents, jobs and batches are not taken back. -/
structure Tables.Grows (d d' : Tables) : Prop where
  routed : ∀ id, d.isRfqRouted id → d'.isRfqRouted id
  jobs : ∀ j ∈ d.jobs, j ∈ d'.jobs
  batches : ∀ b, d.Knows b → d'.Knows b

variable {d d' : Tables}

/-- Tables with the same jobs and batches, and no intent less, have grown. -/
theorem Tables.Grows.of_eq (hrouted : ∀ id, d.isRfqRouted id → d'.isRfqRouted id)
    (hjobs : d'.jobs = d.jobs) (hbatches : d'.mpcBatches = d.mpcBatches) : d.Grows d' := by
  refine ⟨hrouted, fun j hj => hjobs ▸ hj, ?_⟩
  rintro b ⟨c, hc, hid, hmatches⟩
  exact ⟨c, hbatches ▸ hc, hid, hmatches⟩

/-- A queued match stays queued. -/
theorem Tables.Queued.mono {b : String} {i : ℕ} (h : d.Queued b i) (hg : d.Grows d') :
    d'.Queued b i := by
  obtain ⟨j, hj, hkey⟩ := h
  exact ⟨j, hg.jobs j hj, hkey⟩

/-- A match that has a job or belongs to the lifecycle. -/
def Tables.Decided (d : Tables) (batchId : String) (i : ℕ) (m : Match) : Prop :=
  d.Queued batchId i ∨ d.Routed m

/-- A decided match stays decided. -/
theorem Tables.Decided.mono {b : String} {i : ℕ} {m : Match} (h : d.Decided b i m)
    (hg : d.Grows d') : d'.Decided b i m :=
  h.imp (·.mono hg) fun hr => ⟨hg.routed _ hr.1, hg.routed _ hr.2⟩

/-- A settler at a match: its batches are in the table, and the matches before are decided. -/
structure Work.Sound (d : Tables) (w : Work) : Prop where
  batch : d.Knows w.batch
  todo : ∀ b ∈ w.todo, d.Knows b
  decided : ∀ i m, i < w.index → w.batch.matchesJson[i]? = some m → d.Decided w.batch.batchId i m

/-- Work stays sound when the tables grow. -/
theorem Work.Sound.mono {w : Work} (h : w.Sound d) (hg : d.Grows d') : w.Sound d' :=
  ⟨hg.batches _ h.batch, fun b hb => hg.batches _ (h.todo b hb),
    fun i m hi hm => (h.decided i m hi hm).mono hg⟩

/-- A job is that of the match the settler is at. -/
structure SettleJob.Of (w : Work) (job : SettleJob) : Prop where
  batchId : job.batchId = w.batch.batchId
  matchIndex : job.matchIndex = w.index
  isMatch : ∃ m, w.batch.matchesJson[w.index]? = some m ∧
    job.intentAId = m.intentAId ∧ job.intentBId = m.intentBId

/-- What a settler knows at each statement. -/
def Service.Sound (d : Tables) (p : Service) : Prop :=
  match p with
  | .routing w m _ _ | .noting w m _ _ =>
      w.Sound d ∧ w.batch.matchesJson[w.index]? = some m
  | .selecting w job | .inserting w job => w.Sound d ∧ job.Of w
  | .logging w => w.Sound d ∧ d.Queued w.batch.batchId w.index
  | .updating w => w.Sound d ∧ w.batch.matchesJson.length ≤ w.index
  | _ => True

/-- What others do does not disturb it. -/
theorem Service.Sound.mono {p : Service} (h : p.Sound d) (hg : d.Grows d') : p.Sound d' := by
  cases p with
  | routing | noting | selecting | inserting | updating => exact ⟨h.1.mono hg, h.2⟩
  | logging => exact ⟨h.1.mono hg, h.2.mono hg⟩
  | _ => trivial

/-- The settler goes on to a match that it has not read about. -/
theorem Work.Sound.next {w : Work} (h : w.Sound d) : w.next.Sound d := by
  unfold Work.next
  split
  · next hnone => exact ⟨h, List.getElem?_eq_none_iff.1 hnone⟩
  · next m hm => exact ⟨h, hm⟩

/-- The next batch of a sound list. -/
theorem sound_nextBatch {todo : List Batch} (h : ∀ b ∈ todo, d.Knows b) :
    (nextBatch todo).Sound d := by
  cases todo with
  | nil => trivial
  | cons b todo =>
      refine Work.Sound.next ⟨h b List.mem_cons_self, fun c hc => h c (List.mem_cons_of_mem _ hc), ?_⟩
      intro i m hi
      exact absurd hi (Nat.not_lt_zero i)

/-- The match at hand is decided, and the settler goes on to the next. -/
theorem Work.Sound.succ {w : Work} (h : w.Sound d) {queued : ℕ}
    (hm : ∀ m, w.batch.matchesJson[w.index]? = some m → d.Decided w.batch.batchId w.index m) :
    Service.Sound d { w with index := w.index + 1, queued : Work }.next := by
  refine Work.Sound.next ⟨h.batch, h.todo, fun i m hi him => ?_⟩
  rcases Nat.lt_succ_iff_lt_or_eq.1 hi with hi | rfl
  · exact h.decided i m hi him
  · exact hm m him

/-! ## What a step does -/

/-- The settler does not skip a match of which only one intent has a row. -/
def Tables.sparesSkip (d : Tables) (m : Match) : Option Bool → Option Bool → Bool
  | some a, some b => !(a || b) || d.isRfqRouted m.intentAId && d.isRfqRouted m.intentBId
  | _, _ => true

/-- The statement is not one of those that go wrong: a row that goes in for an intent with a job, a
job that goes in for an intent with a row, and the second of the settler's reads when only one
intent of the match it will skip has a row. -/
def Service.spares (p : Service) (d : Tables) (e : Event) : Bool :=
  match p, e with
  | .creating c, .exec =>
      (d.rfq.intents.any fun i =>
        i.intentHash = c.intent.intentHash || i.idempotencyKey = c.intent.idempotencyKey) ||
      !d.jobs.any fun j =>
        j.intentAId = c.intent.intentHash || j.intentBId = c.intent.intentHash
  | .inserting _ job, .exec =>
      d.jobs.any job.sameKey ||
        !d.isRfqRouted job.intentAId && !d.isRfqRouted job.intentBId
  | .routing _ m _ b, .exec => d.sparesSkip m (some (d.isRfqRouted m.intentAId)) b
  | .routing _ m a _, .execSecond => d.sparesSkip m a (some (d.isRfqRouted m.intentBId))
  | _, _ => true

/-- A step, by what it writes, and by where it leaves the settler. -/
inductive Service.Effect (d : Tables) : Service → Event → Tables → Service → Prop
  | insertIntent {c p'} (hp' : ∀ d, p'.Sound d) :
      Effect d (.creating c) .exec { d with rfq := d.rfq.insertIntent c.intent } p'
  | insertBatch {b updates} : Effect d (.persisting b) .exec (d.insertBatch b) (.marking updates)
  | insertJob {w job} (hfree : d.jobs.any job.sameKey = false) :
      Effect d (.inserting w job) .exec { d with jobs := d.jobs ++ [job] } (.logging w)
  | setStatus {w status} : Effect d (.updating w) .exec
      (d.setSettlementStatus w.batch.batchId status) (nextBatch w.todo)
  | outside {p e d' p'} (hrouted : ∀ id, d'.isRfqRouted id = d.isRfqRouted id)
      (hjobs : d'.jobs = d.jobs) (hbatches : d'.mpcBatches = d.mpcBatches)
      (hp' : ∀ d, p'.Sound d) : Effect d p e d' p'
  | polls : Effect d .idle .poll d (nextBatch d.pendingBatches)
  | routes {w m a b a' b' e}
      (hskip : (Service.routing w m a b).spares d e → d.sparesSkip m a' b') :
      Effect d (.routing w m a b) e d (w.route m a' b')
  | notes {w m a b a' b' e} : Effect d (.noting w m a b) e d (w.note m a' b')
  | finds {w job} (hfound : d.jobs.any job.sameKey) :
      Effect d (.selecting w job) .exec d w.queue
  | misses {w job} : Effect d (.selecting w job) .exec d (.inserting w job)
  | logs {w} : Effect d (.logging w) .exec d w.queue

/-- Linking a session does not change which intents are routed. -/
theorem isRfqRouted_linkSession {intentHash session id : String} :
    Tables.isRfqRouted { d with rfq := d.rfq.linkSession intentHash session } id =
      d.isRfqRouted id := by
  unfold Tables.isRfqRouted Db.linkSession Table.update
  rw [List.any_map]
  congr 1
  funext i
  rw [Function.comp_apply]
  split
  · rfl
  · rfl

/-- What a service does when it runs. -/
theorem Service.exec_effect {p p' : Service} (h : p.exec d = some (d', p')) :
    p.Effect d .exec d' p' := by
  cases p with
  | idle | forwarding => cases h
  | creating c =>
      obtain ⟨rfl, rfl⟩ := Prod.mk.inj (Option.some.inj h)
      refine .insertIntent fun _ => ?_
      split
      · trivial
      · trivial
  | recording c session =>
      simp only [Service.exec] at h
      split at h
      · cases h
      · obtain ⟨rfl, rfl⟩ := Prod.mk.inj (Option.some.inj h)
        exact .outside (fun _ => rfl) rfl rfl fun _ => trivial
  | linking c session =>
      obtain ⟨rfl, rfl⟩ := Prod.mk.inj (Option.some.inj h)
      exact .outside (fun _ => isRfqRouted_linkSession) rfl rfl fun _ => trivial
  | submitting m =>
      obtain ⟨rfl, rfl⟩ := Prod.mk.inj (Option.some.inj h)
      exact .outside (fun _ => rfl) rfl rfl fun _ => trivial
  | persisting b =>
      obtain ⟨rfl, rfl⟩ := Prod.mk.inj (Option.some.inj h)
      exact .insertBatch
  | marking updates =>
      cases updates with
      | nil =>
          obtain ⟨rfl, rfl⟩ := Prod.mk.inj (Option.some.inj h)
          exact .outside (fun _ => rfl) rfl rfl fun _ => trivial
      | cons u updates =>
          obtain ⟨rfl, rfl⟩ := Prod.mk.inj (Option.some.inj h)
          exact .outside (fun _ => rfl) rfl rfl fun _ => trivial
  | routing w m a b =>
      obtain ⟨rfl, rfl⟩ := Prod.mk.inj (Option.some.inj h)
      exact .routes id
  | noting w m a b =>
      obtain ⟨rfl, rfl⟩ := Prod.mk.inj (Option.some.inj h)
      exact .notes
  | selecting w job =>
      obtain ⟨rfl, rfl⟩ := Prod.mk.inj (Option.some.inj h)
      split
      · next hfound => exact .finds hfound
      · exact .misses
  | inserting w job =>
      simp only [Service.exec] at h
      split at h
      · obtain ⟨rfl, rfl⟩ := Prod.mk.inj (Option.some.inj h)
        exact .outside (fun _ => rfl) rfl rfl fun _ => trivial
      · next hfree =>
        obtain ⟨rfl, rfl⟩ := Prod.mk.inj (Option.some.inj h)
        exact .insertJob (Bool.eq_false_iff.2 hfree)
  | logging w =>
      obtain ⟨rfl, rfl⟩ := Prod.mk.inj (Option.some.inj h)
      exact .logs
  | updating w =>
      obtain ⟨rfl, rfl⟩ := Prod.mk.inj (Option.some.inj h)
      exact .setStatus

/-- **What a step does.** -/
theorem Service.next_effect {p p' : Service} {e : Event} (h : p.next d e = some (d', p')) :
    p.Effect d e d' p' := by
  unfold Service.next at h
  split at h
  case h_4 =>
    obtain ⟨rfl, rfl⟩ := Prod.mk.inj (Option.some.inj h)
    exact .polls
  case h_7 => exact Service.exec_effect h
  case h_8 =>
    cases p with
    | routing w m a b =>
        obtain ⟨rfl, rfl⟩ := Prod.mk.inj (Option.some.inj h)
        exact .routes id
    | noting w m a b =>
        obtain ⟨rfl, rfl⟩ := Prod.mk.inj (Option.some.inj h)
        exact .notes
    | _ => cases h
  all_goals first
    | cases h; done
    | obtain ⟨rfl, rfl⟩ := Prod.mk.inj (Option.some.inj h)
      exact .outside (fun _ => rfl) rfl rfl fun _ => trivial

/-! ## The law of the tables -/

/-- Jobs are those of matches without rows, and batches dealt with have decided matches. -/
structure Tables.Lawful (d : Tables) : Prop where
  keys : (d.mpcBatches.map Batch.batchId).Nodup
  direct : ∀ j ∈ d.jobs,
    d.isRfqRouted j.intentAId = false ∧ d.isRfqRouted j.intentBId = false
  ofBatch : ∀ j ∈ d.jobs, ∃ b ∈ d.mpcBatches, b.batchId = j.batchId ∧
    ∃ m, b.matchesJson[j.matchIndex]? = some m ∧
      j.intentAId = m.intentAId ∧ j.intentBId = m.intentBId
  decided : ∀ b ∈ d.mpcBatches, b.settlementStatus ≠ .pending → ∀ i m,
    b.matchesJson[i]? = some m → d.Decided b.batchId i m

/-- An intent that is routed stays so. -/
theorem isRfqRouted_insertIntent {i : Intent} {id : String} (h : d.isRfqRouted id) :
    Tables.isRfqRouted { d with rfq := d.rfq.insertIntent i } id := by
  obtain ⟨j, hj, hid⟩ := List.any_eq_true.1 h
  exact List.any_eq_true.2 ⟨j, Table.mem_insertNew.2 (.inl hj), hid⟩

/-- Inserting an intent routes no other one. -/
theorem isRfqRouted_insertIntent_of_ne {i : Intent} {id : String} (h : d.isRfqRouted id = false)
    (hne : id ≠ i.intentHash) :
    Tables.isRfqRouted { d with rfq := d.rfq.insertIntent i } id = false := by
  refine List.any_eq_false.2 fun j hj hid => ?_
  rcases Table.mem_insertNew.1 hj with hj | ⟨-, rfl⟩
  · exact List.any_eq_false.1 h j hj hid
  · exact hne (of_decide_eq_true hid).symm

theorem Tables.Knows.of_mem {b : Batch} (h : b ∈ d.mpcBatches) : d.Knows b := ⟨b, h, rfl, rfl⟩

/-- No step takes anything back. -/
theorem Service.Effect.grows {p p' : Service} {e : Event} (h : p.Effect d e d' p') :
    d.Grows d' := by
  cases h with
  | insertIntent => exact .of_eq (fun _ => isRfqRouted_insertIntent) rfl rfl
  | insertBatch =>
      refine ⟨fun _ h => h, fun _ h => h, ?_⟩
      rintro b ⟨c, hc, hcols⟩
      exact ⟨c, Table.mem_insertNew.2 (.inl hc), hcols⟩
  | insertJob => exact ⟨fun _ h => h, fun j hj => List.mem_append_left _ hj, fun _ h => h⟩
  | setStatus =>
      refine ⟨fun _ h => h, fun _ h => h, ?_⟩
      rintro b ⟨c, hc, hid, hmatches⟩
      refine ⟨_, Table.mem_update.2 ⟨c, hc, rfl⟩, ?_⟩
      split
      · exact ⟨hid, hmatches⟩
      · exact ⟨hid, hmatches⟩
  | outside hrouted hjobs hbatches =>
      exact .of_eq (fun id h => (hrouted id).trans h) hjobs hbatches
  | polls | routes | notes | finds | misses | logs => exact ⟨fun _ h => h, fun _ h => h, fun _ h => h⟩

/-- The settler keeps track of what is decided. -/
theorem Service.Sound.own {p p' : Service} {e : Event} (hp : p.Sound d)
    (h : p.Effect d e d' p') (hok : p.spares d e) : p'.Sound d' := by
  have hg := h.grows
  cases h with
  | insertIntent hp' => exact hp' _
  | outside _ _ _ hp' => exact hp' _
  | insertBatch => trivial
  | polls =>
      refine sound_nextBatch fun b hb => .of_mem ?_
      exact (List.mem_filter.1 (List.mem_of_mem_take hb)).1
  | setStatus => exact sound_nextBatch fun b hb => hg.batches b (hp.1.todo b hb)
  | @insertJob w job =>
      refine ⟨hp.1.mono hg, job, List.mem_append_right _ List.mem_cons_self, ?_⟩
      exact ⟨hp.2.batchId, hp.2.matchIndex⟩
  | @routes w m a b a' b' e hskip =>
      obtain ⟨hw, hm⟩ := hp
      have hskip := hskip hok
      unfold Work.route
      split
      · next a b =>
        split
        · next hab =>
          -- a skipped match belongs to the lifecycle
          refine hw.succ fun m' hm' => .inr ?_
          obtain rfl : m = m' := Option.some.inj (hm.symm.trans hm')
          rw [Tables.sparesSkip, hab, Bool.not_true, Bool.false_or, Bool.and_eq_true] at hskip
          exact hskip
        · exact ⟨hw, hm⟩
      · exact ⟨hw, hm⟩
  | @notes w m a b a' b' =>
      obtain ⟨hw, hm⟩ := hp
      unfold Work.note
      split
      · exact ⟨hw, rfl, rfl, m, hm, rfl, rfl⟩
      · exact ⟨hw, hm⟩
  | @finds w job hfound =>
      obtain ⟨hw, hjob⟩ := hp
      refine hw.succ fun m hm => .inl ?_
      obtain ⟨j, hj, hkey⟩ := List.any_eq_true.1 hfound
      obtain ⟨hid, hindex⟩ := Bool.and_eq_true_iff.1 hkey
      exact ⟨j, hj, (of_decide_eq_true hid).trans hjob.batchId,
        (of_decide_eq_true hindex).trans hjob.matchIndex⟩
  | misses => exact hp
  | logs => exact hp.1.succ fun m hm => .inl hp.2

/-- The law is kept by every step that does not go wrong. -/
theorem Tables.Lawful.step {p p' : Service} {e : Event} (hd : d.Lawful) (hp : p.Sound d)
    (h : p.Effect d e d' p') (hok : p.spares d e) : d'.Lawful := by
  have hg := h.grows
  cases h with
  | @insertIntent c p' =>
      refine ⟨hd.keys, fun j hj => ?_, hd.ofBatch,
        fun b hb hs i m hm => (hd.decided b hb hs i m hm).mono hg⟩
      obtain ⟨ha, hb⟩ := hd.direct j hj
      rcases Bool.or_eq_true_iff.1 hok with hconflict | hfree
      · have hsame : d.rfq.insertIntent c.intent = d.rfq := by
          rw [Db.insertIntent, Table.insertNew, if_pos hconflict]
        rw [hsame]
        exact ⟨ha, hb⟩
      · have hne := List.any_eq_false.1 (by simpa only [Bool.not_eq_true'] using hfree) j hj
        simp only [Bool.or_eq_true, decide_eq_true_eq, not_or] at hne
        exact ⟨isRfqRouted_insertIntent_of_ne ha hne.1, isRfqRouted_insertIntent_of_ne hb hne.2⟩
  | outside hrouted hjobs hbatches =>
      refine ⟨hbatches ▸ hd.keys, fun j hj => ?_, fun j hj => ?_, fun b hb hs i m hm => ?_⟩
      · rw [hrouted, hrouted]
        exact hd.direct j (hjobs ▸ hj)
      · rw [hbatches]
        exact hd.ofBatch j (hjobs ▸ hj)
      · exact (hd.decided b (hbatches ▸ hb) hs i m hm).mono hg
  | @insertBatch c updates =>
      refine ⟨Table.nodup_insertNew hd.keys fun hnone r hr hid => ?_, hd.direct, fun j hj => ?_,
        fun b hb hs i m hm => ?_⟩
      · exact List.any_eq_false.1 hnone r hr (decide_eq_true hid)
      · obtain ⟨b, hb, hcols⟩ := hd.ofBatch j hj
        exact ⟨b, Table.mem_insertNew.2 (.inl hb), hcols⟩
      · rcases Table.mem_insertNew.1 hb with hb | ⟨-, rfl⟩
        · exact (hd.decided b hb hs i m hm).mono hg
        · exact absurd rfl hs
  | polls | routes | notes | finds | misses | logs => exact hd
  | @setStatus w status =>
      refine ⟨?_, hd.direct, fun j hj => ?_, fun b' hb' hs i m hm => ?_⟩
      · unfold Tables.setSettlementStatus
        rw [Table.map_update fun b _ _ => ?_]
        · exact hd.keys
        · rfl
      · obtain ⟨b, hb, hid, hmatch⟩ := hd.ofBatch j hj
        refine ⟨_, Table.mem_update.2 ⟨b, hb, rfl⟩, ?_⟩
        split
        · exact ⟨hid, hmatch⟩
        · exact ⟨hid, hmatch⟩
      · obtain ⟨b, hb, rfl⟩ := Table.mem_update.1 hb'
        split at hs
        · next hid =>
          -- the batch of the settler, all of whose matches are decided
          rw [if_pos hid] at hm ⊢
          obtain ⟨⟨⟨c, hc, hcid, hcm⟩, -, hdecided⟩, hlen⟩ := hp
          have hid : b.batchId = w.batch.batchId := of_decide_eq_true hid
          obtain rfl := Table.eq_of_key hd.keys hb hc (hid.trans hcid.symm)
          have hm : w.batch.matchesJson[i]? = some m := hcm ▸ hm
          have hi : i < w.index := (List.getElem?_eq_some_iff.1 hm).1.trans_le hlen
          exact hid ▸ (hdecided i m hi hm).mono hg
        · next hid =>
          rw [if_neg hid] at hm ⊢
          exact (hd.decided b hb hs i m hm).mono hg
  | @insertJob w job hfree =>
      refine ⟨hd.keys, fun j hj => ?_, fun j hj => ?_,
        fun b hb hs i m hm => (hd.decided b hb hs i m hm).mono hg⟩
      · rcases List.mem_append.1 hj with hj | hj
        · exact hd.direct j hj
        · obtain rfl := List.mem_singleton.1 hj
          have hok : (d.jobs.any j.sameKey || !d.isRfqRouted j.intentAId &&
            !d.isRfqRouted j.intentBId) = true := hok
          rw [hfree, Bool.false_or, Bool.and_eq_true, Bool.not_eq_true', Bool.not_eq_true'] at hok
          exact hok
      · rcases List.mem_append.1 hj with hj | hj
        · exact hd.ofBatch j hj
        · obtain rfl := List.mem_singleton.1 hj
          obtain ⟨⟨⟨c, hc, hcid, hcm⟩, -, -⟩, hjid, hji, m, hm, ha, hb⟩ := hp
          exact ⟨c, hc, hcid.trans hjid.symm, m, by rw [hcm, hji, hm], ha, hb⟩

/-! ## Runs -/

/-- The outline of the services. -/
theorem pathsOutline : Interleave.Outline (Interleave.restrict Service.next Service.spares)
    Tables.Lawful Service.Sound (fun _ _ => True) where
  symm _ := trivial
  own hd hp hnext := by
    obtain ⟨hok, hnext⟩ := Interleave.restrict_eq_some.1 hnext
    exact ⟨hd.step hp (Service.next_effect hnext) hok, hp.own (Service.next_effect hnext) hok⟩
  other _ _ hq _ hnext :=
    ⟨hq.mono (Service.next_effect (Interleave.restrict_eq_some.1 hnext).2).grows, trivial⟩

section
variable {ι : Type} [DecidableEq ι]

/-- The tables are lawful after every run. -/
theorem lawful_of_run {s₀ s : Services ι} (h₀ : Unmatched s₀) {es : List (ι × Event)}
    (h : Interleave.run (Interleave.restrict Service.next Service.spares) s₀ es = some s) :
    s.shared.Lawful := by
  have hstart : Interleave.Holds Tables.Lawful Service.Sound (fun _ _ => True) s₀ := by
    refine ⟨⟨?_, fun j hj => ?_, fun j hj => ?_, fun b hb => ?_⟩, fun i => ?_, fun _ _ _ => trivial⟩
    · rw [h₀.mpcBatches]
      exact List.nodup_nil
    · rw [h₀.jobs] at hj
      exact (List.not_mem_nil hj).elim
    · rw [h₀.jobs] at hj
      exact (List.not_mem_nil hj).elim
    · rw [h₀.mpcBatches] at hb
      exact (List.not_mem_nil hb).elim
    · rw [h₀.loc i]
      trivial
  exact (pathsOutline.run hstart h).shared

/-- The tables grow along every run. -/
theorem grows_of_run {s s' : Services ι} {es : List (ι × Event)} (h : serveAll s es = some s') :
    s.shared.Grows s'.shared := by
  refine Interleave.run_induction (motive := fun _ t => s.shared.Grows t.shared) ?_ ?_ h
  · exact ⟨fun _ h => h, fun _ h => h, fun _ h => h⟩
  · rintro es t e t' - hg hstep
    obtain ⟨d, p, hnext, rfl⟩ := Interleave.step_eq_some hstep
    have hg' := (Service.next_effect hnext).grows
    exact ⟨fun id h => hg'.routed id (hg.routed id h), fun j hj => hg'.jobs j (hg.jobs j hj),
      fun b hb => hg'.batches b (hg.batches b hb)⟩

/-- An intent that is not routed is not found. -/
theorem selectIntent_eq_none {id : String} (h : d.isRfqRouted id = false) :
    d.lifecycle.selectIntent id = none :=
  List.find?_eq_none.2 fun i hi => List.any_eq_false.1 h i hi

/-- A match is open to exactly one path: it has a job, and no settle request of its intents passes
the gates in the later tables, or it has none, and both intents belong to the lifecycle. -/
def OnePath (deterministicId : String → List String → String) (d d' : Tables) (batchId : String)
    (i : ℕ) (m : Match) : Prop :=
  (d.Queued batchId i ∧ ∀ r : Settle, r.intentHash = m.intentAId ∨ r.intentHash = m.intentBId →
      ¬ r.Passes deterministicId d'.lifecycle) ∨
    (¬ d.Queued batchId i ∧ d.Routed m)

/-- **One path.** In every run without the steps that go wrong, every match of a batch that a settler
has dealt with is open to exactly one path, then and ever after. -/
theorem onePath_of_run (deterministicId : String → List String → String) {s₀ s s' : Services ι}
    (h₀ : Unmatched s₀) {es es' : List (ι × Event)}
    (h : Interleave.run (Interleave.restrict Service.next Service.spares) s₀ es = some s)
    (h' : Interleave.run (Interleave.restrict Service.next Service.spares) s es' = some s')
    {b : Batch} (hb : b ∈ s.shared.mpcBatches) (hstatus : b.settlementStatus ≠ .pending) {i : ℕ}
    {m : Match} (hm : b.matchesJson[i]? = some m) :
    OnePath deterministicId s.shared s'.shared b.batchId i m := by
  have hlaw := lawful_of_run h₀ h
  have hlaw' := lawful_of_run h₀ (Interleave.run_append.2 ⟨s, h, h'⟩)
  have hg := grows_of_run (Interleave.run_of_restrict h')
  by_cases hqueued : s.shared.Queued b.batchId i
  · refine .inl ⟨hqueued, fun r hr => not_passes ?_⟩
    obtain ⟨j, hj, hid, hindex⟩ := hqueued
    obtain ⟨c, hc, hcid, m', hm', ha, hb'⟩ := hlaw.ofBatch j hj
    obtain rfl := Table.eq_of_key hlaw.keys hc hb (hcid.trans hid)
    rw [hindex] at hm'
    obtain rfl : m' = m := Option.some.inj (hm'.symm.trans hm)
    obtain ⟨hra, hrb⟩ := hlaw'.direct j (hg.jobs j hj)
    rcases hr with hr | hr
    · rw [hr, ← ha]
      exact selectIntent_eq_none hra
    · rw [hr, ← hb']
      exact selectIntent_eq_none hrb
  · exact .inr ⟨hqueued, (hlaw.decided b hb hstatus i m hm).resolve_left hqueued⟩

end

/-! ## An id that is known before its intent -/

/-- Empty tables, and nobody at work. -/
def noMatches : Services ℕ where
  shared :=
    { rfq :=
        { intents := [], quotes := [], quoteAcceptances := [], fills := [], settlements := []
          world :=
            { ledger := 10, criticalRootMismatches := 0, proofStatus := fun _ => some "ready"
              nullifierSpent := fun _ => false, mpcMatched := fun _ => false } }
      mpcIntents := [], mpcBatches := [], jobs := [] }
  loc _ := .idle

theorem noMatches_unmatched : Unmatched noMatches := ⟨rfl, rfl, fun _ => rfl⟩

/-- An intent submitted to the committee. -/
def directIntent (intentId : String) : MpcIntent where
  intentId := intentId
  sessionId := "s"
  noteNullifier := "nullifier"
  noteCommitment := "note"
  recipientCommitment := "recipient"
  matched := false
  matchedWith := none

/-- A batch with one match. -/
def oneMatch (status : SettlementStatus) : Batch where
  batchId := "batch"
  sessionId := "s"
  batchHash := "hash"
  matchesJson := [⟨"i", "k", "5", "USDC", "XLM"⟩]
  signaturesJson := "[]"
  settlementStatus := status

/-- Two intents are submitted, matched and dealt with by the settler. -/
def directRun : List (ℕ × Event) :=
  [(0, .submit (directIntent "i")), (0, .exec), (0, .submit (directIntent "k")), (0, .exec),
    (1, .persist (oneMatch .pending)), (1, .exec), (1, .exec), (1, .exec), (1, .exec),
    (2, .poll), (2, .execSecond), (2, .exec), (2, .exec), (2, .execSecond), (2, .exec), (2, .exec),
    (2, .exec), (2, .exec)]

/-- A match of two direct intents has its job, and only that. -/
theorem onePath_of_run_directRun : ∃ s : Services ℕ, serveAll noMatches directRun = some s ∧
    s.shared.mpcBatches = [oneMatch .queued] ∧
      OnePath plainId s.shared s.shared "batch" 0 ⟨"i", "k", "5", "USDC", "XLM"⟩ := by
  have hbatches : ((Interleave.run (Interleave.restrict Service.next Service.spares) noMatches
      directRun).map fun s => s.shared.mpcBatches) = some [oneMatch .queued] := by decide
  obtain ⟨s, h, hs⟩ := Option.map_eq_some_iff.1 hbatches
  have hmem : oneMatch .queued ∈ s.shared.mpcBatches := by
    rw [hs]
    exact List.mem_cons_self
  have hstays : Interleave.run (Interleave.restrict Service.next Service.spares) s [] = some s := rfl
  exact ⟨s, Interleave.run_of_restrict h, hs,
    onePath_of_run plainId noMatches_unmatched h hstays hmem (by decide) rfl⟩

/-- The intent of user 1 that has the id of the first, its quote accepted and filled. -/
def lateIntent : List (ℕ × Event) :=
  [(0, .create ⟨⟨"i", "key", some 1, 100, none⟩, none⟩), (0, .exec),
    (0, .lifecycle [⟨"q", "i", "h", "solver", 50⟩] [⟨"a", "q", "i", "sig", 1⟩]
      [⟨"f", "q", "receipt", some "0x1", "5", "r", .executed⟩] [] noMatches.shared.rfq.world)]

/-- A match with a job whose intent passes the gates of a settlement. -/
theorem two_paths : ¬ ∀ s₀ s s' : Services ℕ, Unmatched s₀ → ∀ es es',
    serveAll s₀ es = some s → serveAll s es' = some s' → ∀ b ∈ s.shared.mpcBatches,
      b.settlementStatus ≠ .pending → ∀ i m, b.matchesJson[i]? = some m →
        OnePath plainId s.shared s'.shared b.batchId i m := by
  have hboth : ((serveAll noMatches directRun).map fun s =>
      (s.shared.mpcBatches, s.shared.jobs.map fun j => (j.batchId, j.matchIndex),
        (serveAll s lateIntent).map fun s' => Process.after plainId s'.shared.lifecycle 8
          (.auditing ⟨1, "i", "q", none, none, "proof", "nullifier"⟩))) =
      some ([oneMatch .queued], [("batch", 0)],
        some (.settling ⟨1, "i", "q", none, none, "proof", "nullifier"⟩)) := by decide
  intro hall
  obtain ⟨s, h, hs⟩ := Option.map_eq_some_iff.1 hboth
  obtain ⟨hbatches, hjobs, hlate⟩ : s.shared.mpcBatches = [oneMatch .queued] ∧ _ ∧ _ :=
    ⟨(Prod.mk.inj hs).1, Prod.mk.inj (Prod.mk.inj hs).2⟩
  obtain ⟨s', h', hpasses⟩ := Option.map_eq_some_iff.1 hlate
  have hmem : oneMatch .queued ∈ s.shared.mpcBatches := by
    rw [hbatches]
    exact List.mem_cons_self
  rcases hall noMatches s s' noMatches_unmatched _ _ h h' _ hmem (by decide) 0 _ rfl with
    ⟨-, hnone⟩ | ⟨hnone, -⟩
  · exact hnone ⟨1, "i", "q", none, none, "proof", "nullifier"⟩ (.inl rfl) ⟨8, hpasses⟩
  · have hjob : ("batch", 0) ∈ s.shared.jobs.map fun j => (j.batchId, j.matchIndex) := by
      rw [hjobs]
      exact List.mem_cons_self
    obtain ⟨j, hj, hkey⟩ := List.mem_map.1 hjob
    exact hnone ⟨j, hj, Prod.mk.inj hkey⟩

end ShadePay.Rfq
