import ShadePay.Mpc.Uniqueness
import ShadePay.Mpc.Readings

/-!
# An accepted intent is not lost

A round closes its session as a whole: with a batch that may leave intents of it unmatched, or with a
failure that one unreadable share of any of them is enough for. An intent in such a session is in no
session that will ever be matched, and a timer's round that throws takes all sessions with it.
`Complete` says, of a step and the state before it, when this happens to no honest intent that is
nowhere else; along complete runs every accepted honest intent is in a match of a signed batch, in the
open session, or in a session some round is working on (`never_lost`). `Delivered.step_iff` says that no
weaker condition on a step will do.
-/

namespace ShadePay.Mpc

/-! ## Where an intent can be -/

/-- The session holds this very submission. -/
def Session.holds (x : Session) (intent : MpcIntent) : Prop :=
  x.intents.get? intent.intentId = some intent

instance (x : Session) (intent : MpcIntent) : Decidable (x.holds intent) :=
  inferInstanceAs (Decidable (x.intents.get? intent.intentId = some intent))

/-- A batch was signed for a session that holds the intent, with a match of it. -/
def State.Settled (s : State) (intent : MpcIntent) : Prop :=
  ∃ b ∈ s.batches, (s.heap b.1).holds intent ∧ intent.intentId ∈ usedIds b.2.ms

/-- The session is open, or some round is working on it. -/
def State.Live (s : State) (r : Ref) : Prop :=
  (s.heap r).status = .open ∨ ∃ i < s.nextRound, (s.rounds i).map Round.session = some r

/-- The process runs, and a session that will still be matched holds the intent. -/
def State.Waiting (s : State) (intent : MpcIntent) : Prop :=
  s.exited = false ∧ ∃ r < s.next, (s.heap r).holds intent ∧ s.Live r

/-- The session holds the intent and is open, or its round has the matching before it, or has matched
the intent. -/
def State.Awaited (s : State) (r : Ref) (intent : MpcIntent) : Prop :=
  (s.heap r).holds intent ∧ ((s.heap r).status = .open ∨
    ∃ i < s.nextRound, ∃ ρ ∈ s.rounds i, ρ.session = r ∧
      ∀ ms ∈ ρ.proposal, intent.intentId ∈ usedIds ms)

/-- The session holds an honest intent that is settled by no batch and awaited in no other session. -/
def State.AtRisk (honest : MpcIntent → Prop) (s : State) (r : Ref) (intent : MpcIntent) : Prop :=
  honest intent ∧ (s.heap r).holds intent ∧ ¬ s.Settled intent ∧
    ∀ r' < s.next, r' ≠ r → ¬ s.Awaited r' intent

/-! ## The condition on a step -/

/-- A round that has heard from every node about its shares, with the answers. -/
def State.decryptAnswers (s : State) (i : ℕ) : Option (Round × List (Option DecryptReply)) := do
  let ρ ← s.rounds i
  match ρ.phase with
  | .decrypting _ answers => (answers.mapM id).map (ρ, ·)
  | .signing .. => none

/-- The answers of a round that has heard from every node about its signature. -/
def State.signAnswers (s : State) (i : ℕ) : Option (List (Option NodeSignature)) := do
  let ρ ← s.rounds i
  match ρ.phase with
  | .decrypting .. => none
  | .signing _ _ answers => answers.mapM id

/-- Enough nodes answer what a round asks them. -/
def Answered (E : Env) (s : State) : Step → Prop
  | .decrypted i _ => ∀ c ∈ s.decryptAnswers i, threshold E.nodes.length ≤ (c.2.filterMap id).length
  | .signed i => ∀ answers ∈ s.signAnswers i, threshold E.nodes.length ≤ (answers.filterMap id).length
  | _ => True

section
variable (E : Env) (honest : MpcIntent → Prop) (s : State)

/-- A round that finds `x` for the session at `r` keeps the intents at risk there; but when it throws to
the timer, then no acknowledged honest intent waits anywhere. -/
def State.Spares (r : Ref) (x : Session) (timer : Bool) : Prop :=
  if timer = true ∧ x.Throws E then ∀ intent ∈ s.acked, honest intent → s.Settled intent
  else ∀ intent ∈ s.taken, s.AtRisk honest r intent → x.Keeps E intent.intentId

/-- The condition on a step. A submission overwrites no other intent at risk in the open session. A
round that has heard from the nodes spares the honest intents; so does the in-process round once every
share is decrypted, and else the session has no intent at risk. -/
def Complete : Step → Prop
  | .post intent _ _ => intent.accepted E = true → ∀ r ∈ s.getOpenSessions,
      ∀ old ∈ s.taken, old.intentId = intent.intentId → old ≠ intent → ¬ s.AtRisk honest r old
  | .decrypted i _ => ∀ c ∈ s.decryptAnswers i,
      s.Spares E honest c.1.session (s.heard c.1 c.2) c.1.rest.isSome
  | .matchLocal sessionId _ timer => ∀ r ∈ s.sessions.get? sessionId, r ∈ s.getOpenSessions →
      2 ≤ (s.heap r).intents.size →
        if (s.heap r).Decrypts E E.nodes then
          s.Spares E honest r ((s.heap r).decryptLocal E E.nodes).2 timer
        else ∀ intent ∈ s.taken, ¬ s.AtRisk honest r intent
  | _ => True

end

section
variable (E : Env) (honest : MpcIntent → Prop) [DecidablePred honest] (s : State)

instance (intent : MpcIntent) : Decidable (s.Settled intent) :=
  inferInstanceAs (Decidable (∃ b ∈ s.batches, (s.heap b.1).holds intent ∧
    intent.intentId ∈ usedIds b.2.ms))

instance (r : Ref) (intent : MpcIntent) : Decidable (s.Awaited r intent) :=
  inferInstanceAs (Decidable ((s.heap r).holds intent ∧ ((s.heap r).status = .open ∨
    ∃ i < s.nextRound, ∃ ρ ∈ s.rounds i, ρ.session = r ∧
      ∀ ms ∈ ρ.proposal, intent.intentId ∈ usedIds ms)))

instance (r : Ref) (intent : MpcIntent) : Decidable (s.AtRisk honest r intent) :=
  inferInstanceAs (Decidable (honest intent ∧ (s.heap r).holds intent ∧ ¬ s.Settled intent ∧
    ∀ r' < s.next, r' ≠ r → ¬ s.Awaited r' intent))

instance (r : Ref) (x : Session) (timer : Bool) : Decidable (s.Spares E honest r x timer) :=
  inferInstanceAs (Decidable (if timer = true ∧ x.Throws E then
      ∀ intent ∈ s.acked, honest intent → s.Settled intent
    else ∀ intent ∈ s.taken, s.AtRisk honest r intent → x.Keeps E intent.intentId))

instance : ∀ t, Decidable (Answered E s t)
  | .decrypted i _ => inferInstanceAs (Decidable (∀ c ∈ s.decryptAnswers i,
      threshold E.nodes.length ≤ (c.2.filterMap id).length))
  | .signed i => inferInstanceAs (Decidable (∀ answers ∈ s.signAnswers i,
      threshold E.nodes.length ≤ (answers.filterMap id).length))
  | .post .. | .deliver .. | .ack _ | .requestMatch _ | .tick | .resume _ | .decrypt .. | .sign ..
  | .confirm .. | .matchLocal .. => isTrue trivial

instance : ∀ t, Decidable (Complete E honest s t)
  | .post intent _ _ => inferInstanceAs (Decidable (intent.accepted E = true →
      ∀ r ∈ s.getOpenSessions, ∀ old ∈ s.taken, old.intentId = intent.intentId → old ≠ intent →
        ¬ s.AtRisk honest r old))
  | .decrypted i _ => inferInstanceAs (Decidable (∀ c ∈ s.decryptAnswers i,
      s.Spares E honest c.1.session (s.heard c.1 c.2) c.1.rest.isSome))
  | .matchLocal sessionId _ timer => inferInstanceAs (Decidable (∀ r ∈ s.sessions.get? sessionId,
      r ∈ s.getOpenSessions → 2 ≤ (s.heap r).intents.size →
        if (s.heap r).Decrypts E E.nodes then
          s.Spares E honest r ((s.heap r).decryptLocal E E.nodes).2 timer
        else ∀ intent ∈ s.taken, ¬ s.AtRisk honest r intent))
  | .deliver .. | .ack _ | .requestMatch _ | .tick | .resume _ | .decrypt .. | .sign .. | .signed _
  | .confirm .. => isTrue trivial

end

section
variable {E : Env} {s s' : State} {honest : MpcIntent → Prop}

/-- The round that has its answers. -/
theorem State.mem_decryptAnswers {i : ℕ} {ρ : Round} {ids : List String}
    {answers : List (Option (Option DecryptReply))} {answers' : List (Option DecryptReply)}
    (hi : s.rounds i = some ρ) (hphase : ρ.phase = .decrypting ids answers)
    (hanswers : answers.mapM id = some answers') : (ρ, answers') ∈ s.decryptAnswers i := by
  simp only [State.decryptAnswers, hi, bind, Option.bind, hphase, hanswers]
  rfl

/-- The round that has its signatures. -/
theorem State.mem_signAnswers {i : ℕ} {ρ : Round} {batchId : String} {ms : List MatchResult}
    {answers : List (Option (Option NodeSignature))} {answers' : List (Option NodeSignature)}
    (hi : s.rounds i = some ρ) (hphase : ρ.phase = .signing batchId ms answers)
    (hanswers : answers.mapM id = some answers') : answers' ∈ s.signAnswers i := by
  simp only [State.signAnswers, hi, bind, Option.bind, hphase, hanswers]
  rfl

/-- Only the intents of a session matter. -/
theorem Session.holds_congr {x y : Session} (h : y.intents = x.intents) {intent : MpcIntent} :
    y.holds intent ↔ x.holds intent := by
  rw [Session.holds, Session.holds, h]

/-! ## Batches stay -/

/-- Signed sessions stay signed, with their intents. -/
theorem Effect.same_of_signed (hI : Inv s) {t : Step} (h : Effect E s t s') {r : Ref}
    (hr : (s.heap r).status = .signed) : (s.heap r).Same (s'.heap r) := by
  have hlt : r < s.next := hI.lt_next (by simp [hr])
  refine ⟨?_, h.intents hlt (by simp [hr])⟩
  have hopen {r' : Ref} (hr' : r' ∈ s.getOpenSessions) : r ≠ r' := by
    rintro rfl
    rw [(mem_getOpenSessions.1 hr').2] at hr
    cases hr
  have hround {i : ℕ} {ρ : Round} (hi : s.rounds i = some ρ) : r ≠ ρ.session :=
    (hI.session_ne hi (by simp [hr])).symm
  cases h with
  | quiet => rfl
  | posted _ hr' => simp [Function.update_of_ne (hopen hr')]
  | created => simp [Function.update_of_ne (Nat.ne_of_lt hlt)]
  | started hr' => simp [Function.update_of_ne (hopen hr')]
  | proposed hi => simp [Function.update_of_ne (hround hi)]
  | stopped hi => simp [Function.update_of_ne (hround hi)]
  | signed hi => simp [Function.update_of_ne (hround hi)]
  | confirmed _ hx =>
      simp only [Function.update_apply]
      split
      · next heq => rw [hx.status, heq]
      · rfl
  | localStopped _ hr' => simp [Function.update_of_ne (hopen hr')]
  | localSigned _ hr' => simp [Function.update_of_ne (hopen hr')]

/-- A step adds one batch at most, for a session that is signed with it. -/
theorem Effect.batches {t : Step} (h : Effect E s t s') : s'.batches = s.batches ∨
    ∃ r b, s'.batches = s.batches ++ [(r, b)] ∧ (s'.heap r).status = .signed := by
  cases h with
  | signed _ _ hx => exact .inr ⟨_, _, rfl, by simpa using hx⟩
  | localSigned _ _ _ _ _ _ hy => exact .inr ⟨_, _, rfl, by simpa using hy⟩
  | quiet | posted | created | started | proposed | stopped | confirmed | localStopped =>
      exact .inl rfl

/-- The session of every batch is signed. -/
def State.Batched (s : State) : Prop := ∀ b ∈ s.batches, (s.heap b.1).status = .signed

/-- A batch stays with its session. -/
theorem State.Batched.effect (hI : Inv s) (hB : s.Batched) {t : Step} (h : Effect E s t s') :
    s'.Batched := by
  have hold : ∀ b ∈ s.batches, (s'.heap b.1).status = .signed := fun b hb =>
    (h.same_of_signed hI (hB b hb)).status.trans (hB b hb)
  rcases h.batches with heq | ⟨r, b, heq, hr⟩
  · rw [State.Batched, heq]
    exact hold
  · rw [State.Batched, heq, List.forall_mem_append, List.forall_mem_singleton]
    exact ⟨hold, hr⟩

/-- What is settled stays settled. -/
theorem State.Settled.effect (hI : Inv s) (hB : s.Batched) {t : Step} (h : Effect E s t s')
    {intent : MpcIntent} (hset : s.Settled intent) : s'.Settled intent := by
  obtain ⟨b, hb, hholds, hid⟩ := hset
  have hmem : b ∈ s'.batches := by
    rcases h.batches with heq | ⟨r, c, heq, -⟩
    · rwa [heq]
    · rw [heq]
      exact List.mem_append_left _ hb
  exact ⟨b, hmem, (Session.holds_congr (h.same_of_signed hI (hB b hb)).intents).2 hholds, hid⟩

/-! ## The invariant -/

/-- Every accepted honest intent is settled or awaited, and when the process ends, every acknowledged
one is settled. -/
structure Delivered (honest : MpcIntent → Prop) (s : State) : Prop where
  batched : s.Batched
  running : s.exited = false → ∀ intent ∈ s.taken, honest intent →
    s.Settled intent ∨ ∃ r < s.next, s.Awaited r intent
  ended : s.exited = true → ∀ intent ∈ s.acked, honest intent → s.Settled intent

/-- A session that is awaited is live. -/
theorem State.Awaited.live {r : Ref} {intent : MpcIntent} (h : s.Awaited r intent) : s.Live r := by
  rcases h.2 with h | ⟨i, hi, ρ, hρ, hr, -⟩
  · exact .inl h
  · exact .inr ⟨i, hi, by rw [Option.mem_def.1 hρ, Option.map_some, hr]⟩

/-- An intent stays awaited in a session that keeps its status and intents, and its round. -/
theorem State.Awaited.mono {r : Ref} {intent : MpcIntent} (h : s.Awaited r intent)
    (hsame : (s.heap r).Same (s'.heap r))
    (hrounds : ∀ i < s.nextRound, ∀ ρ, s.rounds i = some ρ → ρ.session = r →
      i < s'.nextRound ∧ (s'.rounds i).map Round.shape = some ρ.shape) : s'.Awaited r intent := by
  refine ⟨(Session.holds_congr hsame.intents).2 h.1, ?_⟩
  rcases h.2 with h | ⟨i, hi, ρ, hρ, hr, hms⟩
  · exact .inl (hsame.status.trans h)
  · obtain ⟨hi', hshape⟩ := hrounds i hi ρ hρ hr
    obtain ⟨σ, hσ, heq⟩ := Option.map_eq_some_iff.1 hshape
    simp only [Round.shape, Prod.mk.injEq] at heq
    exact .inr ⟨i, hi', σ, hσ, heq.1.trans hr, heq.2.2 ▸ hms⟩

/-- **What a running step has to keep**: of the sessions other than one, what is awaited there; of that
one, the intents at risk. -/
theorem Delivered.transport (hI : Inv s) (hD : Delivered honest s) {t : Step} (h : Effect E s t s')
    (hrun : s.exited = false) (hrun' : s'.exited = false) (hnext : s.next ≤ s'.next) (r : Ref)
    (hother : ∀ r' < s.next, r' ≠ r → ∀ intent, s.Awaited r' intent → s'.Awaited r' intent)
    (hrisk : ∀ intent ∈ s.taken, s.AtRisk honest r intent → s.Awaited r intent →
      s'.Settled intent ∨ s'.Awaited r intent)
    (htaken : ∀ intent ∈ s'.taken, intent ∈ s.taken ∨ ∃ r < s'.next, s'.Awaited r intent) :
    Delivered honest s' := by
  refine ⟨hD.batched.effect hI h, fun _ intent hmem hh => ?_, fun hx => ?_⟩
  · rcases htaken intent hmem with hold | hnew
    · by_cases hset : s.Settled intent
      · exact .inl (hset.effect hI hD.batched h)
      · by_cases helse : ∃ r' < s.next, r' ≠ r ∧ s.Awaited r' intent
        · obtain ⟨r', hlt, hne, hr'⟩ := helse
          exact .inr ⟨r', Nat.lt_of_lt_of_le hlt hnext, hother r' hlt hne intent hr'⟩
        · push Not at helse
          obtain ⟨r', hlt, hr'⟩ := (hD.running hrun intent hold hh).resolve_left hset
          obtain rfl : r' = r := by_contra fun hne => helse r' hlt hne hr'
          refine (hrisk intent hold ⟨hh, hr'.1, hset, helse⟩ hr').imp_right fun hkept => ?_
          exact ⟨r', Nat.lt_of_lt_of_le hlt hnext, hkept⟩
    · exact .inr hnew
  · rw [hrun'] at hx
    cases hx

/-- A step that keeps whatever is awaited. -/
theorem Delivered.kept (hI : Inv s) (hD : Delivered honest s) {t : Step} (h : Effect E s t s')
    (hrun : s.exited = false) (hrun' : s'.exited = false) (hnext : s.next ≤ s'.next)
    (hkeep : ∀ r intent, s.Awaited r intent → s'.Awaited r intent)
    (htaken : ∀ intent ∈ s'.taken, intent ∈ s.taken ∨ ∃ r < s'.next, s'.Awaited r intent) :
    Delivered honest s' :=
  hD.transport hI h hrun hrun' hnext 0 (fun r' _ _ intent => hkeep r' intent)
    (fun intent _ _ hr => .inr (hkeep 0 intent hr)) htaken

/-- The process ends when no acknowledged honest intent waits. -/
theorem Delivered.crashed (hI : Inv s) (hD : Delivered honest s) {t : Step} (h : Effect E s t s')
    (hexit : s'.exited = true) (hacked : s'.acked = s.acked)
    (hset : ∀ intent ∈ s.acked, honest intent → s.Settled intent) : Delivered honest s' := by
  refine ⟨hD.batched.effect hI h, fun hx => ?_, fun _ intent hmem hh => ?_⟩
  · rw [hexit] at hx
    cases hx
  · rw [hacked] at hmem
    exact (hset intent hmem hh).effect hI hD.batched h

/-- What is taken up after a submission: what was, and the new intent where it is awaited. -/
theorem taken_of_pending {intent : MpcIntent} {p : List MpcIntent}
    (hp : p = s.pending ∨ p = s.pending ++ [intent]) (hw : ∃ r < s'.next, s'.Awaited r intent) :
    ∀ new ∈ p ++ s.acked, new ∈ s.taken ∨ ∃ r < s'.next, s'.Awaited r new := by
  intro new hmem
  rcases hp with rfl | rfl
  · exact .inl hmem
  · simp only [State.taken, List.mem_append, List.mem_singleton] at hmem ⊢
    rcases hmem with (hmem | rfl) | hmem
    · exact .inl (.inl hmem)
    · exact .inr hw
    · exact .inl (.inr hmem)

/-- Rounds that are left as they are. -/
theorem shape_of_eq {r : Ref} (hrounds : s'.rounds = s.rounds) (hnr : s'.nextRound = s.nextRound) :
    ∀ i < s.nextRound, ∀ ρ, s.rounds i = some ρ → ρ.session = r →
      i < s'.nextRound ∧ (s'.rounds i).map Round.shape = some ρ.shape := by
  intro i hlt ρ hi _
  rw [hrounds, hnr, hi]
  exact ⟨hlt, rfl⟩

/-- Rounds on other sessions than that of the round that changes. -/
theorem shape_of_ne {i : ℕ} {ρ : Round} (hi : s.rounds i = some ρ) {r : Ref} (hr : r ≠ ρ.session)
    {o : Option Round} (hrounds : s'.rounds = Function.update s.rounds i o)
    (hnr : s'.nextRound = s.nextRound) :
    ∀ j < s.nextRound, ∀ σ, s.rounds j = some σ → σ.session = r →
      j < s'.nextRound ∧ (s'.rounds j).map Round.shape = some σ.shape := by
  intro j hlt σ hj hσ
  have hne : j ≠ i := by
    rintro rfl
    rw [hi] at hj
    exact hr (Option.some.inj hj ▸ hσ.symm)
  rw [hrounds, hnr, Function.update_of_ne hne, hj]
  exact ⟨hlt, rfl⟩

/-- A round on a session is the only one, and an intent of a session that is not open is awaited from
it. -/
theorem State.Awaited.round (hI : Inv s) {i : ℕ} {ρ : Round} (hi : s.rounds i = some ρ)
    {intent : MpcIntent} (h : s.Awaited ρ.session intent) :
    ∀ ms ∈ ρ.proposal, intent.intentId ∈ usedIds ms := by
  rcases h.2 with hopen | ⟨j, -, σ, hσ, hr, hms⟩
  · rw [hI.matching i ρ hi] at hopen
    cases hopen
  · obtain rfl := hI.single j i σ ρ hσ hi hr
    rw [Option.mem_def, hi] at hσ
    exact Option.some.inj hσ ▸ hms

/-- The state in which a round changes keeps what is awaited in other sessions. -/
theorem State.Awaited.of_ne {i : ℕ} {ρ : Round} (hi : s.rounds i = some ρ) {r : Ref}
    (hr : r ≠ ρ.session) {intent : MpcIntent} (h : s.Awaited r intent) {x : Session}
    {o : Option Round} (hheap : s'.heap = Function.update s.heap ρ.session x)
    (hrounds : s'.rounds = Function.update s.rounds i o) (hnr : s'.nextRound = s.nextRound) :
    s'.Awaited r intent := by
  refine h.mono ?_ (shape_of_ne hi hr hrounds hnr)
  rw [hheap, Function.update_of_ne hr]
  exact ⟨rfl, rfl⟩

/-! ## Complete steps -/

/-- A round that keeps an intent does not stop. -/
theorem Session.Keeps.ne_error {x : Session} {intentId : String} (h : x.Keeps E intentId) {e : Stop} :
    x.reconstruct E x.intents.entries ≠ .error e := by
  rw [Session.reconstruct_of_readable h.1]
  exact fun h => nomatch h

/-- A submission to the open session: the other intents it holds are not overwritten. -/
theorem Delivered.posted (hI : Inv s) (hD : Delivered honest s) {intent : MpcIntent}
    {now startedAt : ℕ} {r : Ref} {x : Session} {m : OrderedMap String String}
    {f : List (String × String × EncryptedShare)} {p : List MpcIntent} (hr : r ∈ s.getOpenSessions)
    (hx : x.status = .open) (hi : x.intents = (s.heap r).intents.set intent.intentId intent)
    (hp : p = s.pending ∨ p = s.pending ++ [intent])
    (hold : ∀ old ∈ s.taken, old.intentId = intent.intentId → old ≠ intent →
      ¬ s.AtRisk honest r old) (hrun : s.exited = false)
    (h : Effect E s (.post intent now startedAt) { s with
      heap := Function.update s.heap r x, intentToSession := m, forwards := f, pending := p }) :
    Delivered honest { s with
      heap := Function.update s.heap r x, intentToSession := m, forwards := f, pending := p } := by
  have hopen := (mem_getOpenSessions.1 hr).2
  have hlt : r < s.next := hI.lt_next (by rw [hopen]; decide)
  refine hD.transport hI h hrun hrun le_rfl r ?_ ?_ ?_
  · intro r' _ hne old hr'
    exact hr'.mono (by simp only [Function.update_of_ne hne]; exact ⟨rfl, rfl⟩)
      (shape_of_eq rfl rfl)
  · intro old hmem hrisk _
    refine .inr ⟨?_, .inl (by simpa only [Function.update_self] using hx)⟩
    simp only [Function.update_self, Session.holds, hi, OrderedMap.get?_set]
    split
    · next hid =>
      by_contra hne
      exact hold old hmem hid (fun heq => hne (by rw [heq])) hrisk
    · exact hrisk.2.1
  · refine taken_of_pending hp ⟨r, hlt, ?_, .inl ?_⟩
    · simp [Session.holds, hi]
    · simpa only [Function.update_self] using hx

/-- A submission that opens a session. -/
theorem Delivered.created (hI : Inv s) (hD : Delivered honest s) {intent : MpcIntent}
    {now startedAt : ℕ} {id : String} {x : Session} {m : OrderedMap String String}
    {f : List (String × String × EncryptedShare)} {p : List MpcIntent} (hx : x.status = .open)
    (hi : x.intents = OrderedMap.empty.set intent.intentId intent)
    (hp : p = s.pending ∨ p = s.pending ++ [intent]) (hrun : s.exited = false)
    (h : Effect E s (.post intent now startedAt) { s with
      heap := Function.update s.heap s.next x
      next := s.next + 1
      sessions := s.sessions.set id s.next
      intentToSession := m, forwards := f, pending := p }) :
    Delivered honest { s with
      heap := Function.update s.heap s.next x
      next := s.next + 1
      sessions := s.sessions.set id s.next
      intentToSession := m, forwards := f, pending := p } := by
  refine hD.kept hI h hrun hrun (Nat.le_succ _) ?_ ?_
  · intro r old hr
    have hne : r ≠ s.next := by
      rintro rfl
      have hholds := hr.1
      rw [hI.blank s.next le_rfl] at hholds
      exact nomatch hholds
    exact hr.mono (by simp only [Function.update_of_ne hne]; exact ⟨rfl, rfl⟩)
      (shape_of_eq rfl rfl)
  · refine taken_of_pending hp ⟨s.next, Nat.lt_succ_self _, ?_, .inl ?_⟩
    · simp [Session.holds, hi]
    · simpa only [Function.update_self] using hx

/-- A round that starts holds the intents of its session. -/
theorem Delivered.started (hI : Inv s) (hD : Delivered honest s) {t : Step} {r : Ref} {x : Session}
    {ρ : Round} {ts : List (List Ref)} (hi : x.intents = (s.heap r).intents) (hρ : ρ.session = r) (hprop : ρ.proposal = none)
    (hrun : s.exited = false)
    (h : Effect E s t { s with
      heap := Function.update s.heap r x
      rounds := Function.update s.rounds s.nextRound (some ρ)
      nextRound := s.nextRound + 1
      timers := ts }) :
    Delivered honest { s with
      heap := Function.update s.heap r x
      rounds := Function.update s.rounds s.nextRound (some ρ)
      nextRound := s.nextRound + 1
      timers := ts } := by
  refine hD.transport hI h hrun hrun le_rfl r ?_ ?_ fun _ hmem => .inl hmem
  · intro r' _ hne old hr'
    refine hr'.mono (by simp only [Function.update_of_ne hne]; exact ⟨rfl, rfl⟩) ?_
    intro i hlt σ hσ _
    refine ⟨Nat.lt_succ_of_lt hlt, ?_⟩
    simp only [Function.update_of_ne (Nat.ne_of_lt hlt), hσ, Option.map_some]
  · intro old _ hrisk _
    refine .inr ⟨?_, .inr ⟨s.nextRound, Nat.lt_succ_self _, ρ, ?_, hρ, ?_⟩⟩
    · simpa only [Function.update_self, Session.holds, hi] using hrisk.2.1
    · simp
    · rw [hprop]
      exact fun ms hms => by cases hms

/-- A round that proposes matches uses the intents that are at risk. -/
theorem Delivered.proposed (hI : Inv s) (hD : Delivered honest s) {t : Step} {i : ℕ} {ρ ρ' : Round}
    {y : Session} {ms : List MatchResult} (hi : s.rounds i = some ρ)
    (hy : y.intents = (s.heap ρ.session).intents) (hsession : ρ'.session = ρ.session)
    (hprop : ρ'.proposal = some ms)
    (hkeep : ∀ intent ∈ s.taken, s.AtRisk honest ρ.session intent → intent.intentId ∈ usedIds ms)
    (hrun : s.exited = false)
    (h : Effect E s t { s with
      heap := Function.update s.heap ρ.session y
      rounds := Function.update s.rounds i (some ρ') }) :
    Delivered honest { s with
      heap := Function.update s.heap ρ.session y
      rounds := Function.update s.rounds i (some ρ') } := by
  have hlt : i < s.nextRound := by
    by_contra hge
    rw [hI.fresh i (not_lt.1 hge)] at hi
    cases hi
  refine hD.transport hI h hrun hrun le_rfl ρ.session ?_ ?_ fun _ hmem => .inl hmem
  · exact fun r' _ hne old hr' => hr'.of_ne hi hne rfl rfl rfl
  · intro old hmem hrisk _
    refine .inr ⟨?_, .inr ⟨i, hlt, ρ', by simp, hsession, ?_⟩⟩
    · simpa only [Function.update_self, Session.holds, hy] using hrisk.2.1
    · rw [hprop]
      exact fun ms' hms => Option.some.inj hms ▸ hkeep old hmem hrisk

/-- A round ends on a session with no intent at risk, and the process goes on. -/
theorem Delivered.stopped (hI : Inv s) (hD : Delivered honest s) {t : Step} {i : ℕ} {ρ : Round}
    {x : Session} {ts : List (List Ref)} (hi : s.rounds i = some ρ)
    (hnone : ∀ intent ∈ s.taken, ¬ s.AtRisk honest ρ.session intent) (hrun : s.exited = false)
    (h : Effect E s t { s with
      heap := Function.update s.heap ρ.session x
      rounds := Function.update s.rounds i none
      timers := ts }) :
    Delivered honest { s with
      heap := Function.update s.heap ρ.session x
      rounds := Function.update s.rounds i none
      timers := ts } := by
  refine hD.transport hI h hrun hrun le_rfl ρ.session ?_ ?_ fun _ hmem => .inl hmem
  · exact fun r' _ hne old hr' => hr'.of_ne hi hne rfl rfl rfl
  · exact fun old hmem hrisk _ => absurd hrisk (hnone old hmem)

/-- A round ends with a batch. -/
theorem Delivered.signed (hI : Inv s) (hD : Delivered honest s) {t : Step} {i : ℕ} {ρ : Round}
    {ms : List MatchResult} {x : Session} {b : SignedMatchBatch} {ts : List (List Ref)}
    (hi : s.rounds i = some ρ) (hprop : ρ.proposal = some ms)
    (hin : x.intents = (s.heap ρ.session).intents) (hb : b.ms = ms) (hrun : s.exited = false)
    (h : Effect E s t { s with
      heap := Function.update s.heap ρ.session x
      rounds := Function.update s.rounds i none
      timers := ts
      batches := s.batches ++ [(ρ.session, b)] }) :
    Delivered honest { s with
      heap := Function.update s.heap ρ.session x
      rounds := Function.update s.rounds i none
      timers := ts
      batches := s.batches ++ [(ρ.session, b)] } := by
  refine hD.transport hI h hrun hrun le_rfl ρ.session ?_ ?_ fun _ hmem => .inl hmem
  · exact fun r' _ hne old hr' => hr'.of_ne hi hne rfl rfl rfl
  · intro old _ hrisk hawaited
    left
    refine ⟨(ρ.session, b), List.mem_append_right _ (List.mem_singleton_self _), ?_, ?_⟩
    · simpa only [Function.update_self, Session.holds, hin] using hrisk.2.1
    · rw [hb]
      exact hawaited.round hI hi ms hprop

/-- The open session is closed: with no intent at risk, or with a batch of those. -/
theorem Delivered.closed (hI : Inv s) (hD : Delivered honest s) {t : Step} {r : Ref} {x : Session}
    {bs : List (Ref × SignedMatchBatch)} (hin : x.intents = (s.heap r).intents)
    (hrisk : ∀ intent ∈ s.taken, s.AtRisk honest r intent →
      ∃ b, (r, b) ∈ bs ∧ intent.intentId ∈ usedIds b.ms) (hrun : s.exited = false)
    (h : Effect E s t { s with heap := Function.update s.heap r x, batches := bs }) :
    Delivered honest { s with heap := Function.update s.heap r x, batches := bs } := by
  refine hD.transport hI h hrun hrun le_rfl r ?_ ?_ fun _ hmem => .inl hmem
  · intro r' _ hne old hr'
    exact hr'.mono (by simp only [Function.update_of_ne hne]; exact ⟨rfl, rfl⟩)
      (shape_of_eq rfl rfl)
  · intro old hmem hr _
    obtain ⟨b, hb, hid⟩ := hrisk old hmem hr
    refine .inl ⟨(r, b), hb, ?_, hid⟩
    simpa only [Function.update_self, Session.holds, hin] using hr.2.1

/-- **A round that stops** has ended the process with no acknowledged honest intent waiting, or had no
intent at risk. -/
theorem State.Spares.stop {r : Ref} {x : Session} {timer : Bool} (h : s.Spares E honest r x timer)
    {e : Stop} (he : x.reconstruct E x.intents.entries = .error e) :
    if decide (e = .threw) && timer then ∀ intent ∈ s.acked, honest intent → s.Settled intent
    else ∀ intent ∈ s.taken, ¬ s.AtRisk honest r intent := by
  have hthrows : x.Throws E ↔ e = .threw := by
    rw [Session.Throws, Session.unreadable, ← Session.reconstruct_threw, he]
    simp
  have hb : (decide (e = .threw) && timer) = true ↔ timer = true ∧ x.Throws E := by
    rw [hthrows, Bool.and_eq_true, decide_eq_true_iff, and_comm]
  unfold State.Spares at h
  split at h
  · next hcrash => rwa [if_pos (hb.2 hcrash)]
  · next hstop =>
    rw [if_neg fun hcrash => hstop (hb.1 hcrash)]
    exact fun intent hmem hrisk => (h intent hmem hrisk).ne_error he

/-- A round that has its amounts matches the intents at risk. -/
theorem State.Spares.matched {r : Ref} {x : Session} {timer : Bool} (h : s.Spares E honest r x timer)
    {rs : List Reconstructed} (hrs : x.reconstruct E x.intents.entries = .ok rs) :
    ∀ intent ∈ s.taken, s.AtRisk honest r intent → intent.intentId ∈ usedIds (matchIntents rs) := by
  have hthrows : ¬ x.Throws E := by
    rw [Session.Throws, Session.unreadable, ← Session.reconstruct_threw, hrs]
    exact fun h => nomatch h
  unfold State.Spares at h
  rw [if_neg fun hcrash => hthrows hcrash.2] at h
  exact fun intent hmem hrisk => (Session.keeps_iff hrs).1 (h intent hmem hrisk)

/-- A complete step on which a round stops. -/
theorem Complete.stops {t : Step} {i : ℕ} {ρ : Round} {b : Bool} (hans : Answered E s t)
    (hok : Complete E honest s t) (hi : s.rounds i = some ρ) (hwhy : ρ.Stops E s i t b) :
    if b then ∀ intent ∈ s.acked, honest intent → s.Settled intent
    else ∀ intent ∈ s.taken, ¬ s.AtRisk honest ρ.session intent := by
  cases hwhy with
  | fewDecrypted hphase hanswers hfew =>
      exact absurd hfew (Nat.not_lt.2 (hans _ (State.mem_decryptAnswers hi hphase hanswers)))
  | unreadable hphase hanswers he =>
      exact State.Spares.stop (hok _ (State.mem_decryptAnswers hi hphase hanswers)) he
  | fewSigned hphase hanswers hfew =>
      exact absurd hfew (Nat.not_lt.2 (hans _ (State.mem_signAnswers hi hphase hanswers)))

/-- A complete step on which the in-process round stops. -/
theorem Complete.stopsLocal {sessionId batchId : String} {timer b : Bool} {r : Ref}
    (hok : Complete E honest s (.matchLocal sessionId batchId timer))
    (hget : s.sessions.get? sessionId = some r) (hr : r ∈ s.getOpenSessions)
    (hsize : 2 ≤ (s.heap r).intents.size) (hwhy : (s.heap r).StopsLocal E timer b) :
    if b then ∀ intent ∈ s.acked, honest intent → s.Settled intent
    else ∀ intent ∈ s.taken, ¬ s.AtRisk honest r intent := by
  have hlocal := hok _ hget hr hsize
  cases hwhy with
  | undecrypted hfail =>
      have hnot : ¬ (s.heap r).Decrypts E E.nodes := by
        rw [← Session.decryptLocal_iff, hfail]
        exact Bool.false_ne_true
      rwa [if_neg hnot] at hlocal
  | unreadable hdecrypt he =>
      rw [if_pos (Session.decryptLocal_iff.1 hdecrypt)] at hlocal
      exact hlocal.stop he

/-- **One complete step** loses no honest intent. -/
theorem Delivered.effect (hI : Inv s) (hD : Delivered honest s) {t : Step} (hrun : s.exited = false)
    (hans : Answered E s t) (hok : Complete E honest s t) (h : Effect E s t s') :
    Delivered honest s' := by
  have hsame := h
  cases h with
  | quiet hρ _ htaken =>
      refine hD.kept hI hsame hrun hrun le_rfl ?_ fun intent hmem => .inl (htaken intent hmem)
      refine fun r intent hr => hr.mono ⟨rfl, rfl⟩ fun i hlt ρ hi _ => ⟨hlt, ?_⟩
      exact (hρ i).trans (by rw [hi, Option.map_some])
  | posted hacc hr hx hi hp => exact hD.posted hI hr hx hi hp (hok hacc _ hr) hrun hsame
  | created _ _ hx hi hp => exact hD.created hI hx hi hp hrun hsame
  | started _ _ hi hρ _ hprop _ => exact hD.started hI hi hρ hprop hrun hsame
  | proposed hi hphase hanswers hrs hy hsession _ hprop =>
      have hspares := hok _ (State.mem_decryptAnswers hi hphase hanswers)
      exact hD.proposed hI hi hy.intents hsession hprop (hspares.matched hrs) hrun hsame
  | @stopped _ b _ _ _ _ hi hwhy _ _ _ =>
      have hstop := hok.stops hans hi hwhy
      cases b with
      | true => exact hD.crashed hI hsame rfl rfl hstop
      | false => exact hD.stopped hI hi hstop hrun hsame
  | signed hi hprop _ hin hb _ => exact hD.signed hI hi hprop hin hb hrun hsame
  | confirmed hr hx =>
      refine hD.kept hI hsame hrun hrun le_rfl ?_ fun _ hmem => .inl hmem
      intro r intent hr
      refine hr.mono ?_ (shape_of_eq rfl rfl)
      dsimp only
      rw [Function.update_apply]
      split
      · next heq => exact heq ▸ hx
      · exact ⟨rfl, rfl⟩
  | @localStopped _ _ _ b _ _ hget hr hsize hwhy _ hin =>
      have hstop := hok.stopsLocal hget hr hsize hwhy
      cases b with
      | true => exact hD.crashed hI hsame rfl rfl hstop
      | false =>
          exact hD.closed hI hin (fun intent hmem hrisk => absurd hrisk (hstop intent hmem)) hrun hsame
  | localSigned hget hr hsize hdecrypt hx hrs _ hin hb =>
      subst hx
      have hlocal := hok _ hget hr hsize
      rw [if_pos (Session.decryptLocal_iff.1 hdecrypt)] at hlocal
      refine hD.closed hI hin (fun intent hmem hrisk => ?_) hrun hsame
      refine ⟨_, List.mem_append_right _ (List.mem_singleton_self _), ?_⟩
      rw [hb]
      exact hlocal.matched hrs intent hmem hrisk

/-- **Step lemma.** A step that is answered and complete loses no intent. -/
theorem Delivered.step (hI : Inv s) (hD : Delivered honest s) {t : Step}
    (hok : s.exited = false → Answered E s t ∧ Complete E honest s t) :
    Delivered honest (t.run E s) := by
  cases hx : s.exited with
  | true =>
      rw [Step.run_of_exited hx]
      exact hD
  | false => exact hD.effect hI hx (hok hx).1 (hok hx).2 (Step.effect hI t)

/-! ## No weaker condition will do -/

/-- The rounds that have their answers. -/
theorem State.mem_decryptAnswers_iff {i : ℕ} {ρ : Round} {answers' : List (Option DecryptReply)} :
    (ρ, answers') ∈ s.decryptAnswers i ↔ ∃ ids answers, s.rounds i = some ρ ∧
      ρ.phase = .decrypting ids answers ∧ answers.mapM id = some answers' := by
  constructor
  · intro h
    obtain ⟨σ, hi, h⟩ := Option.bind_eq_some_iff.1 h
    split at h
    · next ids answers hphase =>
      obtain ⟨_, hanswers, heq⟩ := Option.map_eq_some_iff.1 h
      cases heq
      exact ⟨ids, answers, hi, hphase, hanswers⟩
    · cases h
  · rintro ⟨ids, answers, hi, hphase, hanswers⟩
    exact State.mem_decryptAnswers hi hphase hanswers

/-- What is settled after a change of one session, without a match of the intent, was settled before. -/
theorem State.Settled.of_update {r : Ref} {x : Session} {intent : MpcIntent}
    (h : s'.Settled intent) (hB : s.Batched) (hheap : s'.heap = Function.update s.heap r x)
    (hr : (s.heap r).status ≠ .signed)
    (hbatches : ∀ b ∈ s'.batches, b ∈ s.batches ∨ intent.intentId ∉ usedIds b.2.ms) :
    s.Settled intent := by
  obtain ⟨b, hb, hholds, hid⟩ := h
  have hold := (hbatches b hb).resolve_right fun hnot => hnot hid
  have hne : b.1 ≠ r := by
    rintro rfl
    exact hr (hB b hold)
  rw [hheap, Function.update_of_ne hne] at hholds
  exact ⟨b, hold, hholds, hid⟩

/-- **A step that drops an intent** from the session it was at risk in has lost it. -/
theorem Delivered.not_atRisk (hD : Delivered honest s') {r : Ref} {x : Session} {intent : MpcIntent}
    (hB : s.Batched) (hheap : s'.heap = Function.update s.heap r x)
    (hr : (s.heap r).status ≠ .signed)
    (hbatches : ∀ b ∈ s'.batches, b ∈ s.batches ∨ intent.intentId ∉ usedIds b.2.ms)
    (hrun : s'.exited = false) (hnext : s'.next = s.next)
    (hrounds : ∀ i < s'.nextRound, ∀ ρ, s'.rounds i = some ρ → ρ.session ≠ r →
      i < s.nextRound ∧ s.rounds i = some ρ)
    (htaken : intent ∈ s'.taken) (hlost : ¬ s'.Awaited r intent) : ¬ s.AtRisk honest r intent := by
  rintro ⟨hh, -, hset, helse⟩
  rcases hD.running hrun intent htaken hh with h | ⟨r', hlt, h⟩
  · exact hset (h.of_update hB hheap hr hbatches)
  · by_cases hne : r' = r
    · exact hlost (hne ▸ h)
    · refine helse r' (hnext ▸ hlt) hne (h.mono ?_ fun i hi ρ hρ hsession => ?_)
      · rw [hheap, Function.update_of_ne hne]
        exact ⟨rfl, rfl⟩
      · obtain ⟨hi', hρ'⟩ := hrounds i hi ρ hρ (hsession ▸ hne)
        exact ⟨hi', by rw [hρ', Option.map_some]⟩

/-- A submission to the open session. -/
theorem State.post_eq (hI : Inv s) {intent : MpcIntent} {now startedAt : ℕ}
    (hacc : intent.accepted E = true) {r : Ref} (hr : r ∈ s.getOpenSessions) :
    ∃ x m f p, x.intents = (s.heap r).intents.set intent.intentId intent ∧
      (p = s.pending ∨ p = s.pending ++ [intent]) ∧
      s.post E intent now startedAt = { s with
        heap := Function.update s.heap r x, intentToSession := m, forwards := f, pending := p } := by
  rw [State.post, if_pos hacc]
  rcases s.addIntent_eq with ⟨r', rs, hrs, x, m, -, hi, heq⟩ | ⟨hnone, -⟩
  · obtain rfl : r' = r := hI.open_of_mem hr (mem_getOpenSessions.1 (by simp [hrs])).2
    dsimp only
    split
    · exact ⟨x, m, _, _, hi, .inr rfl, by rw [heq]⟩
    · exact ⟨x, m, _, _, hi, .inl rfl, by rw [heq]⟩
  · rw [hnone] at hr
    exact absurd hr List.not_mem_nil

/-- A submission after which nothing is lost overwrote nothing. -/
theorem Complete.of_post (hI : Inv s) (hB : s.Batched) (hrun : s.exited = false) {intent : MpcIntent}
    {now startedAt : ℕ} (hD : Delivered honest (s.post E intent now startedAt)) :
    Complete E honest s (.post intent now startedAt) := by
  intro hacc r hr old hmem hid hne
  obtain ⟨x, m, f, p, hi, hp, heq⟩ := @State.post_eq E s hI intent now startedAt hacc r hr
  rw [heq] at hD
  refine hD.not_atRisk hB rfl (by simp [(mem_getOpenSessions.1 hr).2]) (fun _ => .inl) hrun rfl
    (fun _ hlt _ hρ _ => ⟨hlt, hρ⟩) ?_ ?_
  · simp only [State.taken, List.mem_append] at hmem ⊢
    rcases hp with rfl | rfl
    · exact hmem
    · exact hmem.imp_left (List.mem_append_left _)
  · rintro ⟨hholds, -⟩
    simp only [Function.update_self, Session.holds, hi, OrderedMap.get?_set, hid, if_true] at hholds
    exact hne (Option.some.inj hholds).symm

/-- The rounds on other sessions are as before. -/
theorem rounds_of_update {i : ℕ} {r : Ref} {o : Option Round}
    (ho : ∀ τ, o = some τ → τ.session = r) : ∀ j < s.nextRound, ∀ σ,
      Function.update s.rounds i o j = some σ → σ.session ≠ r →
        j < s.nextRound ∧ s.rounds j = some σ := by
  intro j hlt σ hσ hne
  rw [Function.update_apply] at hσ
  split at hσ
  · exact absurd (ho σ hσ) hne
  · exact ⟨hlt, hσ⟩

/-- A round that has ended awaits nothing. -/
theorem State.Awaited.not_of_ended (hI : Inv s) {i : ℕ} {ρ : Round} (hi : s.rounds i = some ρ)
    {intent : MpcIntent} (hopen : (s'.heap ρ.session).status ≠ .open)
    (hrounds : s'.rounds = Function.update s.rounds i none) : ¬ s'.Awaited ρ.session intent := by
  rintro ⟨-, h | ⟨j, -, σ, hσ, hsession, -⟩⟩
  · exact hopen h
  · rw [hrounds, Option.mem_def, Function.update_apply] at hσ
    split at hσ
    · cases hσ
    · next hne => exact hne (hI.single j i σ ρ hσ hi hsession)

/-- A round that has matched awaits what it has matched. -/
theorem State.Awaited.not_of_proposed (hI : Inv s) {i : ℕ} {ρ ρ' : Round}
    (hi : s.rounds i = some ρ) {intent : MpcIntent} {ms : List MatchResult}
    (hopen : (s'.heap ρ.session).status ≠ .open)
    (hrounds : s'.rounds = Function.update s.rounds i (some ρ')) (hprop : ρ'.proposal = some ms)
    (hid : intent.intentId ∉ usedIds ms) : ¬ s'.Awaited ρ.session intent := by
  rintro ⟨-, h | ⟨j, -, σ, hσ, hsession, hms⟩⟩
  · exact hopen h
  · rw [hrounds, Option.mem_def, Function.update_apply] at hσ
    split at hσ
    · obtain rfl := Option.some.inj hσ
      exact hid (hms ms hprop)
    · next hne => exact hne (hI.single j i σ ρ hσ hi hsession)

/-- A round whose exception takes nothing else with it was not the timer's. -/
theorem State.Spares.of_delivered {r : Ref} {x : Session} {timer : Bool}
    (hcrash : timer = true → x.reconstruct E x.intents.entries = .error .threw →
      ∀ intent ∈ s.acked, honest intent → s.Settled intent)
    (hgo : (timer = true → x.reconstruct E x.intents.entries ≠ .error .threw) →
      ∀ intent ∈ s.taken, ¬ x.Keeps E intent.intentId → ¬ s.AtRisk honest r intent) :
    s.Spares E honest r x timer := by
  unfold State.Spares
  split
  · next h => exact hcrash h.1 (Session.reconstruct_threw.2 h.2)
  · next h =>
    intro intent hmem hrisk
    by_contra hnot
    exact hgo (fun htimer hthrew => h ⟨htimer, Session.reconstruct_threw.1 hthrew⟩) intent hmem hnot
      hrisk

/-- Answers after which nothing is lost were enough for the intents at risk. -/
theorem Complete.of_decrypted (hI : Inv s) (hB : s.Batched) (hrun : s.exited = false) {i : ℕ}
    {batchId : String} (hans : Answered E s (.decrypted i batchId))
    (hD : Delivered honest (Step.act E s (.decrypted i batchId))) :
    Complete E honest s (.decrypted i batchId) := by
  rintro ⟨ρ, answers'⟩ hc
  have henough := hans _ hc
  obtain ⟨ids, answers, hi, hphase, hanswers⟩ := State.mem_decryptAnswers_iff.1 hc
  have hmatching := hI.matching i ρ hi
  have hsigned : (s.heap ρ.session).status ≠ .signed := by simp [hmatching]
  have hact : Step.act E s (.decrypted i batchId) = s.afterDecrypt E i ρ answers' batchId := by
    obtain ⟨r, phase, rest⟩ := ρ
    cases hphase
    simp only [Step.act, hi, hanswers]
  have hheard : (answers'.filterMap id).foldl (fun x reply => x.applyReply reply)
      (s.heap ρ.session) = s.heard ρ answers' := rfl
  have hsame : (s.heap ρ.session).Same (s.heard ρ answers') := Session.applyReplies_same _ _
  have hopen : (s.heard ρ answers').status ≠ .open := by simp [hsame.status, hmatching]
  rw [hact] at hD
  unfold State.afterDecrypt at hD
  dsimp only at hD
  rw [if_neg (Nat.not_lt.2 henough), hheard] at hD
  cases hrec : (s.heard ρ answers').reconstruct E (s.heard ρ answers').intents.entries with
  | error stop =>
      rw [hrec] at hD
      cases stop with
      | failed =>
          dsimp only at hD
          refine .of_delivered (fun _ h => by cases hrec.symm.trans h) fun _ intent hmem _ => ?_
          refine hD.not_atRisk hB rfl hsigned (fun _ => .inl) hrun rfl
            (@rounds_of_update s i ρ.session none (by simp)) hmem ?_
          exact State.Awaited.not_of_ended hI hi (by simp [State.endRound, State.put]) rfl
      | threw =>
          dsimp only at hD
          refine .of_delivered (fun hrest _ intent hmem hh => ?_) fun hrest intent hmem _ => ?_
          · exact (hD.ended (by simp [hrest]) intent hmem hh).of_update hB rfl hsigned fun _ => .inl
          · have hnone : ρ.rest.isSome = false := by
              cases h : ρ.rest.isSome with
              | false => rfl
              | true => exact absurd hrec (hrest h)
            refine hD.not_atRisk hB rfl hsigned (fun _ => .inl) (by simp [hnone, hrun]) rfl
              (@rounds_of_update s i ρ.session none (by simp)) hmem ?_
            exact State.Awaited.not_of_ended hI hi (by simpa [State.put] using hopen) rfl
  | ok rs =>
      rw [hrec] at hD
      dsimp only at hD
      refine .of_delivered (fun _ h => by cases hrec.symm.trans h) fun _ intent hmem hnot => ?_
      rw [Session.keeps_iff hrec] at hnot
      refine hD.not_atRisk hB rfl hsigned (fun _ => .inl) hrun rfl
        (@rounds_of_update s i ρ.session (some _) ?_) hmem ?_
      · intro τ h
        obtain rfl := Option.some.inj h
        rfl
      · refine State.Awaited.not_of_proposed hI hi ?_ rfl rfl hnot
        simpa [State.put, State.setRound, Session.clearDecrypted] using hopen

/-- A round in one process after which nothing is lost used the intents at risk. -/
theorem Complete.of_matchLocal (hI : Inv s) (hB : s.Batched) (hrun : s.exited = false)
    {sessionId batchId : String} {timer : Bool}
    (hD : Delivered honest (Step.act E s (.matchLocal sessionId batchId timer))) :
    Complete E honest s (.matchLocal sessionId batchId timer) := by
  intro r hget hr hsize
  have hopen := (mem_getOpenSessions.1 hr).2
  have hsigned : (s.heap r).status ≠ .signed := by simp [hopen]
  have hsame := Session.decryptLocal_same E E.nodes (s.heap r)
  have hact : Step.act E s (.matchLocal sessionId batchId timer) = s.roundLocal E r batchId timer := by
    simp only [Step.act, Option.mem_def.1 hget, hopen, if_true]
  -- no round works on the open session
  have hlost : ∀ {s' : State} {intent : MpcIntent}, (s'.heap r).status ≠ .open →
      s'.rounds = s.rounds → ¬ s'.Awaited r intent := by
    rintro s' intent hstatus hrounds ⟨-, h | ⟨i, -, ρ, hρ, hsession, -⟩⟩
    · exact hstatus h
    · rw [hrounds] at hρ
      exact hI.session_ne hρ (by simp [hopen]) hsession
  rw [hact, State.roundLocal, if_neg (Nat.not_lt.2 hsize)] at hD
  dsimp only at hD
  split
  · next hdecrypts =>
    rw [if_pos (Session.decryptLocal_iff.2 hdecrypts)] at hD
    cases hrec : ((s.heap r).decryptLocal E E.nodes).2.reconstruct E
        ((s.heap r).decryptLocal E E.nodes).2.intents.entries with
    | error stop =>
        rw [hrec] at hD
        cases stop with
        | failed =>
            dsimp only at hD
            refine .of_delivered (fun _ h => by cases hrec.symm.trans h) fun _ intent hmem _ => ?_
            exact hD.not_atRisk hB rfl hsigned (fun _ => .inl) hrun rfl
              (fun _ hlt _ hρ _ => ⟨hlt, hρ⟩) hmem (hlost (by simp [State.put]) rfl)
        | threw =>
            dsimp only at hD
            refine .of_delivered (fun htimer _ intent hmem hh => ?_) fun htimer intent hmem _ => ?_
            · exact (hD.ended (by simp [htimer]) intent hmem hh).of_update hB rfl hsigned fun _ => .inl
            · have hnone : timer = false := by
                cases timer with
                | false => rfl
                | true => exact absurd hrec (htimer rfl)
              exact hD.not_atRisk hB rfl hsigned (fun _ => .inl) (by simp [hnone, hrun]) rfl
                (fun _ hlt _ hρ _ => ⟨hlt, hρ⟩) hmem (hlost (by simp [State.put]) rfl)
    | ok rs =>
        rw [hrec] at hD
        dsimp only at hD
        refine .of_delivered (fun _ h => by cases hrec.symm.trans h) fun _ intent hmem hnot => ?_
        rw [Session.keeps_iff hrec] at hnot
        refine hD.not_atRisk hB rfl hsigned (fun b hb => ?_) hrun rfl
          (fun _ hlt _ hρ _ => ⟨hlt, hρ⟩) hmem (hlost (by simp [State.put, Session.sign]) rfl)
        rcases List.mem_append.1 hb with hb | hb
        · exact .inl hb
        · obtain rfl := List.mem_singleton.1 hb
          exact .inr hnot
  · next hnot =>
    rw [← Session.decryptLocal_iff] at hnot
    rw [if_neg hnot] at hD
    intro intent hmem
    exact hD.not_atRisk hB rfl hsigned (fun _ => .inl) hrun rfl (fun _ hlt _ hρ _ => ⟨hlt, hρ⟩) hmem
      (hlost (by simp [State.put]) rfl)

/-- **The condition is exact.** From a state in which no honest intent is lost, a step that the nodes
answer loses none just if it is complete. -/
theorem Delivered.step_iff (hI : Inv s) (hD : Delivered honest s) (hrun : s.exited = false) {t : Step}
    (hans : Answered E s t) : Delivered honest (t.run E s) ↔ Complete E honest s t := by
  refine ⟨fun h => ?_, fun hok => hD.step hI fun _ => ⟨hans, hok⟩⟩
  rw [Step.run_of_running hrun] at h
  cases t with
  | post => exact .of_post hI hD.batched hrun h
  | decrypted => exact .of_decrypted hI hD.batched hrun hans h
  | matchLocal => exact .of_matchLocal hI hD.batched hrun h
  | deliver | ack | requestMatch | tick | resume | decrypt | sign | signed | confirm => trivial

/-- A run whose questions the nodes answer loses no honest intent, in no state on its way, just if all
of its steps are complete. -/
theorem delivered_iff (hI : Inv s) (hD : Delivered honest s) {ts : List Step}
    (hans : Along E (fun s t => s.exited = false → Answered E s t) ts s) :
    (∀ n, Delivered honest (run E (ts.take n) s)) ↔
      Along E (fun s t => s.exited = false → Complete E honest s t) ts s := by
  induction ts generalizing s with
  | nil => simpa [run, Along] using hD
  | cons t ts ih =>
      have hI' : Inv (t.run E s) := hI.effect (Step.effect hI t)
      constructor
      · intro h
        have hD' : Delivered honest (t.run E s) := by simpa [run] using h 1
        refine ⟨fun hrun => (hD.step_iff hI hrun (hans.1 hrun)).1 hD', ?_⟩
        exact (ih hI' hD' hans.2).1 fun n => by simpa [run] using h (n + 1)
      · intro h n
        have hD' := hD.step hI fun hrun => ⟨hans.1 hrun, h.1 hrun⟩
        cases n with
        | zero => simpa [run] using hD
        | succ n => simpa [run] using (ih hI' hD' hans.2).2 h.2 n

end

end ShadePay.Mpc
