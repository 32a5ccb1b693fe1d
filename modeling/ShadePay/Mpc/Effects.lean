import ShadePay.Mpc.Coordinator

/-!
# What a step of the coordinator does

Of a session, the invariants see its status and its intents; of a round, the session it works on, the
rest of the timer's list, and the matches it has asked signatures for. `Effect` says in these terms
everything a step can do, and `Step.effect` that it does nothing else. `Inv` collects what holds in
every state of every run: at most one session is open, a round works on a session in status
`matching` that no other round works on, and it proposes each intent of that session once.
-/

namespace ShadePay.Mpc

/-! ## Sessions -/

/-- The two objects differ in their shares and their batch only. -/
structure Session.Same (x y : Session) : Prop where
  status : y.status = x.status
  intents : y.intents = x.intents

theorem Session.Same.trans {x y z : Session} (h : x.Same y) (h' : y.Same z) : x.Same z :=
  ⟨h'.status.trans h.status, h'.intents.trans h.intents⟩

/-- Adding shares keeps intents and status. -/
theorem Session.addShares_same (id : String) (es : List (Option EncryptedShare)) (x : Session) :
    x.Same (x.addShares id es).2 := by
  induction es generalizing x with
  | nil => exact ⟨rfl, rfl⟩
  | cons e es ih =>
      cases e with
      | none => exact ⟨rfl, rfl⟩
      | some e =>
          have h := ih (x.addShare id e)
          exact ⟨h.status, h.intents⟩

/-- Applying an answer keeps intents and status. -/
theorem Session.applyReply_same (reply : DecryptReply) (x : Session) : x.Same (x.applyReply reply) := by
  unfold Session.applyReply
  split <;> exact ⟨rfl, rfl⟩

/-- Applying all answers keeps intents and status. -/
theorem Session.applyReplies_same (replies : List DecryptReply) (x : Session) :
    x.Same (replies.foldl (fun x reply => x.applyReply reply) x) := by
  induction replies generalizing x with
  | nil => exact ⟨rfl, rfl⟩
  | cons reply replies ih => exact (x.applyReply_same reply).trans (ih (x.applyReply reply))

/-- Decrypting in the process keeps intents and status. -/
theorem Session.decryptLocal_same (E : Env) (ns : List String) (x : Session) :
    x.Same (x.decryptLocal E ns).2 := by
  induction ns generalizing x with
  | nil => exact ⟨rfl, rfl⟩
  | cons n ns ih =>
      unfold Session.decryptLocal
      split
      · exact ih x
      · rename_i nodeShares _
        dsimp only
        split
        · have h := ih { x with
            shares := x.shares.set n (decryptEntries E n nodeShares.entries nodeShares).2 }
          exact ⟨h.status, h.intents⟩
        · exact ⟨rfl, rfl⟩

/-- The reconstructed intents are the intents of the session, in order. -/
theorem Session.reconstruct_ids {E : Env} {x : Session} {es : List (String × MpcIntent)}
    {rs : List Reconstructed} (h : x.reconstruct E es = .ok rs) :
    rs.map Reconstructed.intentId = es.map Prod.fst := by
  induction es generalizing rs with
  | nil =>
      cases h
      rfl
  | cons e es ih =>
      obtain ⟨id, intent⟩ := e
      unfold Session.reconstruct at h
      split at h
      · cases h
      · split at h
        · cases h
        · cases hrest : x.reconstruct E es with
          | error e =>
              rw [hrest] at h
              cases h
          | ok rs' =>
              rw [hrest] at h
              cases h
              simp [ih hrest]

/-- A proposal: matches that use each intent of a session at most once. -/
structure Session.Proposes (x : Session) (ms : List MatchResult) : Prop where
  nodup : (usedIds ms).Nodup
  subset : ∀ id ∈ usedIds ms, id ∈ x.intents.keys

/-- What a round reconstructs, it matches as a proposal. -/
theorem Session.proposes {E : Env} {x : Session} {rs : List Reconstructed}
    (h : x.reconstruct E x.intents.entries = .ok rs) : x.Proposes (matchIntents rs) := by
  obtain ⟨hnodup, hsub⟩ := matchIntents_spec rs
  refine ⟨hnodup, fun id hid => ?_⟩
  obtain ⟨i, hi, rfl⟩ := hsub id hid
  have := List.mem_map_of_mem (f := Reconstructed.intentId) hi
  rwa [Session.reconstruct_ids h] at this

/-- Only the intents of a session matter. -/
theorem Session.Proposes.congr {x y : Session} {ms : List MatchResult} (h : x.Proposes ms)
    (hxy : y.intents = x.intents) : y.Proposes ms :=
  ⟨h.nodup, fun id hid => by rw [hxy]; exact h.subset id hid⟩

/-! ## Rounds -/

/-- The matches a round has asked signatures for. -/
def Round.proposal (ρ : Round) : Option (List MatchResult) :=
  match ρ.phase with
  | .decrypting _ _ => none
  | .signing _ ms _ => some ms

/-- What the invariants see of a round. -/
def Round.shape (ρ : Round) : Ref × Option (List Ref) × Option (List MatchResult) :=
  (ρ.session, ρ.rest, ρ.proposal)

/-- The ids of all matches of all batches. -/
def State.matchedIds (s : State) : List String := s.batches.flatMap fun b => usedIds b.2.ms

/-- Submissions that were accepted: acknowledged, or waiting for it. -/
def State.taken (s : State) : List MpcIntent := s.pending ++ s.acked

/-- The session of a round with the answers of the nodes taken over. -/
def State.heard (s : State) (ρ : Round) (answers : List (Option DecryptReply)) : Session :=
  (answers.filterMap id).foldl (fun x reply => x.applyReply reply) (s.heap ρ.session)

/-- Why a round can end without a batch: too few answers, or shares that give no amounts. The last
argument says whether the process ends with it. -/
inductive Round.Stops (E : Env) (s : State) (i : ℕ) (ρ : Round) : Step → Bool → Prop
  | fewDecrypted {batchId : String} {ids : List String}
      {answers : List (Option (Option DecryptReply))} {answers' : List (Option DecryptReply)}
      (hphase : ρ.phase = .decrypting ids answers) (hanswers : answers.mapM id = some answers')
      (hfew : (answers'.filterMap id).length < threshold E.nodes.length) :
      Stops E s i ρ (.decrypted i batchId) false
  | unreadable {batchId : String} {ids : List String}
      {answers : List (Option (Option DecryptReply))} {answers' : List (Option DecryptReply)} {e : Stop}
      (hphase : ρ.phase = .decrypting ids answers) (hanswers : answers.mapM id = some answers')
      (he : (s.heard ρ answers').reconstruct E (s.heard ρ answers').intents.entries = .error e) :
      Stops E s i ρ (.decrypted i batchId) (decide (e = .threw) && ρ.rest.isSome)
  | fewSigned {batchId : String} {ms : List MatchResult}
      {answers : List (Option (Option NodeSignature))} {answers' : List (Option NodeSignature)}
      (hphase : ρ.phase = .signing batchId ms answers) (hanswers : answers.mapM id = some answers')
      (hfew : (answers'.filterMap id).length < threshold E.nodes.length) :
      Stops E s i ρ (.signed i) false

/-- Why an in-process round can end without a batch, and whether the process ends with it. -/
inductive Session.StopsLocal (E : Env) (x : Session) (timer : Bool) : Bool → Prop
  | undecrypted (h : (x.decryptLocal E E.nodes).1 = false) : StopsLocal E x timer false
  | unreadable {e : Stop} (h : (x.decryptLocal E E.nodes).1 = true)
      (he : (x.decryptLocal E E.nodes).2.reconstruct E
        (x.decryptLocal E E.nodes).2.intents.entries = .error e) :
      StopsLocal E x timer (decide (e = .threw) && timer)

/-! ## Effects -/

/-- Everything a step can do. -/
inductive Effect (E : Env) (s : State) : Step → State → Prop
  /-- Messages, answers and acknowledgements. -/
  | quiet {t : Step} {ρs : ℕ → Option Round} {ts : List (List Ref)}
      {f : List (String × String × EncryptedShare)} {st : String → String → Option EncryptedShare}
      {p a : List MpcIntent} (hρ : ∀ i, (ρs i).map Round.shape = (s.rounds i).map Round.shape)
      (hts : ∀ rs ∈ ts, rs ∈ s.timers) (htaken : ∀ x ∈ p ++ a, x ∈ s.taken) :
      Effect E s t { s with
        rounds := ρs, timers := ts, forwards := f, stores := st, pending := p, acked := a }
  /-- A submission goes to the open session. -/
  | posted {intent : MpcIntent} {now startedAt : ℕ} {r : Ref} {x : Session} {m : OrderedMap String String}
      {f : List (String × String × EncryptedShare)} {p : List MpcIntent}
      (hacc : intent.accepted E = true) (hr : r ∈ s.getOpenSessions) (hx : x.status = .open)
      (hi : x.intents = (s.heap r).intents.set intent.intentId intent)
      (hp : p = s.pending ∨ p = s.pending ++ [intent]) :
      Effect E s (.post intent now startedAt) { s with
        heap := Function.update s.heap r x, intentToSession := m, forwards := f, pending := p }
  /-- A submission goes to a new session. -/
  | created {intent : MpcIntent} {now startedAt : ℕ} {x : Session} {m : OrderedMap String String}
      {f : List (String × String × EncryptedShare)} {p : List MpcIntent}
      (hacc : intent.accepted E = true) (hnone : s.getOpenSessions = []) (hx : x.status = .open)
      (hi : x.intents = OrderedMap.empty.set intent.intentId intent)
      (hp : p = s.pending ∨ p = s.pending ++ [intent]) :
      Effect E s (.post intent now startedAt) { s with
        heap := Function.update s.heap s.next x
        next := s.next + 1
        sessions := s.sessions.set (State.sessionIdAt now) s.next
        intentToSession := m, forwards := f, pending := p }
  /-- A round starts on an open session. -/
  | started {t : Step} {r : Ref} {x : Session} {ρ : Round} {ts : List (List Ref)}
      (hr : r ∈ s.getOpenSessions) (hx : x.status = .matching) (hi : x.intents = (s.heap r).intents)
      (hρ : ρ.session = r) (hrest : ρ.rest = none ∨ ρ.rest = some []) (hprop : ρ.proposal = none)
      (hts : ∀ rs ∈ ts, rs ∈ s.timers) :
      Effect E s t { s with
        heap := Function.update s.heap r x
        rounds := Function.update s.rounds s.nextRound (some ρ)
        nextRound := s.nextRound + 1
        timers := ts }
  /-- A round has matched its session and asks for signatures. -/
  | proposed {i : ℕ} {batchId : String} {ρ ρ' : Round} {ids : List String}
      {answers : List (Option (Option DecryptReply))} {answers' : List (Option DecryptReply)}
      {y : Session} {rs : List Reconstructed} (hi : s.rounds i = some ρ)
      (hphase : ρ.phase = .decrypting ids answers) (hanswers : answers.mapM id = some answers')
      (hrs : (s.heard ρ answers').reconstruct E (s.heard ρ answers').intents.entries = .ok rs)
      (hy : (s.heap ρ.session).Same y) (hsession : ρ'.session = ρ.session) (hrest : ρ'.rest = ρ.rest)
      (hprop : ρ'.proposal = some (matchIntents rs)) :
      Effect E s (.decrypted i batchId) { s with
        heap := Function.update s.heap ρ.session y
        rounds := Function.update s.rounds i (some ρ') }
  /-- A round ends without a batch. -/
  | stopped {t : Step} {b : Bool} {i : ℕ} {ρ : Round} {x : Session} {ts : List (List Ref)}
      (hi : s.rounds i = some ρ) (hwhy : ρ.Stops E s i t b)
      (hx : x.status = .failed ∨ x.status = .matching) (hin : x.intents = (s.heap ρ.session).intents)
      (hts : ∀ rs ∈ ts, rs ∈ s.timers ∨ ρ.rest = some rs) :
      Effect E s t { s with
        heap := Function.update s.heap ρ.session x
        rounds := Function.update s.rounds i none
        timers := ts
        exited := b || s.exited }
  /-- A round ends with a batch. -/
  | signed {i : ℕ} {ρ : Round} {ms : List MatchResult} {x : Session} {b : SignedMatchBatch}
      {ts : List (List Ref)} (hi : s.rounds i = some ρ) (hprop : ρ.proposal = some ms)
      (hx : x.status = .signed) (hin : x.intents = (s.heap ρ.session).intents) (hb : b.ms = ms)
      (hts : ∀ rs ∈ ts, rs ∈ s.timers ∨ ρ.rest = some rs) :
      Effect E s (.signed i) { s with
        heap := Function.update s.heap ρ.session x
        rounds := Function.update s.rounds i none
        timers := ts
        batches := s.batches ++ [(ρ.session, b)] }
  /-- A share is overwritten in the session that holds it. -/
  | confirmed {node id : String} {share : EncryptedShare} {r : Ref} {x : Session} (hr : r < s.next)
      (hx : (s.heap r).Same x) :
      Effect E s (.confirm node id share) { s with heap := Function.update s.heap r x }
  /-- An in-process round ends without a batch. -/
  | localStopped {sessionId batchId : String} {timer b : Bool} {r : Ref} {x : Session}
      (hget : s.sessions.get? sessionId = some r) (hr : r ∈ s.getOpenSessions)
      (hsize : 2 ≤ (s.heap r).intents.size) (hwhy : (s.heap r).StopsLocal E timer b)
      (hx : x.status = .failed ∨ x.status = .matching) (hin : x.intents = (s.heap r).intents) :
      Effect E s (.matchLocal sessionId batchId timer) { s with
        heap := Function.update s.heap r x
        exited := b || s.exited }
  /-- An in-process round ends with a batch. -/
  | localSigned {sessionId batchId : String} {timer : Bool} {r : Ref} {x y : Session}
      {b : SignedMatchBatch} {rs : List Reconstructed} (hget : s.sessions.get? sessionId = some r)
      (hr : r ∈ s.getOpenSessions) (hsize : 2 ≤ (s.heap r).intents.size)
      (hdecrypt : ((s.heap r).decryptLocal E E.nodes).1 = true)
      (hx : x = ((s.heap r).decryptLocal E E.nodes).2)
      (hrs : x.reconstruct E x.intents.entries = .ok rs) (hy : y.status = .signed)
      (hin : y.intents = (s.heap r).intents) (hb : b.ms = matchIntents rs) :
      Effect E s (.matchLocal sessionId batchId timer) { s with
        heap := Function.update s.heap r y
        batches := s.batches ++ [(r, b)] }

/-! ## The invariant -/

/-- What holds in every state of every run. -/
structure Inv (s : State) : Prop where
  blank : ∀ r, s.next ≤ r → s.heap r = .blank
  bound : ∀ id r, s.sessions.get? id = some r → r < s.next
  inj : ∀ id id' r, s.sessions.get? id = some r → s.sessions.get? id' = some r → id = id'
  mapped : ∀ r, (s.heap r).status = .open → ∃ id, s.sessions.get? id = some r
  one_open : ∀ r r', (s.heap r).status = .open → (s.heap r').status = .open → r = r'
  fresh : ∀ i, s.nextRound ≤ i → s.rounds i = none
  «matching» : ∀ i ρ, s.rounds i = some ρ → (s.heap ρ.session).status = .matching
  single : ∀ i j ρ ρ', s.rounds i = some ρ → s.rounds j = some ρ' → ρ.session = ρ'.session → i = j
  rest : ∀ i ρ, s.rounds i = some ρ → ρ.rest = none ∨ ρ.rest = some []
  timers : ∀ rs ∈ s.timers, rs = []
  proposes : ∀ i ρ ms, s.rounds i = some ρ → ρ.proposal = some ms →
    (s.heap ρ.session).Proposes ms

theorem inv_init : Inv State.init := by
  constructor <;> simp [State.init, Session.blank, OrderedMap.empty, OrderedMap.get?]

section
variable {E : Env} {s : State}

/-- The open sessions are those in the map that have this status. -/
theorem mem_getOpenSessions {r : Ref} : r ∈ s.getOpenSessions ↔
    (∃ id, s.sessions.get? id = some r) ∧ (s.heap r).status = .open := by
  simp [State.getOpenSessions, OrderedMap.mem_values_iff]

/-- A session that has not failed was allocated. -/
theorem Inv.lt_next (hI : Inv s) {r : Ref} (h : (s.heap r).status ≠ .failed) : r < s.next := by
  by_contra hr
  exact h (by rw [hI.blank r (Nat.le_of_not_lt hr)]; rfl)

/-- There is no open session, or one. -/
theorem Inv.getOpenSessions (hI : Inv s) :
    s.getOpenSessions = [] ∨ ∃ r, s.getOpenSessions = [r] := by
  have hnodup : s.getOpenSessions.Nodup :=
    (OrderedMap.nodup_values fun j k v => hI.inj j k v).filter _
  match hl : s.getOpenSessions with
  | [] => exact .inl rfl
  | [r] => exact .inr ⟨r, rfl⟩
  | r :: r' :: rs =>
      have hr := mem_getOpenSessions.1 (show r ∈ s.getOpenSessions by simp [hl])
      have hr' := mem_getOpenSessions.1 (show r' ∈ s.getOpenSessions by simp [hl])
      rw [hl, hI.one_open r r' hr.2 hr'.2] at hnodup
      simp at hnodup

/-- A round that starts on an open session, or does not. -/
theorem State.startRound_effect {t : Step} {r : Ref} {rest : Option (List Ref)}
    {ts : List (List Ref)} (hr : r ∈ s.getOpenSessions) (hrest : rest = none ∨ rest = some [])
    (hts : ∀ rs ∈ ts, rs ∈ s.timers) :
    Effect E s t ({ s with timers := ts }.startRound E r rest) := by
  unfold State.startRound
  split
  · exact .quiet (fun _ => rfl) hts fun _ => id
  · exact .started hr rfl rfl rfl hrest rfl hts

/-- An intent is written to the open session, or to a new one if there is none. -/
theorem State.addIntent_eq {intent : MpcIntent} {now startedAt : ℕ} :
    (∃ r rs, s.getOpenSessions = r :: rs ∧ ∃ x m, x.status = (s.heap r).status ∧
      x.intents = (s.heap r).intents.set intent.intentId intent ∧
      (s.addIntent intent now startedAt).2 =
        { s with heap := Function.update s.heap r x, intentToSession := m }) ∨
    (s.getOpenSessions = [] ∧ ∃ x m, x.status = .open ∧
      x.intents = OrderedMap.empty.set intent.intentId intent ∧
      (s.addIntent intent now startedAt).2 = { s with
        heap := Function.update s.heap s.next x
        next := s.next + 1
        sessions := s.sessions.set (State.sessionIdAt now) s.next
        intentToSession := m }) := by
  cases hopen : s.getOpenSessions with
  | nil =>
      refine .inr ⟨rfl, ?_⟩
      simp only [State.addIntent, State.getOrCreateOpenSession, hopen, State.createSession,
        Function.update_self, State.put, Function.update_idem]
      have h := Session.addShares_same intent.intentId intent.encryptedShares
        ⟨State.sessionIdAt now, startedAt, .open, OrderedMap.empty.set intent.intentId intent, .empty,
          none⟩
      exact ⟨_, _, h.status, h.intents, rfl⟩
  | cons r rs =>
      refine .inl ⟨r, rs, rfl, ?_⟩
      simp only [State.addIntent, State.getOrCreateOpenSession, hopen, State.put]
      have h := Session.addShares_same intent.intentId intent.encryptedShares
        { s.heap r with intents := (s.heap r).intents.set intent.intentId intent }
      exact ⟨_, _, h.status, h.intents, rfl⟩

/-- What a submission does. -/
theorem State.post_effect {intent : MpcIntent} {now startedAt : ℕ} :
    Effect E s (.post intent now startedAt) (s.post E intent now startedAt) := by
  unfold State.post
  split
  · rename_i hacc
    rcases s.addIntent_eq with ⟨r, rs, hr, x, m, hx, hi, heq⟩ | ⟨hnone, x, m, hx, hi, heq⟩
    · have hmem : r ∈ s.getOpenSessions := by simp [hr]
      have hopen := (mem_getOpenSessions.1 hmem).2
      dsimp only
      split
      · rw [heq]
        exact .posted hacc hmem (hx.trans hopen) hi (.inr rfl)
      · rw [heq]
        exact .posted hacc hmem (hx.trans hopen) hi (.inl rfl)
    · dsimp only
      split
      · rw [heq]
        exact .created hacc hnone hx hi (.inr rfl)
      · rw [heq]
        exact .created hacc hnone hx hi (.inl rfl)
  · exact .quiet (fun _ => rfl) (fun _ => id) fun _ => id

/-- A round that ends leaves the timer with the rest of its list. -/
theorem State.endRound_timers {i : ℕ} {ρ : Round} (rs : List Ref)
    (h : rs ∈ (s.endRound i ρ).timers) : rs ∈ s.timers ∨ ρ.rest = some rs := by
  unfold State.endRound at h
  cases hrest : ρ.rest with
  | none =>
      simp only [hrest] at h
      exact .inl h
  | some rs' =>
      simp only [hrest, List.mem_append, List.mem_singleton] at h
      exact h.imp_right fun h => by rw [h]

/-- What a round does when the nodes have answered. -/
theorem State.afterDecrypt_effect (hI : Inv s) {i : ℕ} {ρ : Round} {ids : List String}
    {answers : List (Option (Option DecryptReply))} {answers' : List (Option DecryptReply)}
    {batchId : String} (hi : s.rounds i = some ρ) (hphase : ρ.phase = .decrypting ids answers)
    (hanswers : answers.mapM id = some answers') :
    Effect E s (.decrypted i batchId) (s.afterDecrypt E i ρ answers' batchId) := by
  have hmatching := hI.matching i ρ hi
  have hsame := Session.applyReplies_same (answers'.filterMap id) (s.heap ρ.session)
  unfold State.afterDecrypt
  dsimp only
  split
  · rename_i hfew
    exact .stopped hi (.fewDecrypted hphase hanswers hfew) (.inl rfl) rfl
      fun rs h => @State.endRound_timers s i ρ rs h
  · split
    · rename_i he
      exact .stopped hi (.unreadable hphase hanswers he) (.inl rfl) hsame.intents
        fun rs h => @State.endRound_timers s i ρ rs h
    · rename_i he
      exact .stopped hi (.unreadable hphase hanswers he) (.inr (hsame.status.trans hmatching))
        hsame.intents fun rs h => .inl h
    · rename_i rs hrs
      exact .proposed hi hphase hanswers hrs ⟨hsame.status, hsame.intents⟩ rfl rfl rfl

/-- What a round does when the nodes have signed. -/
theorem State.afterSign_effect {i : ℕ} {ρ : Round} {batchId : String} {ms : List MatchResult}
    {answers : List (Option (Option NodeSignature))} {answers' : List (Option NodeSignature)}
    (hi : s.rounds i = some ρ) (hphase : ρ.phase = .signing batchId ms answers)
    (hanswers : answers.mapM id = some answers') :
    Effect E s (.signed i) (s.afterSign E i ρ batchId ms answers') := by
  have hprop : ρ.proposal = some ms := by rw [Round.proposal, hphase]
  unfold State.afterSign
  dsimp only
  split
  · rename_i hfew
    exact .stopped hi (.fewSigned hphase hanswers hfew) (.inl rfl) rfl
      fun rs h => @State.endRound_timers s i ρ rs h
  · exact .signed hi hprop rfl rfl rfl fun rs h => @State.endRound_timers s i ρ rs h

/-- What a round in one process does. -/
theorem State.roundLocal_effect {sessionId batchId : String} {timer : Bool} {r : Ref}
    (hget : s.sessions.get? sessionId = some r) (hopen : (s.heap r).status = .open) :
    Effect E s (.matchLocal sessionId batchId timer) (s.roundLocal E r batchId timer) := by
  have hr : r ∈ s.getOpenSessions := mem_getOpenSessions.2 ⟨⟨sessionId, hget⟩, hopen⟩
  have hsame := Session.decryptLocal_same E E.nodes (s.heap r)
  unfold State.roundLocal
  split
  · exact .quiet (fun _ => rfl) (fun _ => id) fun _ => id
  · rename_i hsize
    rw [not_lt] at hsize
    dsimp only
    split
    · rename_i hdecrypt
      split
      · rename_i he
        exact .localStopped hget hr hsize (.unreadable hdecrypt he) (.inl rfl) hsame.intents
      · rename_i he
        exact .localStopped hget hr hsize (.unreadable hdecrypt he) (.inr rfl) hsame.intents
      · rename_i rs hrs
        exact .localSigned hget hr hsize hdecrypt rfl hrs rfl hsame.intents rfl
    · rename_i hfail
      exact .localStopped hget hr hsize (.undecrypted (by simpa using hfail)) (.inl rfl) hsame.intents

/-- Answers that arrive do not change the shape of a round. -/
theorem State.setRound_quiet {t : Step} {i : ℕ} {ρ ρ' : Round} (hi : s.rounds i = some ρ)
    (hshape : ρ'.shape = ρ.shape) : Effect E s t (s.setRound i ρ') := by
  refine .quiet (fun j => ?_) (fun _ => id) fun _ => id
  by_cases hj : j = i
  · subst hj
    simp [hi, hshape]
  · simp [Function.update_of_ne hj]

/-- A confirmed share keeps intents and status. -/
theorem Session.confirmShare_same (node id : String) (share : EncryptedShare) (x : Session) :
    x.Same (x.confirmShare node id share) := by
  unfold Session.confirmShare
  split
  · exact ⟨rfl, rfl⟩
  · split <;> exact ⟨rfl, rfl⟩

/-- Nothing happens. -/
theorem Effect.idle {t : Step} : Effect E s t s := .quiet (fun _ => rfl) (fun _ => id) fun _ => id

/-- A forwarded share reaches its node. -/
theorem Step.deliver_effect (node intentId : String) (share : EncryptedShare) :
    Effect E s (.deliver node intentId share) ((Step.deliver node intentId share).act E s) := by
  unfold Step.act
  dsimp only
  split
  · split
    · exact .quiet (fun _ => rfl) (fun _ => id) fun _ => id
    · exact .quiet (fun _ => rfl) (fun _ => id) fun _ => id
  · exact .idle

/-- An acknowledged submission was pending, so it was taken before. -/
theorem Step.ack_effect (intent : MpcIntent) :
    Effect E s (.ack intent) ((Step.ack intent).act E s) := by
  unfold Step.act
  dsimp only
  split
  · rename_i hmem
    refine .quiet (fun _ => rfl) (fun _ => id) fun x hx => ?_
    simp only [State.taken, List.mem_append, List.mem_singleton] at hx ⊢
    rcases hx with hx | hx | rfl
    · exact .inl (List.mem_of_mem_erase hx)
    · exact .inr hx
    · exact .inl hmem
  · exact .idle

/-- A request for a round starts one over an open session. -/
theorem Step.requestMatch_effect (sessionId : String) :
    Effect E s (.requestMatch sessionId) ((Step.requestMatch sessionId).act E s) := by
  unfold Step.act
  dsimp only
  split
  · exact .idle
  · rename_i r hget
    split
    · rename_i hopen
      exact State.startRound_effect (mem_getOpenSessions.2 ⟨⟨sessionId, hget⟩, hopen⟩) (.inl rfl)
        fun _ => id
    · exact .idle

/-- The timer starts a round over the open session, if there is one. -/
theorem Step.tick_effect (hI : Inv s) : Effect E s .tick (Step.tick.act E s) := by
  unfold Step.act
  dsimp only
  rcases hI.getOpenSessions with hnil | ⟨r, hr⟩
  · rw [hnil]
    exact .idle
  · rw [hr, State.runTimer]
    split
    · exact .idle
    · exact State.startRound_effect (by simp [hr]) (.inr rfl) fun _ => id

/-- The timer goes on with the rest of its list. -/
theorem Step.resume_effect (hI : Inv s) (rest : List Ref) :
    Effect E s (.resume rest) ((Step.resume rest).act E s) := by
  unfold Step.act
  dsimp only
  split
  · rename_i hmem
    -- the timer had one session to work on, so none is left
    rw [hI.timers rest hmem]
    exact .quiet (fun _ => rfl) (fun _ h => List.mem_of_mem_erase h) fun _ => id
  · exact .idle

/-- A confirmed share is written to a session that was allocated. -/
theorem Step.confirm_effect (hI : Inv s) (node intentId : String) (share : EncryptedShare) :
    Effect E s (.confirm node intentId share) ((Step.confirm node intentId share).act E s) := by
  unfold Step.act
  dsimp only
  split
  · split
    · exact .idle
    · rename_i r hget
      obtain ⟨sessionId, -, hget⟩ := Option.bind_eq_some_iff.1 hget
      exact .confirmed (hI.bound sessionId r hget) (Session.confirmShare_same _ _ _ _)
  · exact .idle

/-- **A step does one of the things an effect lists.** -/
theorem Step.effect_act (hI : Inv s) (t : Step) : Effect E s t (t.act E s) := by
  cases t with
  | post intent now startedAt => exact State.post_effect
  | deliver node intentId share => exact Step.deliver_effect node intentId share
  | ack intent => exact Step.ack_effect intent
  | requestMatch sessionId => exact Step.requestMatch_effect sessionId
  | tick => exact Step.tick_effect hI
  | resume rest => exact Step.resume_effect hI rest
  | decrypt i k responds =>
      unfold Step.act
      dsimp only
      split
      · rename_i r ids answers rest node hround hnode
        split
        · exact State.setRound_quiet hround rfl
        · exact .idle
      · exact .idle
  | decrypted i batchId =>
      unfold Step.act
      dsimp only
      split
      · rename_i r ids answers rest hround
        split
        · rename_i answers' hanswers
          exact State.afterDecrypt_effect hI hround rfl hanswers
        · exact .idle
      · exact .idle
  | sign i k responds =>
      unfold Step.act
      dsimp only
      split
      · rename_i r batchId ms answers rest node hround hnode
        split
        · exact State.setRound_quiet hround rfl
        · exact .idle
      · exact .idle
  | signed i =>
      unfold Step.act
      dsimp only
      split
      · rename_i r batchId ms answers rest hround
        split
        · rename_i answers' hanswers
          exact State.afterSign_effect hround rfl hanswers
        · exact .idle
      · exact .idle
  | confirm node intentId share => exact Step.confirm_effect hI node intentId share
  | matchLocal sessionId batchId timer =>
      unfold Step.act
      dsimp only
      split
      · exact .idle
      · rename_i r hget
        split
        · rename_i hopen
          exact State.roundLocal_effect hget hopen
        · exact .idle

/-- Nothing happens after the process has ended. -/
theorem Step.run_of_exited {t : Step} (h : s.exited = true) : t.run E s = s := if_pos h

theorem Step.run_of_running {t : Step} (h : s.exited = false) : t.run E s = t.act E s :=
  if_neg (by simp [h])

/-- A step of a run does one of the things an effect lists. -/
theorem Step.effect (hI : Inv s) (t : Step) : Effect E s t (t.run E s) := by
  cases h : s.exited with
  | false => exact Step.run_of_running h ▸ Step.effect_act hI t
  | true =>
      rw [Step.run_of_exited h]
      exact .quiet (fun _ => rfl) (fun _ => id) fun _ => id

/-! ## The invariant along a run -/

/-- There is one open session at most. -/
theorem Inv.open_of_mem (hI : Inv s) {r r' : Ref} (hr : r ∈ s.getOpenSessions)
    (h : (s.heap r').status = .open) : r' = r :=
  hI.one_open r' r h (mem_getOpenSessions.1 hr).2

/-- With no session in the list there is none that is open. -/
theorem Inv.not_open (hI : Inv s) (hnone : s.getOpenSessions = []) (r : Ref) :
    (s.heap r).status ≠ .open := by
  intro h
  have : r ∈ s.getOpenSessions := mem_getOpenSessions.2 ⟨hI.mapped r h, h⟩
  simp [hnone] at this

/-- A round never works on the open session. -/
theorem Inv.session_ne (hI : Inv s) {i : ℕ} {ρ : Round} (hi : s.rounds i = some ρ) {r : Ref}
    (h : (s.heap r).status ≠ .matching) : ρ.session ≠ r := by
  rintro rfl
  exact h (hI.matching i ρ hi)

/-- Changing the object at `r` without leaving or entering status `open`. -/
theorem Inv.heap_update (hI : Inv s) {r : Ref} {x : Session} (hr : r < s.next)
    (hopen : x.status = .open → (s.heap r).status = .open) (s' : State)
    (hheap : s'.heap = Function.update s.heap r x) (hnext : s'.next = s.next)
    (hsessions : s'.sessions = s.sessions) :
    (∀ r', s'.next ≤ r' → s'.heap r' = .blank) ∧
      (∀ r', (s'.heap r').status = .open → ∃ id, s'.sessions.get? id = some r') ∧
      ∀ r' r'', (s'.heap r').status = .open → (s'.heap r'').status = .open → r' = r'' := by
  have hback : ∀ r', (s'.heap r').status = .open → (s.heap r').status = .open := by
    intro r' h
    rw [hheap, Function.update_apply] at h
    split at h
    · rename_i he
      subst he
      exact hopen h
    · exact h
  refine ⟨fun r' hr' => ?_, fun r' h => ?_, fun r' r'' h h' => ?_⟩
  · rw [hnext] at hr'
    have hne : r' ≠ r := by
      rintro rfl
      exact absurd hr (Nat.not_lt.2 hr')
    rw [hheap, Function.update_of_ne hne]
    exact hI.blank r' hr'
  · rw [hsessions]
    exact hI.mapped r' (hback r' h)
  · exact hI.one_open r' r'' (hback r' h) (hback r'' h')

/-- The end of a round: the other rounds keep their sessions. -/
theorem Inv.round_end (hI : Inv s) {i : ℕ} {ρ : Round} {x : Session} {ts : List (List Ref)}
    {bs : List (Ref × SignedMatchBatch)} {b : Bool} (hi : s.rounds i = some ρ) (hx : x.status ≠ .open)
    (hts : ∀ rs ∈ ts, rs ∈ s.timers ∨ ρ.rest = some rs) :
    Inv { s with
      heap := Function.update s.heap ρ.session x
      rounds := Function.update s.rounds i none
      timers := ts
      batches := bs
      exited := b } := by
  have hmatching := hI.matching i ρ hi
  have hlt : ρ.session < s.next := hI.lt_next (by rw [hmatching]; decide)
  obtain ⟨hblank, hmapped, hone⟩ := hI.heap_update hlt (fun h => absurd h hx) { s with
    heap := Function.update s.heap ρ.session x
    rounds := Function.update s.rounds i none
    timers := ts
    batches := bs
    exited := b } rfl rfl rfl
  have hother : ∀ j σ, Function.update s.rounds i none j = some σ →
      s.rounds j = some σ ∧ σ.session ≠ ρ.session := by
    intro j σ hσ
    rw [Function.update_apply] at hσ
    split at hσ
    · cases hσ
    · rename_i hj
      exact ⟨hσ, fun he => hj (hI.single j i σ ρ hσ hi he)⟩
  refine ⟨hblank, hI.bound, hI.inj, hmapped, hone, ?_, ?_, ?_, ?_, ?_, ?_⟩
  · intro j hj
    simp only [Function.update_apply]
    split
    · rfl
    · exact hI.fresh j hj
  · intro j σ hσ
    obtain ⟨hσ, hne⟩ := hother j σ hσ
    simp only [Function.update_of_ne hne]
    exact hI.matching j σ hσ
  · intro j k σ τ hσ hτ he
    exact hI.single j k σ τ (hother j σ hσ).1 (hother k τ hτ).1 he
  · intro j σ hσ
    exact hI.rest j σ (hother j σ hσ).1
  · intro rs hrs
    rcases hts rs hrs with h | h
    · exact hI.timers rs h
    · rcases hI.rest i ρ hi with h' | h'
      · rw [h'] at h
        cases h
      · rw [h'] at h
        exact (Option.some.inj h).symm
  · intro j σ ms hσ hprop
    obtain ⟨hσ, hne⟩ := hother j σ hσ
    simp only [Function.update_of_ne hne]
    exact hI.proposes j σ ms hσ hprop

/-- A change of the open session, outside of the rounds. -/
theorem Inv.open_update (hI : Inv s) {r : Ref} {x : Session} {s' : State}
    (hr : r ∈ s.getOpenSessions) (hheap : s'.heap = Function.update s.heap r x)
    (hnext : s'.next = s.next) (hsessions : s'.sessions = s.sessions) (hrounds : s'.rounds = s.rounds)
    (hnr : s'.nextRound = s.nextRound) (htimers : s'.timers = s.timers) : Inv s' := by
  have hopen := (mem_getOpenSessions.1 hr).2
  have hlt : r < s.next := hI.lt_next (by rw [hopen]; decide)
  obtain ⟨hblank, hmapped, hone⟩ := hI.heap_update hlt (fun _ => hopen) s' hheap hnext hsessions
  have hne : ∀ i ρ, s.rounds i = some ρ → ρ.session ≠ r := fun i ρ hi =>
    hI.session_ne hi (by rw [hopen]; decide)
  refine ⟨hblank, ?_, ?_, hmapped, hone, ?_, ?_, ?_, ?_, ?_, ?_⟩
  · rw [hsessions, hnext]
    exact hI.bound
  · rw [hsessions]
    exact hI.inj
  · rw [hrounds, hnr]
    exact hI.fresh
  · intro i ρ hi
    rw [hrounds] at hi
    rw [hheap, Function.update_of_ne (hne i ρ hi)]
    exact hI.matching i ρ hi
  · rw [hrounds]
    exact hI.single
  · rw [hrounds]
    exact hI.rest
  · rw [htimers]
    exact hI.timers
  · intro i ρ ms hi hprop
    rw [hrounds] at hi
    rw [hheap, Function.update_of_ne (hne i ρ hi)]
    exact hI.proposes i ρ ms hi hprop

/-- A change of the shares of a session. -/
theorem Inv.same_update (hI : Inv s) {r : Ref} {x : Session} (hr : r < s.next)
    (hx : (s.heap r).Same x) : Inv { s with heap := Function.update s.heap r x } := by
  obtain ⟨hblank, hmapped, hone⟩ := hI.heap_update hr (fun h => hx.status.symm.trans h)
    { s with heap := Function.update s.heap r x } rfl rfl rfl
  have hsame : ∀ r', (s.heap r').Same (Function.update s.heap r x r') := by
    intro r'
    rw [Function.update_apply]
    split
    · rename_i he
      exact he ▸ hx
    · exact ⟨rfl, rfl⟩
  refine ⟨hblank, hI.bound, hI.inj, hmapped, hone, hI.fresh, fun i ρ hi => ?_, hI.single, hI.rest,
    hI.timers, fun i ρ ms hi hprop => ?_⟩
  · exact (hsame ρ.session).status.trans (hI.matching i ρ hi)
  · exact (hI.proposes i ρ ms hi hprop).congr (hsame ρ.session).intents

/-- A new session, under an id that may have been another's. -/
theorem Inv.created (hI : Inv s) {x : Session} {id : String} {m : OrderedMap String String}
    {f : List (String × String × EncryptedShare)} {p : List MpcIntent}
    (hnone : s.getOpenSessions = []) :
    Inv { s with
      heap := Function.update s.heap s.next x
      next := s.next + 1
      sessions := s.sessions.set id s.next
      intentToSession := m
      forwards := f
      pending := p } := by
  have hclosed := hI.not_open hnone
  have hopen : ∀ r, (Function.update s.heap s.next x r).status = .open → r = s.next := by
    intro r h
    by_contra hr
    rw [Function.update_of_ne hr] at h
    exact hclosed r h
  have hget : ∀ id' r, (s.sessions.set id s.next).get? id' = some r →
      id' = id ∧ r = s.next ∨ id' ≠ id ∧ s.sessions.get? id' = some r := by
    intro id' r h
    rw [OrderedMap.get?_set] at h
    split at h
    · rename_i he
      exact .inl ⟨he, (Option.some.inj h).symm⟩
    · rename_i he
      exact .inr ⟨he, h⟩
  have hne : ∀ i ρ, s.rounds i = some ρ → ρ.session ≠ s.next := fun i ρ hi =>
    hI.session_ne hi (by rw [hI.blank _ le_rfl]; decide)
  refine ⟨?_, ?_, ?_, ?_, ?_, hI.fresh, ?_, hI.single, hI.rest, hI.timers, ?_⟩
  · intro r hr
    have : r ≠ s.next := by
      rintro rfl
      exact absurd hr (Nat.not_succ_le_self _)
    simp only [Function.update_of_ne this]
    exact hI.blank r (Nat.le_of_succ_le hr)
  · intro id' r h
    rcases hget id' r h with ⟨-, rfl⟩ | ⟨-, h⟩
    · exact Nat.lt_succ_self _
    · exact Nat.lt_succ_of_lt (hI.bound id' r h)
  · intro id' id'' r h h'
    rcases hget id' r h with ⟨e, rfl⟩ | ⟨-, h⟩
    · rcases hget id'' _ h' with ⟨e', -⟩ | ⟨-, h'⟩
      · rw [e, e']
      · exact absurd (hI.bound id'' _ h') (Nat.lt_irrefl _)
    · rcases hget id'' r h' with ⟨-, rfl⟩ | ⟨-, h'⟩
      · exact absurd (hI.bound id' _ h) (Nat.lt_irrefl _)
      · exact hI.inj id' id'' r h h'
  · intro r h
    rw [hopen r h]
    exact ⟨id, OrderedMap.get?_set_self id s.next s.sessions⟩
  · intro r r' h h'
    rw [hopen r h, hopen r' h']
  · intro i ρ hi
    simp only [Function.update_of_ne (hne i ρ hi)]
    exact hI.matching i ρ hi
  · intro i ρ ms hi hprop
    simp only [Function.update_of_ne (hne i ρ hi)]
    exact hI.proposes i ρ ms hi hprop

/-- A round that no other one shares its session with, on a session that is matching. -/
theorem Inv.set_round (hI : Inv s) {i n : ℕ} {ρ : Round} {x : Session} {ts : List (List Ref)}
    (hlt : ρ.session < s.next) (hx : x.status = .matching)
    (hne : ∀ j σ, j ≠ i → s.rounds j = some σ → σ.session ≠ ρ.session) (hi : i < n)
    (hn : s.nextRound ≤ n) (hrest : ρ.rest = none ∨ ρ.rest = some [])
    (hprop : ∀ ms, ρ.proposal = some ms → x.Proposes ms) (hts : ∀ rs ∈ ts, rs ∈ s.timers) :
    Inv { s with
      heap := Function.update s.heap ρ.session x
      rounds := Function.update s.rounds i (some ρ)
      nextRound := n
      timers := ts } := by
  obtain ⟨hblank, hmapped, hone⟩ := hI.heap_update hlt (fun h => by rw [hx] at h; cases h) { s with
    heap := Function.update s.heap ρ.session x
    rounds := Function.update s.rounds i (some ρ)
    nextRound := n
    timers := ts } rfl rfl rfl
  have hcases : ∀ j σ, Function.update s.rounds i (some ρ) j = some σ →
      j = i ∧ σ = ρ ∨ j ≠ i ∧ s.rounds j = some σ := by
    intro j σ h
    rw [Function.update_apply] at h
    split at h
    · rename_i hj
      exact .inl ⟨hj, (Option.some.inj h).symm⟩
    · rename_i hj
      exact .inr ⟨hj, h⟩
  refine ⟨hblank, hI.bound, hI.inj, hmapped, hone, ?_, ?_, ?_, ?_, fun rs h => hI.timers rs (hts rs h),
    ?_⟩
  · intro j hj
    have hji : j ≠ i := (lt_of_lt_of_le hi hj).ne'
    simp only [Function.update_of_ne hji]
    exact hI.fresh j (hn.trans hj)
  · intro j σ h
    rcases hcases j σ h with ⟨-, rfl⟩ | ⟨hj, hσ⟩
    · simp only [Function.update_self]
      exact hx
    · simp only [Function.update_of_ne (hne j σ hj hσ)]
      exact hI.matching j σ hσ
  · intro j k σ τ h h' he
    rcases hcases j σ h with ⟨rfl, rfl⟩ | ⟨hj, hσ⟩
    · rcases hcases k τ h' with ⟨rfl, -⟩ | ⟨hk, hτ⟩
      · rfl
      · exact absurd he.symm (hne k τ hk hτ)
    · rcases hcases k τ h' with ⟨rfl, rfl⟩ | ⟨-, hτ⟩
      · exact absurd he (hne j σ hj hσ)
      · exact hI.single j k σ τ hσ hτ he
  · intro j σ h
    rcases hcases j σ h with ⟨-, rfl⟩ | ⟨-, hσ⟩
    · exact hrest
    · exact hI.rest j σ hσ
  · intro j σ ms h hms
    rcases hcases j σ h with ⟨-, rfl⟩ | ⟨hj, hσ⟩
    · simp only [Function.update_self]
      exact hprop ms hms
    · simp only [Function.update_of_ne (hne j σ hj hσ)]
      exact hI.proposes j σ ms hσ hms

/-- A round starts on the open session. -/
theorem Inv.started (hI : Inv s) {r : Ref} {x : Session} {ρ : Round} {ts : List (List Ref)}
    (hr : r ∈ s.getOpenSessions) (hx : x.status = .matching) (hρ : ρ.session = r)
    (hrest : ρ.rest = none ∨ ρ.rest = some []) (hprop : ρ.proposal = none)
    (hts : ∀ rs ∈ ts, rs ∈ s.timers) :
    Inv { s with
      heap := Function.update s.heap r x
      rounds := Function.update s.rounds s.nextRound (some ρ)
      nextRound := s.nextRound + 1
      timers := ts } := by
  subst hρ
  have hopen := (mem_getOpenSessions.1 hr).2
  refine hI.set_round (hI.lt_next (by rw [hopen]; decide)) hx ?_ (Nat.lt_succ_self _) (Nat.le_succ _)
    hrest (fun ms hms => ?_) hts
  · exact fun j σ _ hσ => hI.session_ne hσ (by rw [hopen]; decide)
  · rw [hprop] at hms
    cases hms

/-- A round asks for signatures. -/
theorem Inv.proposed (hI : Inv s) {i : ℕ} {ρ ρ' : Round} {y : Session} {ms : List MatchResult}
    (hi : s.rounds i = some ρ) (hy : (s.heap ρ.session).Same y) (hsession : ρ'.session = ρ.session)
    (hrest : ρ'.rest = ρ.rest) (hprop : ρ'.proposal = some ms)
    (hms : (s.heap ρ.session).Proposes ms) :
    Inv { s with
      heap := Function.update s.heap ρ.session y
      rounds := Function.update s.rounds i (some ρ') } := by
  have hmatching := hI.matching i ρ hi
  have hlt : ρ.session < s.next := hI.lt_next (by rw [hmatching]; decide)
  have hround : i < s.nextRound := by
    by_contra hge
    rw [hI.fresh i (not_lt.1 hge)] at hi
    cases hi
  rw [← hsession] at hlt ⊢
  refine hI.set_round hlt (hy.status.trans hmatching) (fun j σ hj hσ he => ?_) hround le_rfl
    (hrest ▸ hI.rest i ρ hi) (fun ms' hms' => ?_) fun _ h => h
  · exact hj (hI.single j i σ ρ hσ hi (he.trans hsession))
  · obtain rfl := Option.some.inj (hprop.symm.trans hms')
    exact hms.congr hy.intents

/-- The invariant does not speak about forwards, stores, pending and acknowledged intents. -/
theorem Inv.quiet (hI : Inv s) {ρs : ℕ → Option Round} {ts : List (List Ref)}
    {f : List (String × String × EncryptedShare)} {st : String → String → Option EncryptedShare}
    {p a : List MpcIntent} (hρ : ∀ i, (ρs i).map Round.shape = (s.rounds i).map Round.shape)
    (hts : ∀ rs ∈ ts, rs ∈ s.timers) :
    Inv { s with
      rounds := ρs, timers := ts, forwards := f, stores := st, pending := p, acked := a } := by
  have hback : ∀ i σ, ρs i = some σ → ∃ ρ, s.rounds i = some ρ ∧ ρ.session = σ.session ∧
      ρ.rest = σ.rest ∧ ρ.proposal = σ.proposal := by
    intro i σ h
    have := hρ i
    rw [h, Option.map_some] at this
    obtain ⟨ρ, hi, hs⟩ := Option.map_eq_some_iff.1 this.symm
    simp only [Round.shape, Prod.mk.injEq] at hs
    exact ⟨ρ, hi, hs.1, hs.2.1, hs.2.2⟩
  refine ⟨hI.blank, hI.bound, hI.inj, hI.mapped, hI.one_open, ?_, ?_, ?_, ?_,
    fun rs h => hI.timers rs (hts rs h), ?_⟩
  · intro i hi
    have := hρ i
    rw [hI.fresh i hi] at this
    simpa using this
  · intro i σ h
    obtain ⟨ρ, hi, hs, -, -⟩ := hback i σ h
    rw [← hs]
    exact hI.matching i ρ hi
  · intro i j σ τ h h' he
    obtain ⟨ρ, hi, hs, -, -⟩ := hback i σ h
    obtain ⟨ρ', hj, hs', -, -⟩ := hback j τ h'
    exact hI.single i j ρ ρ' hi hj (hs.trans (he.trans hs'.symm))
  · intro i σ h
    obtain ⟨ρ, hi, -, hr, -⟩ := hback i σ h
    rw [← hr]
    exact hI.rest i ρ hi
  · intro i σ ms h hms
    obtain ⟨ρ, hi, hs, -, hp⟩ := hback i σ h
    rw [← hs]
    exact hI.proposes i ρ ms hi (hp.trans hms)

/-- **One step keeps the invariant.** -/
theorem Inv.effect (hI : Inv s) {t : Step} {s' : State} (h : Effect E s t s') : Inv s' := by
  cases h with
  | quiet hρ hts _ => exact hI.quiet hρ hts
  | posted _ hr hx hi _ => exact hI.open_update hr rfl rfl rfl rfl rfl rfl
  | created _ hnone hx hi _ => exact hI.created hnone
  | started hr hx hi hρ hrest hprop hts => exact hI.started hr hx hρ hrest hprop hts
  | proposed hi _ _ hrs hy hsession hrest hprop =>
      refine hI.proposed hi hy hsession hrest hprop ((Session.proposes hrs).congr ?_)
      exact (Session.applyReplies_same _ _).intents.symm
  | stopped hi _ hx hin hts =>
      refine hI.round_end hi ?_ hts
      rcases hx with hx | hx <;> simp [hx]
  | signed hi hprop hx hin hb hts => exact hI.round_end hi (by simp [hx]) hts
  | confirmed hr hx => exact hI.same_update hr hx
  | localStopped _ hr _ _ hx hin => exact hI.open_update hr rfl rfl rfl rfl rfl rfl
  | localSigned _ hr _ _ _ _ _ _ _ => exact hI.open_update hr rfl rfl rfl rfl rfl rfl

/-- Two runs one after the other. -/
theorem run_append (ts ts' : List Step) (s : State) : run E (ts ++ ts') s = run E ts' (run E ts s) := by
  induction ts generalizing s with
  | nil => rfl
  | cons t ts ih => exact ih (t.run E s)

/-- **Run lemma.** What every admitted step keeps, a run of admitted steps keeps. -/
theorem Along.keeps {ok : State → Step → Prop} {I : State → Prop}
    (hstep : ∀ s t, Inv s → I s → ok s t → I (t.run E s)) {ts : List Step} {s : State} (hI : Inv s)
    (h : I s) (hok : Along E ok ts s) : Inv (run E ts s) ∧ I (run E ts s) := by
  induction ts generalizing s with
  | nil => exact ⟨hI, h⟩
  | cons t ts ih => exact ih (hI.effect (Step.effect hI t)) (hstep s t hI h hok.1) hok.2

end

end ShadePay.Mpc
