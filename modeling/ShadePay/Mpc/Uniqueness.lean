import ShadePay.Mpc.Effects

/-!
# An intent is settled once

The matcher uses an intent once within a round, and a session is matched once, but nothing keeps an
id from being submitted again once its session is closed: the id then gets a second session and a
second match. `Careful` says what a submission must look like for this not to happen, and for a new
session not to take the place of one whose batch is signed or being made; along careful runs no id is
matched twice (`matched_once`).
-/

namespace ShadePay.Mpc

/-- The session is open, or a round is at work on it. -/
def Session.active (x : Session) : Prop := x.status = .open ∨ x.status = .matching

/-- The condition on a submission that passes the checks of its route: its id is in no session that
is being matched and in no match of a signed batch, and if it opens a new session, then the session
that had the new session's id, if any, has failed. -/
def Careful (E : Env) (s : State) : Step → Prop
  | .post intent now _ => intent.accepted E = true →
      (∀ r < s.next, (s.heap r).status = .matching → intent.intentId ∉ (s.heap r).intents.keys) ∧
      intent.intentId ∉ s.matchedIds ∧
      (s.getOpenSessions = [] → ∀ r ∈ s.sessions.get? (State.sessionIdAt now),
        (s.heap r).status = .failed)
  | _ => True

instance (E : Env) (s : State) : ∀ t, Decidable (Careful E s t)
  | .post intent now _ => inferInstanceAs (Decidable (intent.accepted E = true →
      (∀ r < s.next, (s.heap r).status = .matching → intent.intentId ∉ (s.heap r).intents.keys) ∧
      intent.intentId ∉ s.matchedIds ∧
      (s.getOpenSessions = [] → ∀ r ∈ s.sessions.get? (State.sessionIdAt now),
        (s.heap r).status = .failed)))
  | .deliver .. | .ack _ | .requestMatch _ | .tick | .resume _ | .decrypt .. | .decrypted ..
  | .sign .. | .signed _ | .confirm .. | .matchLocal .. => isTrue trivial

/-- No id is matched twice, and the ids of the sessions at work are neither matched nor shared. -/
structure Unique (s : State) : Prop where
  nodup : s.matchedIds.Nodup
  fresh : ∀ r, (s.heap r).active → ∀ id ∈ (s.heap r).intents.keys, id ∉ s.matchedIds
  disjoint : ∀ r r', r ≠ r' → (s.heap r).active → (s.heap r').active →
    ∀ id ∈ (s.heap r).intents.keys, id ∉ (s.heap r').intents.keys

section
variable {E : Env} {s s' : State}

theorem unique_init : Unique State.init := by
  constructor <;> simp [State.init, State.matchedIds, Session.blank, Session.active]

/-- The object at `r` changes without taking in intents. -/
theorem Unique.heap_update (hU : Unique s) {r : Ref} {x : Session}
    (hheap : s'.heap = Function.update s.heap r x) (hb : s'.batches = s.batches)
    (hactive : x.active → (s.heap r).active) (hin : x.intents = (s.heap r).intents) : Unique s' := by
  have hback : ∀ r', (s'.heap r').active → (s.heap r').active := by
    intro r' h
    rw [hheap, Function.update_apply] at h
    split at h
    · rename_i he
      subst he
      exact hactive h
    · exact h
  have hkeys : ∀ r', (s'.heap r').intents = (s.heap r').intents := by
    intro r'
    rw [hheap, Function.update_apply]
    split
    · rename_i he
      rw [he, hin]
    · rfl
  refine ⟨?_, fun r' h id hid => ?_, fun r' r'' hne h h' id hid => ?_⟩
  · rw [State.matchedIds, hb]
    exact hU.nodup
  · rw [hkeys] at hid
    rw [State.matchedIds, hb]
    exact hU.fresh r' (hback r' h) id hid
  · rw [hkeys] at hid ⊢
    exact hU.disjoint r' r'' hne (hback r' h) (hback r'' h') id hid

/-- The active object at `r` takes in one id that no other active object has. -/
theorem Unique.take (hU : Unique s) {r : Ref} {x : Session} {a : String}
    (hheap : s'.heap = Function.update s.heap r x) (hb : s'.batches = s.batches)
    (hactive : (s.heap r).active ∨ (s.heap r).intents.keys = [])
    (hin : ∀ id ∈ x.intents.keys, id = a ∨ id ∈ (s.heap r).intents.keys)
    (hmatched : a ∉ s.matchedIds)
    (hother : ∀ r', r' ≠ r → (s.heap r').active → a ∉ (s.heap r').intents.keys) :
    Unique s' := by
  have hself : ∀ id ∈ x.intents.keys, id = a ∨
      (s.heap r).active ∧ id ∈ (s.heap r).intents.keys := by
    intro id hid
    rcases hin id hid with h | h
    · exact .inl h
    · rcases hactive with ha | ha
      · exact .inr ⟨ha, h⟩
      · simp [ha] at h
  have hcross : ∀ r', r' ≠ r → (s.heap r').active → ∀ id ∈ x.intents.keys,
      id ∉ (s.heap r').intents.keys := by
    intro r' hne h id hid
    rcases hself id hid with rfl | ⟨ha, hid⟩
    · exact hother r' hne h
    · exact hU.disjoint r r' (Ne.symm hne) ha h id hid
  refine ⟨?_, fun r' h id hid => ?_, fun r' r'' hne h h' id hid hid' => ?_⟩
  · rw [State.matchedIds, hb]
    exact hU.nodup
  · rw [State.matchedIds, hb]
    by_cases he : r' = r
    · subst he
      rw [hheap, Function.update_self] at hid
      rcases hself id hid with rfl | ⟨ha, hid⟩
      · exact hmatched
      · exact hU.fresh r' ha id hid
    · rw [hheap, Function.update_of_ne he] at h hid
      exact hU.fresh r' h id hid
  · by_cases he : r' = r
    · subst he
      rw [hheap, Function.update_self] at hid
      rw [hheap, Function.update_of_ne (Ne.symm hne)] at h' hid'
      exact hcross r'' (Ne.symm hne) h' id hid hid'
    · rw [hheap, Function.update_of_ne he] at h hid
      by_cases he' : r'' = r
      · subst he'
        rw [hheap, Function.update_self] at hid'
        exact hcross r' he h id hid' hid
      · rw [hheap, Function.update_of_ne he'] at h' hid'
        exact hU.disjoint r' r'' hne h h' id hid hid'

/-- The session at `r` gets a batch that uses each of its intents at most once. -/
theorem Unique.sign (hU : Unique s) {r : Ref} {x : Session} {b : SignedMatchBatch}
    (hheap : s'.heap = Function.update s.heap r x) (hb : s'.batches = s.batches ++ [(r, b)])
    (hactive : (s.heap r).active) (hx : x.status = .signed) (hms : (s.heap r).Proposes b.ms) :
    Unique s' := by
  have hids : s'.matchedIds = s.matchedIds ++ usedIds b.ms := by
    simp [State.matchedIds, hb]
  have hback : ∀ r', (s'.heap r').active → r' ≠ r ∧ s'.heap r' = s.heap r' := by
    intro r' h
    by_cases he : r' = r
    · subst he
      rw [hheap, Function.update_self] at h
      simp [Session.active, hx] at h
    · exact ⟨he, by rw [hheap, Function.update_of_ne he]⟩
  refine ⟨?_, fun r' h id hid => ?_, fun r' r'' hne h h' id hid => ?_⟩
  · rw [hids]
    refine List.nodup_append.2 ⟨hU.nodup, hms.nodup, fun a ha c hc hac => ?_⟩
    subst hac
    exact hU.fresh r hactive a (hms.subset a hc) ha
  · obtain ⟨hne, he⟩ := hback r' h
    rw [he] at h hid
    rw [hids, List.mem_append, not_or]
    exact ⟨hU.fresh r' h id hid, fun hc =>
      hU.disjoint r r' (Ne.symm hne) hactive h id (hms.subset id hc) hid⟩
  · obtain ⟨-, he⟩ := hback r' h
    obtain ⟨-, he'⟩ := hback r'' h'
    rw [he] at h hid
    rw [he'] at h' ⊢
    exact hU.disjoint r' r'' hne h h' id hid

/-- **One careful step** keeps the ids apart. -/
theorem Unique.step (hI : Inv s) (hU : Unique s) {t : Step} (hok : Careful E s t)
    (h : Effect E s t s') : Unique s' := by
  cases h with
  | quiet hρ hts _ => exact ⟨hU.nodup, hU.fresh, hU.disjoint⟩
  | posted hacc hr hx hi _ =>
      obtain ⟨hmatching, hmatched, -⟩ := hok hacc
      have hopen := (mem_getOpenSessions.1 hr).2
      refine hU.take rfl rfl (.inl (.inl hopen)) ?_ hmatched ?_
      · intro id hid
        rw [hi] at hid
        exact OrderedMap.mem_keys_set.1 hid
      · rintro r' hne (h | h)
        · exact absurd (hI.open_of_mem hr h) hne
        · exact hmatching r' (hI.lt_next (by rw [h]; decide)) h
  | created hacc hnone hx hi _ =>
      obtain ⟨hmatching, hmatched, -⟩ := hok hacc
      refine hU.take rfl rfl (.inr ?_) ?_ hmatched ?_
      · rw [hI.blank s.next le_rfl]
        rfl
      · intro id hid
        rw [hi, OrderedMap.mem_keys_set] at hid
        exact hid.imp_right fun h => absurd h List.not_mem_nil
      · rintro r' - (h | h)
        · exact absurd h (hI.not_open hnone r')
        · exact hmatching r' (hI.lt_next (by rw [h]; decide)) h
  | started hr hx hi _ _ _ _ =>
      exact hU.heap_update rfl rfl (fun _ => .inl (mem_getOpenSessions.1 hr).2) hi
  | proposed hi _ _ _ hy _ _ _ =>
      exact hU.heap_update rfl rfl (fun _ => .inr (hI.matching _ _ hi)) hy.intents
  | stopped hi _ hx hin _ => exact hU.heap_update rfl rfl (fun _ => .inr (hI.matching _ _ hi)) hin
  | signed hi hprop hx hin hb _ =>
      refine hU.sign rfl rfl (.inr (hI.matching _ _ hi)) hx ?_
      rw [hb]
      exact hI.proposes _ _ _ hi hprop
  | confirmed hr hx =>
      exact hU.heap_update rfl rfl (fun h => by rwa [Session.active, hx.status] at h) hx.intents
  | localStopped _ hr _ _ hx hin =>
      exact hU.heap_update rfl rfl (fun _ => .inl (mem_getOpenSessions.1 hr).2) hin
  | localSigned _ hr _ _ hx hrs hy hin hb =>
      refine hU.sign rfl rfl (.inl (mem_getOpenSessions.1 hr).2) hy ?_
      rw [hb]
      refine (Session.proposes hrs).congr ?_
      rw [hx]
      exact (Session.decryptLocal_same _ _ _).intents.symm

/-- A step touches the intents of the open session only. -/
theorem Effect.intents {t : Step} (h : Effect E s t s') {r : Ref} (hr : r < s.next)
    (hclosed : (s.heap r).status ≠ .open) : (s'.heap r).intents = (s.heap r).intents := by
  have hopen {r' : Ref} (hr' : r' ∈ s.getOpenSessions) : r ≠ r' := by
    rintro rfl
    exact hclosed (mem_getOpenSessions.1 hr').2
  have hupdate {r' : Ref} {x : Session} (hx : x.intents = (s.heap r').intents) :
      (Function.update s.heap r' x r).intents = (s.heap r).intents := by
    rw [Function.update_apply]
    split
    · rename_i he
      rw [hx, he]
    · rfl
  cases h with
  | quiet => rfl
  | posted _ hr' _ _ _ => simp [Function.update_of_ne (hopen hr')]
  | created _ _ _ _ _ => simp [Function.update_of_ne (Nat.ne_of_lt hr)]
  | started hr' _ _ _ _ _ _ => simp [Function.update_of_ne (hopen hr')]
  | proposed _ _ _ _ hy _ _ _ => exact hupdate hy.intents
  | stopped _ _ _ hin _ => exact hupdate hin
  | signed _ _ _ hin _ _ => exact hupdate hin
  | confirmed _ hx => exact hupdate hx.intents
  | localStopped _ hr' _ _ _ _ => simp [Function.update_of_ne (hopen hr')]
  | localSigned _ hr' _ _ _ _ _ _ _ => simp [Function.update_of_ne (hopen hr')]

/-- A careful step does not replace a session whose batch is signed or being made. -/
theorem Careful.get? {t : Step} (hok : Careful E s t) (h : Effect E s t s') {id : String}
    {r : Ref} (hget : s.sessions.get? id = some r) (hr : (s.heap r).status ≠ .failed) :
    s'.sessions.get? id = some r := by
  cases h with
  | created hacc hnone _ _ _ =>
      obtain ⟨-, -, hnew⟩ := hok hacc
      rw [OrderedMap.get?_set_of_ne]
      · exact hget
      · rintro rfl
        exact hr (hnew hnone r hget)
  | quiet | posted | started | proposed | stopped | signed | confirmed | localStopped | localSigned =>
      exact hget

/-- **No duplicate settlement.** In every careful run no id occurs twice in the matches of all
batches ever signed; and a careful step from there neither replaces a session whose batch is signed
or being made nor changes its intents. -/
theorem matched_once (E : Env) (ts : List Step) (hok : Along E (Careful E) ts .init) :
    (run E ts .init).matchedIds.Nodup ∧
    ∀ t, Careful E (run E ts .init) t → ∀ id r, (run E ts .init).sessions.get? id = some r →
      ((run E ts .init).heap r).status = .matching ∨ ((run E ts .init).heap r).status = .signed →
      (run E (ts ++ [t]) .init).sessions.get? id = some r ∧
        ((run E (ts ++ [t]) .init).heap r).intents = ((run E ts .init).heap r).intents := by
  obtain ⟨hI, hU⟩ := Along.keeps (fun s t hI hU hok => Unique.step hI hU hok (Step.effect hI t))
    inv_init unique_init hok
  refine ⟨hU.nodup, fun t ht id r hget hstatus => ?_⟩
  have heffect : Effect E (run E ts .init) t (run E (ts ++ [t]) .init) := by
    rw [run_append]
    exact Step.effect hI t
  have hfailed : ((run E ts .init).heap r).status ≠ .failed := by
    rcases hstatus with h | h <;> simp [h]
  have hopen : ((run E ts .init).heap r).status ≠ .open := by
    rcases hstatus with h | h <;> simp [h]
  exact ⟨Careful.get? ht heffect hget hfailed, heffect.intents (hI.lt_next hfailed) hopen⟩

end

/-! ## Runs of a committee of three -/

/-- Three nodes that share out the amount 7 by a constant polynomial. -/
def sampleEnv : Env where
  nodes := ["node-1", "node-2", "node-3"]
  routeParam := some
  decryptShare := fun n _ => some (some
    ⟨if n = "node-1" then "1" else if n = "node-2" then "2" else "3", "7"⟩)
  signBatch := fun n _ _ => ⟨n, n, ""⟩
  computeBatchHash := fun b _ => b

/-- An intent to give one asset for another, with a share for each node. -/
def sampleIntent (intentId inputAsset outputAsset : String) : MpcIntent :=
  ⟨intentId, "", inputAsset, outputAsset, 0, "", "", "", "",
    sampleEnv.nodes.map fun n => some ⟨n, "", "", ""⟩, 0⟩

/-- Submit an intent, deliver its shares, and acknowledge it. -/
def submit (intent : MpcIntent) (now : ℕ) : List Step :=
  [.post intent now now] ++
    sampleEnv.nodes.map (fun n => .deliver n intent.intentId ⟨n, "", "", ""⟩) ++ [.ack intent]

/-- A round in which the third node does not answer the first request. -/
def answers (round : ℕ) (batchId : String) : List Step :=
  [.decrypt round 0 true, .decrypt round 1 true, .decrypt round 2 false, .decrypted round batchId,
    .sign round 0 true, .sign round 1 true, .sign round 2 true, .signed round]

/-- Two intents that meet, matched on request. -/
def firstMatch : List Step :=
  submit (sampleIntent "a" "X" "Y") 100 ++ submit (sampleIntent "b" "Y" "X") 101 ++
    [.requestMatch "session-100"] ++ answers 0 "u0"

theorem matched_once_firstMatch :
    (run sampleEnv firstMatch .init).matchedIds = ["a", "b"] ∧
      (run sampleEnv firstMatch .init).matchedIds.Nodup := by
  have hok : Along sampleEnv (Careful sampleEnv) firstMatch .init := by decide +kernel
  exact ⟨by decide, (matched_once sampleEnv firstMatch hok).1⟩

/-- Both intents are submitted again after their batch was signed, and the timer matches them again;
and a submission at the clock reading of the signed session takes its place. -/
theorem matched_twice :
    ¬ (run sampleEnv (firstMatch ++ submit (sampleIntent "a" "X" "Y") 102 ++
      submit (sampleIntent "b" "Y" "X") 103 ++ [.tick] ++ answers 1 "u1") .init).matchedIds.Nodup ∧
    (run sampleEnv firstMatch .init).sessions.get? "session-100" = some 0 ∧
    ((run sampleEnv firstMatch .init).heap 0).status = .signed ∧
    (run sampleEnv (firstMatch ++ [.post (sampleIntent "c" "X" "Y") 100 100])
      .init).sessions.get? "session-100" = some 1 := by
  decide +kernel

end ShadePay.Mpc
