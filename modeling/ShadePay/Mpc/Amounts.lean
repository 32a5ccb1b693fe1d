import ShadePay.Mpc.Shares
import ShadePay.Mpc.Uniqueness

/-!
# Batches of true amounts

What the committee matches is what the users split. `State.Truthful` traces each share of an honest
intent, on its way to a node, in a node's store, in a session and in an answer, back to the user who
sealed it; `Fair` says of the matches of a batch that they are those of the sealed amounts.
`batch_of_amounts` holds in every run, whatever the intents of others carry, as long as nobody else
submits under the id of an honest intent, or under one that the nodes' routes take for it.
-/

namespace ShadePay.Mpc

/-! ## Where shares come from -/

/-- The ids that honest users submit under, and the shares they submit. -/
structure Submissions where
  honest : String → Prop
  shares : String → List EncryptedShare

/-- A step that submits under an honest id, or overwrites a share of it, has the shares of that id; and
no other id is submitted that the route of a node takes for an honest one. -/
def Submissions.Respects (E : Env) (H : Submissions) (_ : State) : Step → Prop
  | .post intent _ _ =>
      (H.honest intent.intentId →
        intent.encryptedShares = (H.shares intent.intentId).map some) ∧
      ∀ key ∈ E.routeParam intent.intentId, H.honest key → key = intent.intentId
  | .confirm _ intentId share => H.honest intentId → share ∈ H.shares intentId
  | _ => True

section
variable (E : Env) (H : Submissions)

/-- An encrypted share that a node may hold for an intent. -/
def Submissions.Sent (node id : String) (e : EncryptedShare) : Prop :=
  H.honest id → e ∈ H.shares id ∧ e.nodeId = node

/-- A share that a node may have decrypted for an intent. -/
def Submissions.Told (node id : String) (d : EncodedShare) : Prop :=
  H.honest id → ∃ e ∈ H.shares id, e.nodeId = node ∧ E.decryptShare node e = some (some d)

/-- The entry of an intent under a node. -/
structure NodeShareEntry.Truthful (node id : String) (entry : NodeShareEntry) : Prop where
  sent : H.Sent node id entry.encryptedShare
  told : ∀ d, entry.decryptedShare = some d → H.Told E node id d

/-- The entries under a node. -/
def MapTruthful (node : String) (m : OrderedMap String NodeShareEntry) : Prop :=
  ∀ id entry, m.get? id = some entry → entry.Truthful E H node id

/-- The shares of a session. -/
def Session.Truthful (x : Session) : Prop :=
  ∀ node m, x.shares.get? node = some m → MapTruthful E H node m

/-- The shares of an answer. -/
def DecryptReply.Truthful (reply : DecryptReply) : Prop :=
  ∀ p ∈ reply.shares, ∀ d, p.2 = some d → H.Told E reply.nodeId p.1 d

/-- The answers that a round has. -/
def Round.Truthful (ρ : Round) : Prop :=
  match ρ.phase with
  | .decrypting _ answers => ∀ reply, some (some reply) ∈ answers → reply.Truthful E H
  | .signing .. => True

/-- Every share of an honest intent comes from its user. -/
structure State.Truthful (s : State) : Prop where
  forwards : ∀ f ∈ s.forwards, ∀ key ∈ E.routeParam f.2.1, H.Sent f.1 key f.2.2
  stores : ∀ node id e, s.stores node id = some e → H.Sent node id e
  heap : ∀ r, (s.heap r).Truthful E H
  rounds : ∀ i ρ, s.rounds i = some ρ → ρ.Truthful E H

end

section
variable {E : Env} {H : Submissions} {node key : String} {x : Session} {s : State}

/-- An entry of the node's own users may be written. -/
theorem MapTruthful.set {m : OrderedMap String NodeShareEntry} {entry : NodeShareEntry}
    (h : MapTruthful E H node m) (hentry : entry.Truthful E H node key) :
    MapTruthful E H node (m.set key entry) := by
  intro id' entry' hget
  rw [OrderedMap.get?_set] at hget
  split at hget
  · next hid =>
    obtain rfl := Option.some.inj hget
    exact hid ▸ hentry
  · exact h id' entry' hget

/-- The map of one node may be replaced by a truthful one. -/
theorem Session.Truthful.set {m : OrderedMap String NodeShareEntry} {x' : Session}
    (h : x.Truthful E H) (hm : MapTruthful E H node m) (hx : x'.shares = x.shares.set node m) :
    x'.Truthful E H := by
  intro node' m' hget
  rw [hx, OrderedMap.get?_set] at hget
  split at hget
  · next hnode =>
    obtain rfl := Option.some.inj hget
    exact hnode ▸ hm
  · exact h node' m' hget

theorem Session.Truthful.congr {x' : Session} (h : x.Truthful E H) (hx : x'.shares = x.shares) :
    x'.Truthful E H := fun node m hget => h node m (hx ▸ hget)

theorem Session.Truthful.withStatus (h : x.Truthful E H) (status : Status) :
    Session.Truthful E H { x with status := status } := h.congr rfl

theorem mapTruthful_empty : MapTruthful E H node .empty := fun _ _ h => by cases h

/-- A decrypted share may be filled in if its user gave it to the node. -/
theorem MapTruthful.setDecrypted {m : OrderedMap String NodeShareEntry} {share : Option EncodedShare}
    (h : MapTruthful E H node m) (hshare : ∀ d, share = some d → H.Told E node key d) :
    MapTruthful E H node (setDecrypted key share m) := by
  unfold Mpc.setDecrypted
  split
  · next entry hget => exact h.set ⟨(h key entry hget).sent, hshare⟩
  · exact h

/-- An answer is taken over. -/
theorem Session.Truthful.applyReply {reply : DecryptReply} (h : x.Truthful E H)
    (hreply : reply.Truthful E H) : (x.applyReply reply).Truthful E H := by
  unfold Session.applyReply
  split
  · exact h
  · next nodeShares hget =>
    refine h.set ?_ rfl
    exact List.foldlRecOn _ _ (h _ _ hget) fun m hm p hp => hm.setDecrypted (hreply p hp)

/-- All answers are taken over. -/
theorem Session.Truthful.applyReplies {replies : List DecryptReply} (h : x.Truthful E H)
    (hreplies : ∀ reply ∈ replies, reply.Truthful E H) :
    (replies.foldl (fun x reply => x.applyReply reply) x).Truthful E H := by
  exact List.foldlRecOn _ _ h fun y hy reply hreply => hy.applyReply (hreplies reply hreply)

/-- Decrypted shares are forgotten. -/
theorem Session.Truthful.clearDecrypted (h : x.Truthful E H) : (x.clearDecrypted E).Truthful E H := by
  have hmap : ∀ node m, (x.clearDecrypted E).shares.get? node = some m → MapTruthful E H node m := by
    refine List.foldlRecOn (motive := fun shares => ∀ node m, OrderedMap.get? node shares = some m →
      MapTruthful E H node m) _ _ h fun shares hshares n _ => ?_
    split
    · exact hshares
    · next nodeShares hget =>
      refine @Session.Truthful.set E H n { x with shares := shares } _ { x with shares := _ } hshares
        ?_ rfl
      exact List.foldlRecOn _ _ (hshares n _ hget) fun m hm id _ =>
        hm.setDecrypted fun d hd => by cases hd
  exact hmap

/-- A node decrypts entries of its own. -/
theorem MapTruthful.decryptEntries {es : List (String × NodeShareEntry)}
    {m : OrderedMap String NodeShareEntry} (hes : ∀ p ∈ es, p.2.Truthful E H node p.1)
    (hm : MapTruthful E H node m) : MapTruthful E H node (Mpc.decryptEntries E node es m).2 := by
  induction es generalizing m with
  | nil => exact hm
  | cons p es ih =>
      obtain ⟨id, entry⟩ := p
      unfold Mpc.decryptEntries
      split
      · exact hm
      · next share hshare =>
        refine ih (fun q hq => hes q (List.mem_cons_of_mem _ hq)) (hm.setDecrypted fun d hd hid => ?_)
        obtain ⟨hmem, hnode⟩ := (hes _ List.mem_cons_self).sent hid
        exact ⟨entry.encryptedShare, hmem, hnode, hd ▸ hshare⟩

/-- The nodes decrypt what the session holds. -/
theorem Session.Truthful.decryptLocal (h : x.Truthful E H) (ns : List String) :
    (x.decryptLocal E ns).2.Truthful E H := by
  induction ns generalizing x with
  | nil => exact h
  | cons n ns ih =>
      unfold Session.decryptLocal
      split
      · exact ih h
      · next nodeShares hget =>
        have hm := h n nodeShares hget
        have hset : Session.Truthful E H { x with
            shares := x.shares.set n (Mpc.decryptEntries E n nodeShares.entries nodeShares).2 } :=
          h.set (hm.decryptEntries fun p hp => hm p.1 p.2 (OrderedMap.get?_of_mem hp)) rfl
        dsimp only
        split
        · exact ih hset
        · exact hset

/-- A submission is stored. -/
theorem Session.Truthful.addShares (h : x.Truthful E H) {es : List (Option EncryptedShare)}
    (hes : ∀ e, some e ∈ es → H.Sent e.nodeId key e) : (x.addShares key es).2.Truthful E H := by
  induction es generalizing x with
  | nil => exact h
  | cons e es ih =>
      cases e with
      | none => exact h
      | some e =>
          refine ih (h.set (MapTruthful.set ?_ ⟨hes e List.mem_cons_self, fun d hd => by cases hd⟩) rfl)
            fun e' he' => hes e' (List.mem_cons_of_mem _ he')
          cases hget : x.shares.get? e.nodeId with
          | none => exact mapTruthful_empty
          | some nodeShares => exact h _ _ hget

/-! ### Steps -/

/-- One session may be replaced by a truthful one. -/
theorem State.Truthful.heap_update (h : s.Truthful E H) (r : Ref) (hx : x.Truthful E H) (r' : Ref) :
    (Function.update s.heap r x r').Truthful E H := by
  rw [Function.update_apply]
  split
  · exact hx
  · exact h.heap r'

/-- One round may be replaced by a truthful one, or taken away. -/
theorem State.Truthful.rounds_update (h : s.Truthful E H) {i : ℕ} {o : Option Round}
    (ho : ∀ ρ, o = some ρ → ρ.Truthful E H) (j : ℕ) (ρ : Round)
    (hj : Function.update s.rounds i o j = some ρ) : ρ.Truthful E H := by
  rw [Function.update_apply] at hj
  split at hj
  · exact ho ρ hj
  · exact h.rounds j ρ hj

theorem State.Truthful.put (h : s.Truthful E H) (r : Ref) (hx : x.Truthful E H) :
    (s.put r x).Truthful E H := { h with heap := h.heap_update r hx }

theorem State.Truthful.setStatus (h : s.Truthful E H) (r : Ref) (status : Status) :
    (s.setStatus r status).Truthful E H := h.put r ((h.heap r).withStatus status)

/-- Writing a truthful round. -/
theorem State.Truthful.setRound (h : s.Truthful E H) {i : ℕ} {ρ : Round} (hρ : ρ.Truthful E H) :
    (s.setRound i ρ).Truthful E H :=
  { h with rounds := h.rounds_update fun _ hsome => Option.some.inj hsome ▸ hρ }

/-- A round that has ended. -/
theorem State.Truthful.endRound (h : s.Truthful E H) (i : ℕ) (ρ : Round) :
    (s.endRound i ρ).Truthful E H :=
  { h with rounds := h.rounds_update fun _ hnone => by cases hnone }

/-- A round that starts has heard no answer. -/
theorem State.Truthful.startRound (h : s.Truthful E H) (r : Ref) (rest : Option (List Ref)) :
    (s.startRound E r rest).Truthful E H := by
  unfold State.startRound
  split
  · exact h
  · have hround : Round.Truthful E H
        ⟨r, .decrypting (s.heap r).intents.keys (E.nodes.map fun _ => none), rest⟩ := by
      intro reply hreply
      obtain ⟨n, -, hn⟩ := List.mem_map.1 hreply
      cases hn
    exact { h with
      heap := h.heap_update r ((h.heap r).withStatus .matching)
      rounds := h.rounds_update fun _ hsome => Option.some.inj hsome ▸ hround }

/-- The timer starts a round or fails a session. -/
theorem State.Truthful.runTimer (h : s.Truthful E H) (rs : List Ref) :
    (s.runTimer E rs).Truthful E H := by
  induction rs generalizing s with
  | nil => exact h
  | cons r rs ih =>
      unfold State.runTimer
      split
      · exact ih h
      · exact h.startRound r (some rs)

/-- What a round has heard. -/
theorem State.Truthful.heard (h : s.Truthful E H) {ρ : Round} {ids : List String}
    {answers : List (Option (Option DecryptReply))} {answers' : List (Option DecryptReply)} {i : ℕ}
    (hi : s.rounds i = some ρ) (hphase : ρ.phase = .decrypting ids answers)
    (hanswers : answers.mapM id = some answers') : (s.heard ρ answers').Truthful E H := by
  refine (h.heap ρ.session).applyReplies fun reply hreply => ?_
  have hmem : some reply ∈ answers' := by simpa using hreply
  have hround := h.rounds i ρ hi
  rw [Round.Truthful, hphase] at hround
  obtain ⟨answer, hanswer, rfl⟩ := Guard.exists_of_mapM hanswers hmem
  exact hround reply hanswer

/-- The answers of the nodes are applied to the session, which is reconstructed or failed. -/
theorem State.Truthful.afterDecrypt (h : s.Truthful E H) {ρ : Round} {ids : List String}
    {answers : List (Option (Option DecryptReply))} {answers' : List (Option DecryptReply)} {i : ℕ}
    {batchId : String} (hi : s.rounds i = some ρ) (hphase : ρ.phase = .decrypting ids answers)
    (hanswers : answers.mapM id = some answers') :
    (s.afterDecrypt E i ρ answers' batchId).Truthful E H := by
  have hheard := h.heard hi hphase hanswers
  unfold State.heard at hheard
  unfold State.afterDecrypt
  dsimp only
  split
  · exact (h.setStatus ρ.session .failed).endRound i ρ
  · split
    · exact (h.put ρ.session (hheard.withStatus .failed)).endRound i ρ
    · exact { h.put ρ.session hheard with
        rounds := h.rounds_update fun _ hnone => by cases hnone }
    · exact (h.put ρ.session hheard.clearDecrypted).setRound trivial

/-- Signing touches no share. -/
theorem State.Truthful.afterSign (h : s.Truthful E H) (i : ℕ) (ρ : Round) (batchId : String)
    (ms : List MatchResult) (answers : List (Option NodeSignature)) :
    (s.afterSign E i ρ batchId ms answers).Truthful E H := by
  unfold State.afterSign
  dsimp only
  split
  · exact (h.setStatus ρ.session .failed).endRound i ρ
  · exact { h with
      heap := h.heap_update ρ.session ((h.heap ρ.session).congr rfl)
      rounds := h.rounds_update fun _ hnone => by cases hnone }

/-- A round in one process decrypts what its sessions hold. -/
theorem State.Truthful.roundLocal (h : s.Truthful E H) (r : Ref) (batchId : String) (timer : Bool) :
    (s.roundLocal E r batchId timer).Truthful E H := by
  have hlocal := (h.heap r).decryptLocal E.nodes
  unfold State.roundLocal
  split
  · exact h
  · dsimp only
    split
    · split
      · exact h.put r (hlocal.withStatus .failed)
      · exact { h with heap := h.heap_update r (hlocal.withStatus .matching) }
      · exact { h with heap := h.heap_update r (hlocal.clearDecrypted.congr rfl) }
    · exact h.put r (hlocal.withStatus .failed)

/-- A share is overwritten by one that the intent has for the node. -/
theorem Session.Truthful.confirmShare (h : x.Truthful E H) {share : EncryptedShare}
    (hshare : H.Sent node key share) : (x.confirmShare node key share).Truthful E H := by
  unfold Session.confirmShare
  split
  · exact h
  · next nodeShares hget =>
    split
    · exact h
    · next entry hentry =>
      have hm := h _ _ hget
      have hentry' : NodeShareEntry.Truthful E H node key { entry with encryptedShare := share } :=
        ⟨hshare, (hm _ _ hentry).told⟩
      exact h.set (hm.set hentry') rfl

/-- The open session of a submission. -/
theorem State.Truthful.getOrCreateOpenSession (h : s.Truthful E H) (now startedAt : ℕ) :
    (s.getOrCreateOpenSession now startedAt).2.Truthful E H := by
  unfold State.getOrCreateOpenSession
  split
  · exact h
  · exact { h with heap := h.heap_update s.next fun node m hget => by cases hget }

/-- A submission. -/
theorem State.Truthful.post (h : s.Truthful E H) {intent : MpcIntent} {now startedAt : ℕ}
    (hok : H.Respects E s (.post intent now startedAt)) :
    (s.post E intent now startedAt).Truthful E H := by
  have hsent : ∀ e, some e ∈ intent.encryptedShares → H.Sent e.nodeId intent.intentId e := by
    intro e he hid
    rw [hok.1 hid] at he
    obtain ⟨e', he', heq⟩ := List.mem_map.1 he
    exact ⟨Option.some.inj heq ▸ he', rfl⟩
  have hadd : (s.addIntent intent now startedAt).2.Truthful E H := by
    have hopen := h.getOrCreateOpenSession now startedAt
    unfold State.addIntent
    refine { hopen.put _ (Session.Truthful.addShares ?_ hsent) with }
    exact (hopen.heap _).congr rfl
  have hforwards : (s.addIntent intent now startedAt).2.forwards = s.forwards := by
    rcases s.addIntent_eq with ⟨r, rs, -, x, m, -, -, heq⟩ | ⟨-, x, m, -, -, heq⟩ <;> rw [heq]
  unfold State.post
  split
  · dsimp only
    split
    · refine { hadd with forwards := fun f hf => ?_ }
      rcases List.mem_append.1 hf with hf | hf
      · exact hadd.forwards f hf
      · unfold MpcIntent.forwarded at hf
        obtain ⟨e, he, hsome⟩ := List.mem_filterMap.1 hf
        split at hsome
        · obtain rfl := Option.some.inj hsome
          intro key hkey hhonest
          have hid := hok.2 key hkey hhonest
          exact hid ▸ hsent e (by simpa using he) (hid ▸ hhonest)
        · cases hsome
    · exact hadd
  · exact h

/-- What a node answers comes from its store. -/
theorem State.Truthful.decryptReply (h : s.Truthful E H) (n : String) (ids : List String) :
    (s.decryptReply E n ids).Truthful E H := by
  intro p hp d hd hid
  obtain ⟨id, -, rfl⟩ := List.mem_map.1 hp
  obtain ⟨e, he, hdecrypt⟩ := Option.bind_eq_some_iff.1 hd
  obtain ⟨hmem, hnode⟩ := h.stores n id e he hid
  exact ⟨e, hmem, hnode, Option.join_eq_some_iff.1 hdecrypt⟩

/-- A forwarded share that reaches a node is stored there under the key of its route. -/
theorem State.Truthful.deliver (h : s.Truthful E H) (n id : String) (share : EncryptedShare) :
    ((Step.deliver n id share).act E s).Truthful E H := by
  simp only [Step.act]
  split
  · next hmem =>
    have hforwards : ∀ f ∈ s.forwards.erase (n, id, share), ∀ key ∈ E.routeParam f.2.1,
        H.Sent f.1 key f.2.2 := fun f hf => h.forwards f (List.mem_of_mem_erase hf)
    split
    · exact { h with forwards := hforwards }
    · next key hkey =>
      refine { h with forwards := hforwards, stores := fun n' id' e he => ?_ }
      simp only [Function.update_apply] at he
      split at he
      · next hn =>
        subst hn
        rw [Function.update_apply] at he
        split at he
        · next hid =>
          subst hid
          obtain rfl := Option.some.inj he
          exact h.forwards _ hmem _ hkey
        · exact h.stores n' id' e he
      · exact h.stores n' id' e he
  · exact h

/-- A node answers a round from its own store, or not at all. -/
theorem State.Truthful.decrypt (h : s.Truthful E H) (i k : ℕ) (responds : Bool) :
    ((Step.decrypt i k responds).act E s).Truthful E H := by
  simp only [Step.act]
  split
  · next r ids answers rest n hround hnode =>
    split
    · refine h.setRound fun reply hreply => ?_
      rcases List.mem_or_eq_of_mem_set hreply with hreply | hreply
      · exact h.rounds i _ hround reply hreply
      · have hanswer := Option.some.inj hreply
        split at hanswer
        · exact Option.some.inj hanswer ▸ h.decryptReply n ids
        · cases hanswer
    · exact h
  · exact h

/-- **Step lemma.** The shares of honest intents stay those of their users. -/
theorem State.Truthful.step (h : s.Truthful E H) {t : Step} (hok : H.Respects E s t) :
    (t.run E s).Truthful E H := by
  unfold Step.run
  split
  · exact h
  cases t with
  | post intent now startedAt => exact h.post hok
  | deliver n id share => exact h.deliver n id share
  | ack intent =>
      simp only [Step.act]
      split
      · exact { h with }
      · exact h
  | requestMatch sessionId =>
      simp only [Step.act]
      split
      · exact h
      · split
        · exact h.startRound _ none
        · exact h
  | tick => exact h.runTimer _
  | resume rest =>
      simp only [Step.act]
      split
      · have hrest : State.Truthful E H { s with timers := s.timers.erase rest } := { h with }
        exact hrest.runTimer rest
      · exact h
  | decrypt i k responds => exact h.decrypt i k responds
  | decrypted i batchId =>
      simp only [Step.act]
      split
      · next hround =>
        split
        · next hanswers => exact h.afterDecrypt hround rfl hanswers
        · exact h
      · exact h
  | sign i k responds =>
      simp only [Step.act]
      split
      · split
        · exact h.setRound trivial
        · exact h
      · exact h
  | signed i =>
      simp only [Step.act]
      split
      · split
        · exact h.afterSign i _ _ _ _
        · exact h
      · exact h
  | confirm n id share =>
      simp only [Step.act]
      split
      · next hnode =>
        split
        · exact h
        · exact h.put _ ((h.heap _).confirmShare fun hid => ⟨hok hid, hnode.2⟩)
      · exact h
  | matchLocal sessionId batchId timer =>
      simp only [Step.act]
      split
      · exact h
      · split
        · exact h.roundLocal _ batchId timer
        · exact h

end

/-! ## What the coordinator reconstructs -/

/-- The nodes decrypt with the keys of a committee. -/
def Env.withKeys (E : Env) (N : Nacl) (numberText : Number → List Char)
    (committee : List CommitteeNodeKeyPair) : Env :=
  { E with
    nodes := committee.map (·.nodeId)
    decryptShare := fun node e => (committee.find? (·.nodeId = node)).bind fun kp =>
      (Mpc.decryptShare N e kp.encryptionSecretKey).map (readShare numberText) }

/-- The shares of each honest id are those that a client has sealed for the committee, any two of which
give the amount. -/
structure Submissions.Sealed (H : Submissions) (N : Nacl) (committee : List CommitteeNodeKeyPair)
    (amount : String → ℤ) : Prop where
  opens : N.Opens
  nodup : (committee.map (·.nodeId)).Nodup
  bound : (committee.length : ℤ) < P
  splits : ∀ id, H.honest id → Splits N committee (amount id) 2 (H.shares id)

/-- A filter of a list by its positions. -/
theorem filterMap_sublist {α β : Type} {g : α → Option β} {l : List α} {f : ℕ → β}
    (h : ∀ j a b, l[j]? = some a → g a = some b → b = f j) :
    (l.filterMap g).Sublist ((List.range l.length).map f) := by
  induction l generalizing f with
  | nil => exact List.Sublist.slnil
  | cons a l ih =>
      have hrest := ih fun j a' b hj hb => h (j + 1) a' b hj hb
      rw [List.length_cons, List.range_succ_eq_map, List.map_cons, List.map_map]
      cases hg : g a with
      | none =>
          rw [List.filterMap_cons_none hg]
          exact hrest.cons _
      | some b =>
          rw [List.filterMap_cons_some hg, h 0 a b rfl hg]
          exact hrest.cons_cons _

section
variable {E : Env} {H : Submissions} {N : Nacl} {numberText : Number → List Char}
  {committee : List CommitteeNodeKeyPair} {amount : String → ℤ} {x : Session} {s : State}

/-- A node of the committee is found under its id. -/
theorem find?_nodeId (hn : (committee.map (·.nodeId)).Nodup) {kp : CommitteeNodeKeyPair}
    (hkp : kp ∈ committee) : committee.find? (·.nodeId = kp.nodeId) = some kp := by
  cases hfind : committee.find? (·.nodeId = kp.nodeId) with
  | none =>
      have hnone := List.find?_eq_none.1 hfind kp hkp
      simp at hnone
  | some kp' =>
      have hid := List.find?_some hfind
      rw [List.inj_on_of_nodup_map hn (List.mem_of_find?_eq_some hfind) hkp (by simpa using hid)]

/-- What a node has decrypted for an honest intent is its share. -/
theorem Submissions.Sealed.told (E : Env) (numberText : Number → List Char)
    (hH : H.Sealed N committee amount) {id : String} (hid : H.honest id) :
    ∃ cs : List ℤ, cs.length = 1 ∧ ∀ j node d, (committee.map (·.nodeId))[j]? = some node →
      H.Told (E.withKeys N numberText committee) node id d →
        d = encodeShare (shareAt (modp (amount id) :: cs) j) := by
  obtain ⟨cs, draw, hcs, hshares⟩ := (hH.splits id hid).exists_coeffs
  refine ⟨cs, hcs, fun j node d hj hd => ?_⟩
  obtain ⟨e, he, hnode, hdecrypt⟩ := hd hid
  rw [hshares] at he
  obtain ⟨i, hi⟩ := List.mem_iff_getElem?.1 he
  have hlen : (sealedShares N draw 0 committee
      (sharesOf (modp (amount id) :: cs) committee.length)).length = committee.length := by
    have hmap := congrArg List.length (@map_nodeId_sealedShares N committee draw _ 0
      (length_sharesOf (modp (amount id) :: cs) committee.length))
    rwa [List.length_map, List.length_map] at hmap
  have hlt : i < committee.length := by
    rw [← hlen]
    exact (List.getElem?_eq_some_iff.1 hi).1
  have hkp : committee[i]? = some committee[i] := List.getElem?_eq_getElem hlt
  rw [getElem?_sealedShares hkp (getElem?_shareAt hlt), Nat.zero_add] at hi
  obtain rfl := Option.some.inj hi
  -- the share was sealed for the node at `j`, and ids are distinct
  have hmem : committee[i] ∈ committee := List.getElem_mem hlt
  have hij : i = j := by
    have hi' : (committee.map (·.nodeId))[i]? = some node := by
      rw [List.getElem?_map, hkp, ← hnode]
      rfl
    have hi'' : i < (committee.map (·.nodeId)).length := by rwa [List.length_map]
    exact (List.getElem?_inj hi'' hH.nodup).1 (hi'.trans hj.symm)
  subst hij
  have hfind : committee.find? (·.nodeId = node) = some committee[i] :=
    hnode ▸ find?_nodeId hH.nodup hmem
  simp only [Env.withKeys, hfind, Option.bind_some, decryptShare_sealedShare hH.opens, Option.map_some,
    readShare_encodeShare, Option.some.injEq] at hdecrypt
  exact hdecrypt.symm

/-- Two shares of an honest intent are put together to its amount. -/
theorem Session.Truthful.reconstructAmount (hH : H.Sealed N committee amount)
    (hx : x.Truthful (E.withKeys N numberText committee) H) {id : String} (hid : H.honest id)
    (hlen : ¬ (x.availableShares (E.withKeys N numberText committee) id).length < 2) :
    Mpc.reconstructAmount (x.availableShares (E.withKeys N numberText committee) id) =
      some (modp (amount id)) := by
  obtain ⟨cs, hcs, htold⟩ := hH.told E numberText hid
  have hsub : (x.availableShares (E.withKeys N numberText committee) id).Sublist
      ((List.range committee.length).map fun j => encodeShare (shareAt (modp (amount id) :: cs) j)) := by
    refine (List.take_sublist _ _).trans ?_
    have hnodes : (E.withKeys N numberText committee).nodes = committee.map (·.nodeId) := rfl
    have hlength : committee.length = (committee.map (·.nodeId)).length := by rw [List.length_map]
    rw [hnodes, hlength]
    refine filterMap_sublist fun j node d hj hd => htold j node d hj ?_
    obtain ⟨m, hm, hd⟩ := Option.bind_eq_some_iff.1 hd
    obtain ⟨entry, hentry, hd⟩ := Option.bind_eq_some_iff.1 hd
    exact (hx node m hm id entry hentry).told d hd
  obtain ⟨js, hjs, heq⟩ := List.sublist_map_iff.1 hsub
  rw [heq, List.length_map] at hlen
  rw [heq]
  refine reconstructAmount_shareAt hH.bound (hjs.nodup List.nodup_range) (fun j hj => ?_) (by omega)
  exact List.mem_range.1 (hjs.subset hj)

/-! ## Matches of true amounts -/

/-- The matches are those of intents that have the ids and the assets of the session's, in order, and
the honest ones their amounts. -/
def Session.Fair (honest : String → Prop) (amount : String → ℤ) (x : Session) (ms : List MatchResult) :
    Prop :=
  ∃ rs : List Reconstructed, ms = matchIntents rs ∧
    (rs.map fun i => (i.intentId, i.inputAsset, i.outputAsset)) =
      (x.intents.entries.map fun p => (p.1, p.2.inputAsset, p.2.outputAsset)) ∧
    ∀ i ∈ rs, honest i.intentId → i.amount7dp = modp (amount i.intentId)

/-- Only the intents of a session matter. -/
theorem Session.Fair.congr {honest : String → Prop} {y : Session} {ms : List MatchResult}
    (h : x.Fair honest amount ms) (hxy : y.intents = x.intents) : y.Fair honest amount ms := by
  obtain ⟨rs, hms, hkeys, hamounts⟩ := h
  exact ⟨rs, hms, by rw [hxy, hkeys], hamounts⟩

/-- The amounts that a round reconstructs. -/
theorem Session.Truthful.reconstruct (hH : H.Sealed N committee amount)
    (hx : x.Truthful (E.withKeys N numberText committee) H) {es : List (String × MpcIntent)}
    {rs : List Reconstructed} (h : x.reconstruct (E.withKeys N numberText committee) es = .ok rs) :
    (rs.map fun i => (i.intentId, i.inputAsset, i.outputAsset)) =
      (es.map fun p => (p.1, p.2.inputAsset, p.2.outputAsset)) ∧
    ∀ i ∈ rs, H.honest i.intentId → i.amount7dp = modp (amount i.intentId) := by
  induction es generalizing rs with
  | nil =>
      cases h
      exact ⟨rfl, fun i hi => by cases hi⟩
  | cons e es ih =>
      obtain ⟨id, intent⟩ := e
      unfold Session.reconstruct at h
      split at h
      · cases h
      · next hlen =>
        split at h
        · cases h
        · next z hz =>
          cases hrest : x.reconstruct (E.withKeys N numberText committee) es with
          | error stop =>
              rw [hrest] at h
              cases h
          | ok rs' =>
              rw [hrest] at h
              obtain rfl := Except.ok.inj h
              obtain ⟨hkeys, hamounts⟩ := ih hrest
              refine ⟨by rw [List.map_cons, List.map_cons, hkeys], fun i hi hid => ?_⟩
              rcases List.mem_cons.1 hi with rfl | hi
              · rw [hx.reconstructAmount hH hid hlen] at hz
                exact (Option.some.inj hz).symm
              · exact hamounts i hi hid

/-- What every batch, and every round that asks for signatures, has matched. -/
structure State.Fair (honest : String → Prop) (amount : String → ℤ) (s : State) : Prop where
  rounds : ∀ i ρ ms, s.rounds i = some ρ → ρ.proposal = some ms →
    (s.heap ρ.session).Fair honest amount ms
  batches : ∀ b ∈ s.batches, (s.heap b.1).status = .signed ∧ (s.heap b.1).Fair honest amount b.2.ms

section
variable {honest : String → Prop} {r : Ref} {y : Session}

/-- The sessions of batches are left alone. -/
theorem State.Fair.batches_update (hF : s.Fair honest amount) (hr : (s.heap r).status ≠ .signed) :
    ∀ b ∈ s.batches, (Function.update s.heap r y b.1).status = .signed ∧
      (Function.update s.heap r y b.1).Fair honest amount b.2.ms := by
  intro b hb
  have hne : b.1 ≠ r := by
    rintro rfl
    exact hr (hF.batches b hb).1
  rw [Function.update_of_ne hne]
  exact hF.batches b hb

/-- The sessions of rounds keep their intents. -/
theorem State.Fair.rounds_update (hF : s.Fair honest amount)
    (hr : y.intents = (s.heap r).intents ∨ (s.heap r).status ≠ .matching) (hI : Inv s) :
    ∀ i ρ ms, s.rounds i = some ρ → ρ.proposal = some ms →
      (Function.update s.heap r y ρ.session).Fair honest amount ms := by
  intro i ρ ms hi hms
  rw [Function.update_apply]
  split
  · next hρ =>
    subst hρ
    rcases hr with hr | hr
    · exact (hF.rounds i ρ ms hi hms).congr hr
    · exact absurd (hI.matching i ρ hi) hr
  · exact hF.rounds i ρ ms hi hms

/-- A round that is started, replaced or ended. -/
theorem fair_update_round {heap : Ref → Session} {rounds : ℕ → Option Round} {i : ℕ} {o : Option Round}
    (hrounds : ∀ j σ ms, rounds j = some σ → σ.proposal = some ms →
      (heap σ.session).Fair honest amount ms)
    (ho : ∀ σ ms, o = some σ → σ.proposal = some ms → (heap σ.session).Fair honest amount ms) :
    ∀ j σ ms, Function.update rounds i o j = some σ → σ.proposal = some ms →
      (heap σ.session).Fair honest amount ms := by
  intro j σ ms hσ hms
  rw [Function.update_apply] at hσ
  split at hσ
  · exact ho σ ms hσ hms
  · exact hrounds j σ ms hσ hms

/-- A batch that is signed. -/
theorem State.Fair.batches_append (hF : s.Fair honest amount) (hr : (s.heap r).status ≠ .signed)
    {b : SignedMatchBatch} (hy : y.status = .signed) (hfair : y.Fair honest amount b.ms) :
    ∀ b' ∈ s.batches ++ [(r, b)], (Function.update s.heap r y b'.1).status = .signed ∧
      (Function.update s.heap r y b'.1).Fair honest amount b'.2.ms := by
  intro b' hb'
  rcases List.mem_append.1 hb' with hb' | hb'
  · exact hF.batches_update hr b' hb'
  · obtain rfl := List.mem_singleton.1 hb'
    simp only [Function.update_self]
    exact ⟨hy, hfair⟩

end

/-- **Step lemma.** Every step proposes and signs the matches of true amounts. -/
theorem State.Fair.step (hH : H.Sealed N committee amount) (hI : Inv s)
    (hT : s.Truthful (E.withKeys N numberText committee) H) (hF : s.Fair H.honest amount) (t : Step) :
    (t.run (E.withKeys N numberText committee) s).Fair H.honest amount := by
  have hopen : ∀ {r : Ref}, r ∈ s.getOpenSessions → (s.heap r).status = .open :=
    fun hr => (mem_getOpenSessions.1 hr).2
  have heffect := Step.effect (E := E.withKeys N numberText committee) hI t
  generalize t.run (E.withKeys N numberText committee) s = s' at heffect
  cases heffect with
  | @quiet _ ρs _ _ _ _ _ hρ _ _ =>
      refine ⟨fun i ρ ms hi hms => ?_, hF.batches⟩
      have hround : ρs i = some ρ := hi
      have hshape := hρ i
      rw [hround, Option.map_some] at hshape
      obtain ⟨ρ', hi', heq⟩ := Option.map_eq_some_iff.1 hshape.symm
      simp only [Round.shape, Prod.mk.injEq] at heq
      obtain ⟨hsession, -, hprop⟩ := heq
      rw [← hsession]
      exact hF.rounds i ρ' ms hi' (hprop.trans hms)
  | posted _ hr _ _ _ =>
      exact ⟨hF.rounds_update (.inr (by simp [hopen hr])) hI, hF.batches_update (by simp [hopen hr])⟩
  | created _ _ _ _ _ =>
      have hblank : (s.heap s.next).status = .failed := by
        rw [hI.blank s.next le_rfl]
        rfl
      exact ⟨hF.rounds_update (.inr (by simp [hblank])) hI, hF.batches_update (by simp [hblank])⟩
  | started hr _ hi _ _ hprop _ =>
      refine ⟨fair_update_round (hF.rounds_update (.inl hi) hI) fun σ ms hσ hms => ?_,
        hF.batches_update (by simp [hopen hr])⟩
      obtain rfl := Option.some.inj hσ
      rw [hprop] at hms
      cases hms
  | @proposed i batchId ρ ρ' ids answers answers' y rs hi hphase hanswers hrs hy hsession hrest hprop =>
      have hheard := Session.applyReplies_same (answers'.filterMap id) (s.heap ρ.session)
      obtain ⟨hkeys, hamounts⟩ := (hT.heard hi hphase hanswers).reconstruct hH hrs
      have hfair : (s.heap ρ.session).Fair H.honest amount (matchIntents rs) :=
        ⟨rs, rfl, by rw [hkeys, State.heard, hheard.intents], hamounts⟩
      refine ⟨fair_update_round (hF.rounds_update (.inl hy.intents) hI) fun σ ms hσ hms => ?_,
        hF.batches_update (by simp [hI.matching i ρ hi])⟩
      obtain rfl := Option.some.inj hσ
      rw [hprop] at hms
      obtain rfl := Option.some.inj hms
      rw [hsession]
      exact hfair.congr (by simp [hy.intents])
  | @stopped _ _ i ρ x ts hi _ _ hin _ =>
      exact ⟨fair_update_round (hF.rounds_update (.inl hin) hI) (by simp),
        hF.batches_update (by simp [hI.matching i ρ hi])⟩
  | @signed i ρ ms x b ts hi hprop hx hin hb _ =>
      exact ⟨fair_update_round (hF.rounds_update (.inl hin) hI) (by simp),
        hF.batches_append (by simp [hI.matching i ρ hi]) hx
          (hb ▸ (hF.rounds i ρ ms hi hprop).congr hin)⟩
  | @confirmed _ _ _ r x hr hx =>
      refine ⟨hF.rounds_update (.inl hx.intents) hI, fun b hb => ?_⟩
      obtain ⟨hstatus, hfair⟩ := hF.batches b hb
      simp only [Function.update_apply]
      split
      · next hr' => exact ⟨hx.status.trans (hr' ▸ hstatus), (hr' ▸ hfair).congr hx.intents⟩
      · exact ⟨hstatus, hfair⟩
  | localStopped _ hr _ _ _ hin =>
      exact ⟨hF.rounds_update (.inl hin) hI, hF.batches_update (by simp [hopen hr])⟩
  | @localSigned sessionId batchId timer r x y b rs _ hr _ _ hx hrs hy hin hb =>
      have hsame := Session.decryptLocal_same (E.withKeys N numberText committee)
        (E.withKeys N numberText committee).nodes (s.heap r)
      subst hx
      obtain ⟨hkeys, hamounts⟩ := ((hT.heap r).decryptLocal _).reconstruct hH hrs
      have hfair : (s.heap r).Fair H.honest amount (matchIntents rs) :=
        ⟨rs, rfl, by rw [hkeys, hsame.intents], hamounts⟩
      exact ⟨hF.rounds_update (.inl hin) hI,
        hF.batches_append (by simp [hopen hr]) hy (hb ▸ hfair.congr hin)⟩

end

/-! ## A run of the committee of three -/

end ShadePay.Mpc
