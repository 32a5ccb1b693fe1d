import ShadePay.Api.SignIn

/-!
# Sessions come from signatures

What a step of a request does to the nonces and the sessions (`SignIn.Effect`), and the outline that it
keeps: a nonce is consumed by one request, and a request that goes on after consuming one holds a valid
signature over its message. `session_of_signature` follows for every authenticated request, and
`logout_revokes` says that a token that was logged out never authenticates again.
-/

namespace ShadePay.Api

variable {J : Type} {E : SignInEnv}

/-- The nonce a request has consumed and proved to be signed. -/
def SignIn.signed : SignIn → Option Signed
  | .lookingUp c | .insertingUser c | .insertingWallet c _ | .creatingSession c _
  | .signedIn c _ _ _ | .linkingWallet _ c | .linked _ c => some c
  | _ => none

/-- The session a request was authenticated by. -/
def SignIn.authenticated : SignIn → Option Authenticated
  | .authed a | .addingWallet a _ _ _ _ | .linkingWallet a _ | .linked a _ | .deletingWallet a _
  | .deleted a => some a
  | _ => none

/-- The step is the arrival of a sign-in with the wallet, the nonce and the signature. -/
def Signed.VerifiedBy (E : SignInEnv) (c : Signed) (a : SignInAct) : Prop :=
  ∃ address t, a = .request (.verify c.walletType address c.nonce c.signature) t ∧
    E.normalizeAddress c.walletType address = some c.address

/-! ## Effects -/

/-- The steps that leave nonces and sessions alone. -/
inductive SignIn.Quiet (E : SignInEnv) (d : AuthDb J) : SignIn → SignIn → Prop where
  | stops {l l'} (hs : l'.signed = none) (ha : l'.authenticated = none) (hi : l' ≠ .idle) : Quiet E d l l'
  | authenticates {a l'} (ha : l'.authenticated = some a) (hs : l'.signed = none)
      (hsession : d.sessionFor (E.sha256Hex a.token) a.time = some a.session) : Quiet E d .idle l'
  | finds {c w} (hw : UserWallet.at c.walletType c.address w) :
      Quiet E d (.lookingUp c) (.creatingSession c w)
  | misses {c} : Quiet E d (.lookingUp c) (.insertingUser c)
  | insertsUser {c userId} : Quiet E d (.insertingUser c) (.insertingWallet c userId)
  | insertsWallet {c userId w} (hw : UserWallet.at c.walletType c.address w) :
      Quiet E d (.insertingWallet c userId) (.creatingSession c w)
  | links {a c} : Quiet E d (.linkingWallet a c) (.linked a c)
  | deletes {a walletId} : Quiet E d (.deletingWallet a walletId) (.deleted a)

/-- What a step `a` does. -/
inductive SignIn.Effect (E : SignInEnv) (a : SignInAct) :
    SignIn → AuthDb J → SignIn → AuthDb J → Prop where
  | issue {d walletType asked address} (t : Tick)
      (ha : a = .request (.nonce walletType asked) t)
      (haddress : E.normalizeAddress walletType asked = some address) : Effect E a .idle d
      (.issued walletType address t.random (authMessage walletType address t.random))
      (d.createNonce t.now walletType address t.random (authMessage walletType address t.random)
        (t.appNow + nonceTtl))
  | consume {l l' d} (c : Signed) (hmem : c.row ∈ d.authNonces)
      (husable : c.row.usable c.walletType c.address c.nonce a.tick.now a.tick.locked)
      (hl' : l' = .answered 401 ∨
        E.verifyWalletSignature c.walletType c.address c.row.message c.signature = true ∧
          (l' = .lookingUp c ∧ c.VerifiedBy E a ∨
            ∃ a, l.authenticated = some a ∧ l' = .linkingWallet a c)) :
      Effect E a l d l' (d.markConsumed a.tick.now c.row.id)
  | create {d c w} (t : Tick) (hnew : ∀ s ∈ d.userSessions, s.sessionHash ≠ E.sha256Hex t.random) :
      Effect E a (.creatingSession c w) d
        (.signedIn c w t.random ⟨w.userId, E.sha256Hex t.random, t.appNow + sessionTtl, none⟩)
        { d with userSessions := d.userSessions ++
            [⟨w.userId, E.sha256Hex t.random, t.appNow + sessionTtl, none⟩] }
  | revoke {d} (t : Tick) (token : String) :
      Effect E a .idle d (.loggedOut token) (d.revokeSession t.now (E.sha256Hex token))
  | quiet {l l' d d'} (hnonces : d'.authNonces = d.authNonces)
      (hsessions : d'.userSessions = d.userSessions) (hid : d.nextId ≤ d'.nextId)
      (hquiet : SignIn.Quiet E d l l') : Effect E a l d l' d'

/-- The row `consumeNonce` returns is a usable one. -/
theorem consumeNonce_eq_some {d d' : AuthDb J} {now : ℕ} {walletType : WalletType}
    {address nonce : String} {locked : List ℕ} {pick : ℕ} {r : AuthNonce}
    (h : d.consumeNonce now walletType address nonce locked pick = some (r, d')) :
    r ∈ d.authNonces ∧ r.usable walletType address nonce now locked ∧ d' = d.markConsumed now r.id := by
  simp only [AuthDb.consumeNonce, Option.map_eq_some_iff, Prod.mk.injEq] at h
  obtain ⟨q, hq, rfl, rfl⟩ := h
  have hmem : q ∈ (d.authNonces.filter (AuthNonce.usable walletType address nonce now locked)).filter
      fun r => (d.authNonces.filter (AuthNonce.usable walletType address nonce now locked)).all
        fun q => q.createdAt ≤ r.createdAt := by
    rcases Option.or_eq_some_iff.1 hq with hfind | ⟨-, hhead⟩
    · exact List.mem_of_find?_eq_some hfind
    · exact List.mem_of_head? hhead
  obtain ⟨h1, h2⟩ := List.mem_filter.1 (List.mem_filter.1 hmem).1
  exact ⟨h1, h2, rfl⟩

/-- What `consumeNonce` and `verifyWalletSignature` do, in a sign-in or before a wallet is linked. -/
theorem consumeSigned_effect {walletType : WalletType} {address nonce signature : String}
    {a : SignInAct} {d : AuthDb J} {l : SignIn} {next : Signed → SignIn}
    (hnext : ∀ row, let c : Signed := ⟨walletType, address, nonce, signature, row⟩
      next c = .lookingUp c ∧ c.VerifiedBy E a ∨
        ∃ b, l.authenticated = some b ∧ next c = .linkingWallet b c) :
    l.Effect E a d (consumeSigned E walletType address nonce signature a.tick d next).2
      (consumeSigned E walletType address nonce signature a.tick d next).1 := by
  unfold consumeSigned
  split
  · exact .quiet rfl rfl le_rfl (.stops rfl rfl (by simp))
  · next row d' hrow =>
    obtain ⟨hmem, husable, rfl⟩ := consumeNonce_eq_some hrow
    split
    · next hsig =>
      exact .consume ⟨walletType, address, nonce, signature, row⟩ hmem husable
        (.inr ⟨hsig, hnext row⟩)
    · exact .consume ⟨walletType, address, nonce, signature, row⟩ hmem husable (.inl rfl)

/-- `requireUser` only reads. -/
theorem requireUser_effect {token : Option String} {a : SignInAct} {t : Tick} {d : AuthDb J}
    {next : Authenticated → SignIn} (hnext : ∀ a, (next a).signed = none ∧ next a ≠ .idle ∧
      ((next a).authenticated = none ∨ (next a).authenticated = some a)) :
    SignIn.idle.Effect E a d (requireUser E token t d next).2 (requireUser E token t d next).1 := by
  unfold requireUser
  split
  · exact .quiet rfl rfl le_rfl (.stops rfl rfl (by simp))
  · split
    · exact .quiet rfl rfl le_rfl (.stops rfl rfl (by simp))
    · next s hs =>
      obtain ⟨h1, h2, h3 | h3⟩ := hnext ⟨_, s, t.now⟩
      · exact .quiet rfl rfl le_rfl (.stops h1 h3 h2)
      · exact .quiet rfl rfl le_rfl (.authenticates h3 h1 hs)

/-- The arrival of a request has one of the effects. -/
theorem arrive_effect (t : Tick) (d : AuthDb J) (r : AuthRequest) :
    SignIn.idle.Effect E (.request r t) d (arrive E t d r).2 (arrive E t d r).1 := by
  have hstop : ∀ code, SignIn.idle.Effect E (.request r t) d (.answered code) d := fun _ =>
    .quiet rfl rfl le_rfl (.stops rfl rfl (by simp))
  cases r with
  | nonce walletType address =>
      unfold arrive
      dsimp only
      split
      · exact hstop 400
      · split
        · exact hstop 500
        · next haddress => exact .issue t rfl haddress
  | verify walletType address nonce signature =>
      unfold arrive
      dsimp only
      split
      · exact hstop 400
      · split
        · exact hstop 500
        · next haddress =>
          exact consumeSigned_effect (a := .request (.verify walletType address nonce signature) t)
            fun _ => .inl ⟨rfl, address, t, rfl, haddress⟩
  | logout token =>
      cases token with
      | none => exact hstop 200
      | some token => exact .revoke t token
  | session token => exact requireUser_effect fun _ => ⟨rfl, by simp, .inr rfl⟩
  | addWallet token walletType address nonce signature =>
      refine requireUser_effect fun a => ?_
      split
      · exact ⟨rfl, by simp, .inl rfl⟩
      · exact ⟨rfl, by simp, .inr rfl⟩
  | deleteWallet token walletId => exact requireUser_effect fun _ => ⟨rfl, by simp, .inr rfl⟩
  | syncPrivy auth wallets =>
      unfold arrive
      dsimp only
      split
      · exact hstop 400
      · exact .quiet rfl rfl le_rfl (.stops rfl rfl (by simp))

/-- The row of a new wallet, or a unique violation. -/
theorem insertWallet_effect {c : Signed} {userId : ℕ} {t : Tick} {l' : SignIn} {d d' : AuthDb J}
    (h : (SignIn.insertingWallet c userId).next E d (.exec t) = some (d', l')) :
    (SignIn.insertingWallet c userId).Effect E (.exec t) d l' d' := by
  unfold SignIn.next AuthDb.insertWallet at h
  dsimp only at h
  split at h
  · next w d₁ hw =>
    split at hw
    · cases hw
    · cases hw
      cases h
      exact .quiet rfl rfl (Nat.le_succ _) (.insertsWallet (by simp [UserWallet.at, AuthDb.newWallet]))
  · cases h
    exact .quiet rfl rfl le_rfl (.stops rfl rfl (by simp))

/-- The row of a new session, or a unique violation. -/
theorem createSession_effect {c : Signed} {w : UserWallet} {t : Tick} {l' : SignIn} {d d' : AuthDb J}
    (h : (SignIn.creatingSession c w).next E d (.exec t) = some (d', l')) :
    (SignIn.creatingSession c w).Effect E (.exec t) d l' d' := by
  unfold SignIn.next AuthDb.createSession at h
  dsimp only at h
  split at h
  · next s d₁ hs =>
    split at hs
    · cases hs
    · next hnew =>
      cases hs
      cases h
      exact .create t (by simpa using hnew)
  · cases h
    exact .quiet rfl rfl le_rfl (.stops rfl rfl (by simp))

/-- The check of a wallet that is to be linked. -/
theorem addWallet_effect {a : Authenticated} {walletType : WalletType} {address nonce signature : String}
    {t : Tick} {l' : SignIn} {d d' : AuthDb J}
    (h : (SignIn.addingWallet a walletType address nonce signature).next E d (.exec t) =
      some (d', l')) :
    (SignIn.addingWallet a walletType address nonce signature).Effect E (.exec t) d l' d' := by
  unfold SignIn.next at h
  dsimp only at h
  split at h
  · cases h
    exact .quiet rfl rfl le_rfl (.stops rfl rfl (by simp))
  · next address' _ =>
    have heff : (SignIn.addingWallet a walletType address nonce signature).Effect E (.exec t) d
        (consumeSigned E walletType address' nonce signature t d (.linkingWallet a)).2
        (consumeSigned E walletType address' nonce signature t d (.linkingWallet a)).1 :=
      consumeSigned_effect (a := .exec t) fun _ => .inr ⟨a, rfl, rfl⟩
    obtain ⟨rfl, rfl⟩ := Prod.mk.inj (Option.some.inj h)
    exact heff

/-- Only an idle request starts. -/
theorem idle_of_request {l l' : SignIn} {d d' : AuthDb J} {r : AuthRequest} {t : Tick}
    (h : l.next E d (.request r t) = some (d', l')) : l = .idle := by
  cases l with
  | idle => rfl
  | syncing auth wallets => cases wallets <;> cases h
  | _ => cases h

/-- Every step has one of the effects. -/
theorem next_effect {l l' : SignIn} {d d' : AuthDb J} {a : SignInAct}
    (h : l.next E d a = some (d', l')) : l.Effect E a d l' d' := by
  cases a with
  | request r t =>
      obtain rfl := idle_of_request h
      have heff := arrive_effect (E := E) t d r
      obtain ⟨rfl, rfl⟩ := Prod.mk.inj (Option.some.inj h)
      exact heff
  | exec t =>
      cases l with
      | lookingUp c =>
          unfold SignIn.next at h
          dsimp only at h
          split at h
          · next w hw =>
            cases h
            exact .quiet rfl rfl le_rfl (.finds (List.find?_some hw))
          · cases h
            exact .quiet rfl rfl le_rfl .misses
      | insertingUser c =>
          cases h
          exact .quiet rfl rfl (Nat.le_succ _) .insertsUser
      | insertingWallet c userId => exact insertWallet_effect h
      | creatingSession c w => exact createSession_effect h
      | addingWallet a walletType address nonce signature => exact addWallet_effect h
      | linkingWallet a c =>
          cases h
          exact .quiet rfl rfl (Nat.le_succ _) .links
      | deletingWallet a walletId =>
          cases h
          exact .quiet rfl rfl le_rfl .deletes
      | syncing auth wallets =>
          cases wallets with
          | nil => cases h
          | cons w ws =>
              cases h
              exact .quiet rfl rfl (Nat.le_succ _) (.stops rfl rfl (by simp))
      | idle | answered | issued | signedIn | authed | linked | deleted | loggedOut => cases h

/-! ## The outline -/

/-- The nonces carry their messages and distinct ids, the sessions distinct hashes. -/
structure AuthDb.Sound (d : AuthDb J) : Prop where
  ids : (d.authNonces.map (·.id)).Nodup
  fresh : ∀ r ∈ d.authNonces, r.id < d.nextId
  messages : ∀ r ∈ d.authNonces, r.message = authMessage r.walletType r.address r.nonce
  hashes : (d.userSessions.map (·.sessionHash)).Nodup

/-- The signature is valid for the wallet and the nonce. -/
def Signed.Valid (E : SignInEnv) (c : Signed) : Prop :=
  E.verifyWalletSignature c.walletType c.address (authMessage c.walletType c.address c.nonce)
    c.signature = true

/-- What holds of a request by itself: the nonce it goes on with is consumed, and a session it made
is there, for the user of the wallet. -/
structure SignIn.Fits (E : SignInEnv) (d : AuthDb J) (l : SignIn) : Prop where
  valid : ∀ c ∈ l.signed, c.Valid E
  consumed : ∀ c ∈ l.signed, ∃ r ∈ d.authNonces, r.id = c.row.id ∧ r.consumedAt ≠ none
  wallet : ∀ c w, l = .creatingSession c w → UserWallet.at c.walletType c.address w
  session : ∀ c w token s, l = .signedIn c w token s → UserWallet.at c.walletType c.address w ∧
    s.userId = w.userId ∧ s.sessionHash = E.sha256Hex token ∧
      ∃ r ∈ d.userSessions, r.sessionHash = E.sha256Hex token

/-- No nonce is consumed by two requests. -/
def SignIn.Apart (l m : SignIn) : Prop :=
  ∀ c ∈ l.signed, ∀ c' ∈ m.signed, c.row.id ≠ c'.row.id

/-- A request that has verified no signature yet fits every database. -/
theorem SignIn.Fits.of_signed_none {d : AuthDb J} {l : SignIn} (h : l.signed = none) : l.Fits E d where
  valid c hc := by simp [h] at hc
  consumed c hc := by simp [h] at hc
  wallet c w hl := by simp [hl, SignIn.signed] at h
  session c w token s hl := by simp [hl, SignIn.signed] at h

/-- The `update` of `consumeNonce` on the ids. -/
theorem ids_markConsumed {d : AuthDb J} {now id : ℕ} :
    (d.markConsumed now id).authNonces.map (·.id) = d.authNonces.map (·.id) :=
  Table.map_update fun _ _ _ => rfl

/-- A consumed row stays one. -/
theorem consumed_markConsumed {d : AuthDb J} {now id k : ℕ}
    (h : ∃ r ∈ d.authNonces, r.id = k ∧ r.consumedAt ≠ none) :
    ∃ r ∈ (d.markConsumed now id).authNonces, r.id = k ∧ r.consumedAt ≠ none := by
  obtain ⟨r, hr, hid, hc⟩ := h
  refine ⟨_, Table.mem_update.2 ⟨r, hr, rfl⟩, ?_⟩
  split
  · exact ⟨hid, by simp⟩
  · exact ⟨hid, hc⟩

/-- A nonce that was consumed stays so. -/
theorem consumed_step {a : SignInAct} {l l' : SignIn} {d d' : AuthDb J} {k : ℕ} (h : l.Effect E a d l' d')
    (hk : ∃ r ∈ d.authNonces, r.id = k ∧ r.consumedAt ≠ none) :
    ∃ r ∈ d'.authNonces, r.id = k ∧ r.consumedAt ≠ none := by
  cases h with
  | issue t =>
      obtain ⟨r, hr, hrest⟩ := hk
      exact ⟨r, List.mem_append_left _ hr, hrest⟩
  | consume => exact consumed_markConsumed hk
  | create | revoke => exact hk
  | quiet hnonces => rwa [hnonces]

/-- Sessions are never deleted. -/
theorem hash_step {a : SignInAct} {l l' : SignIn} {d d' : AuthDb J} {hash : String} (h : l.Effect E a d l' d')
    (hk : ∃ r ∈ d.userSessions, r.sessionHash = hash) :
    ∃ r ∈ d'.userSessions, r.sessionHash = hash := by
  obtain ⟨r, hr, hhash⟩ := hk
  cases h with
  | issue | consume => exact ⟨r, hr, hhash⟩
  | create => exact ⟨r, List.mem_append_left _ hr, hhash⟩
  | revoke t token =>
      refine ⟨_, Table.mem_update.2 ⟨r, hr, rfl⟩, ?_⟩
      split <;> exact hhash
  | quiet _ hsessions => exact ⟨r, hsessions.symm ▸ hr, hhash⟩

/-- The keys and the nonces of the tables stay sound at every step. -/
theorem AuthDb.Sound.step {a : SignInAct} {l l' : SignIn} {d d' : AuthDb J} (hd : d.Sound) (h : l.Effect E a d l' d') :
    d'.Sound := by
  cases h with
  | issue t =>
      refine ⟨?_, ?_, ?_, hd.hashes⟩
      · have hnot : d.nextId ∉ d.authNonces.map (·.id) := by
          intro hm
          obtain ⟨r, hr, he⟩ := List.mem_map.1 hm
          exact absurd he (hd.fresh r hr).ne
        simpa [AuthDb.createNonce, List.nodup_append, hd.ids] using fun r hr he =>
          hnot (List.mem_map.2 ⟨r, hr, he⟩)
      · intro r hr
        rcases List.mem_append.1 hr with hr | hr
        · exact lt_trans (hd.fresh r hr) (Nat.lt_succ_self _)
        · obtain rfl := List.mem_singleton.1 hr
          exact Nat.lt_succ_self _
      · intro r hr
        rcases List.mem_append.1 hr with hr | hr
        · exact hd.messages r hr
        · obtain rfl := List.mem_singleton.1 hr
          rfl
  | consume c hmem husable hl' =>
      refine ⟨ids_markConsumed.symm ▸ hd.ids, ?_, ?_, hd.hashes⟩
      · intro r hr
        obtain ⟨q, hq, rfl⟩ := Table.mem_update.1 hr
        split <;> exact hd.fresh q hq
      · intro r hr
        obtain ⟨q, hq, rfl⟩ := Table.mem_update.1 hr
        split <;> exact hd.messages q hq
  | create t hnew =>
      refine ⟨hd.ids, hd.fresh, hd.messages, ?_⟩
      simpa [List.nodup_append, hd.hashes] using hnew
  | revoke t token =>
      refine ⟨hd.ids, hd.fresh, hd.messages, ?_⟩
      have : (d.revokeSession t.now (E.sha256Hex token)).userSessions.map (·.sessionHash) =
          d.userSessions.map (·.sessionHash) := Table.map_update fun _ _ _ => rfl
      exact this ▸ hd.hashes
  | quiet hnonces hsessions hid hquiet =>
      exact ⟨hnonces ▸ hd.ids, fun r hr => lt_of_lt_of_le (hd.fresh r (hnonces ▸ hr)) hid,
        fun r hr => hd.messages r (hnonces ▸ hr), hsessions ▸ hd.hashes⟩

/-- What `usable` says. -/
theorem AuthNonce.usable_iff {walletType : WalletType} {address nonce : String} {now : ℕ}
    {locked : List ℕ} {r : AuthNonce} : r.usable walletType address nonce now locked ↔
      r.walletType = walletType ∧ r.address = address ∧ r.nonce = nonce ∧ r.consumedAt = none ∧
        now < r.expiresAt ∧ r.id ∉ locked := by
  simp [AuthNonce.usable, and_assoc]

/-- What a request knows of its nonce stays true at its own steps. -/
theorem SignIn.Fits.step {a : SignInAct} {l l' : SignIn} {d d' : AuthDb J} (hd : d.Sound) (hl : l.Fits E d)
    (h : l.Effect E a d l' d') : l'.Fits E d' := by
  have hkeep := fun {k} => consumed_step (k := k) h
  cases h with
  | issue t => exact .of_signed_none rfl
  | consume c hmem husable hl' =>
      rcases hl' with rfl | ⟨hsig, hnext⟩
      · exact .of_signed_none rfl
      · obtain ⟨hw, ha, hn, -, -, -⟩ := AuthNonce.usable_iff.1 husable
        have hvalid : c.Valid E := by
          rw [hd.messages _ hmem, hw, ha, hn] at hsig
          exact hsig
        have hrow : ∃ r ∈ (d.markConsumed a.tick.now c.row.id).authNonces,
            r.id = c.row.id ∧ r.consumedAt ≠ none :=
          ⟨_, Table.mem_update.2 ⟨c.row, hmem, rfl⟩, by simp⟩
        have hsigned : l'.signed = some c := by
          rcases hnext with ⟨rfl, -⟩ | ⟨b, -, rfl⟩ <;> rfl
        refine ⟨?_, ?_, ?_, ?_⟩
        · intro c' hc'
          obtain rfl : c = c' := by simpa [hsigned] using hc'
          exact hvalid
        · intro c' hc'
          obtain rfl : c = c' := by simpa [hsigned] using hc'
          exact hrow
        · rintro c' w rfl
          rcases hnext with ⟨h, -⟩ | ⟨b, -, h⟩ <;> cases h
        · rintro c' w token s rfl
          rcases hnext with ⟨h, -⟩ | ⟨b, -, h⟩ <;> cases h
  | @create _ c w t hnew =>
      refine ⟨hl.valid, fun c' hc' => hkeep (hl.consumed c' hc'), ?_, ?_⟩
      · rintro _ _ ⟨⟩
      · rintro _ _ _ _ ⟨⟩
        exact ⟨hl.wallet c w rfl, rfl, rfl, _, List.mem_append_right _ (List.mem_singleton_self _), rfl⟩
  | revoke => exact .of_signed_none rfl
  | quiet hnonces hsessions hid hquiet =>
      cases hquiet with
      | stops hs ha hi => exact .of_signed_none hs
      | authenticates ha hs => exact .of_signed_none hs
      | finds hw | insertsWallet hw =>
          refine ⟨hl.valid, fun c' hc' => hkeep (hl.consumed c' hc'), ?_, ?_⟩
          · rintro _ _ ⟨⟩
            exact hw
          · rintro _ _ _ _ ⟨⟩
      | misses | insertsUser | links =>
          refine ⟨hl.valid, fun c' hc' => hkeep (hl.consumed c' hc'), ?_, ?_⟩
          · rintro _ _ ⟨⟩
          · rintro _ _ _ _ ⟨⟩
      | deletes => exact .of_signed_none rfl

/-- **The outline.** Nonces and sessions are sound, requests fit them, and no two go on with one nonce. -/
theorem signInOutline (E : SignInEnv) : Interleave.Outline (SignIn.next (J := J) E)
    (fun d => d.Sound) (fun d l => l.Fits E d) SignIn.Apart where
  symm h c hc c' hc' he := h c' hc' c hc he.symm
  own hd hl hnext := ⟨hd.step (next_effect hnext), hl.step hd (next_effect hnext)⟩
  other {l m d a d' l'} hd hl hm hap hnext := by
    have heff := next_effect hnext
    refine ⟨⟨hm.valid, fun c hc => consumed_step heff (hm.consumed c hc), hm.wallet, ?_⟩, ?_⟩
    · intro c w token s hsigned
      obtain ⟨h1, h2, h3, hrow⟩ := hm.session c w token s hsigned
      exact ⟨h1, h2, h3, hash_step heff hrow⟩
    intro c hc c' hc'
    cases heff with
    | issue | revoke => simp [SignIn.signed] at hc
    | consume c₀ hmem husable hl' =>
        rcases hl' with rfl | ⟨-, hnext'⟩
        · simp [SignIn.signed] at hc
        · obtain rfl : c₀ = c := by
            rcases hnext' with ⟨rfl, -⟩ | ⟨b, -, rfl⟩ <;> simpa [SignIn.signed] using hc
          -- the row was not consumed, and the other request's was
          rintro he
          obtain ⟨r, hr, hid, hcons⟩ := hm.consumed c' hc'
          obtain rfl := Table.eq_of_key hd.ids hr hmem (hid.trans he.symm)
          exact hcons (AuthNonce.usable_iff.1 husable).2.2.2.1
    | create => exact hap c hc c' hc'
    | quiet hnonces hsessions hid hquiet =>
        cases hquiet with
        | stops hs => simp [hs] at hc
        | authenticates ha hs => simp [hs] at hc
        | finds | misses | insertsUser | insertsWallet | links => exact hap c hc c' hc'
        | deletes => simp [SignIn.signed] at hc

/-! ## Whole runs -/

section
variable {ι : Type}

/-- The invariant holds before the first request. -/
theorem AuthSystem.Start.holds {s : AuthSystem ι J} (hstart : s.Start) :
    Interleave.Holds (fun d : AuthDb J => d.Sound) (fun d l => l.Fits E d) SignIn.Apart s where
  shared := by
    refine ⟨?_, ?_, ?_, ?_⟩ <;> simp [hstart.authNonces, hstart.userSessions]
  loc i := .of_signed_none (by rw [hstart.idle i]; rfl)
  pair i j _ c hc := by simp [hstart.idle i, SignIn.signed] at hc

/-- The row comes from a request that signed in; only `revoked_at` may have changed since. -/
def Made (s : AuthSystem ι J) (u : UserSession) : Prop :=
  ∃ j c w token u₀, s.loc j = .signedIn c w token u₀ ∧ u.userId = u₀.userId ∧
    u.sessionHash = u₀.sessionHash ∧ u.expiresAt = u₀.expiresAt

/-- Every session, and every one that authenticated a request, comes from a request that signed in. -/
structure Traced (E : SignInEnv) (s : AuthSystem ι J) : Prop where
  sessions : ∀ u ∈ s.shared.userSessions, Made s u
  authed : ∀ i, ∀ a ∈ (s.loc i).authenticated, Made s a.session ∧
    a.session.sessionHash = E.sha256Hex a.token ∧ a.time < a.session.expiresAt

/-- Before the first request there is nothing to trace. -/
theorem AuthSystem.Start.traced {s : AuthSystem ι J} (hstart : s.Start) : Traced E s where
  sessions u hu := by simp [hstart.userSessions] at hu
  authed i a ha := by simp [hstart.idle i, SignIn.authenticated] at ha

variable [DecidableEq ι]

/-- A request that signed in takes no more steps. -/
theorem loc_of_signedIn {s s' : AuthSystem ι J} {e : ι × SignInAct} {j : ι} {c : Signed}
    {w : UserWallet} {token : String} {u : UserSession} (hj : s.loc j = .signedIn c w token u)
    (hstep : Interleave.step (SignIn.next E) s e = some s') : s'.loc j = .signedIn c w token u := by
  obtain ⟨i, a⟩ := e
  obtain ⟨d, l, hprog, rfl⟩ := Interleave.step_eq_some hstep
  rcases eq_or_ne j i with rfl | hne
  · rw [hj] at hprog
    cases hprog
  · exact (Function.update_of_ne hne _ _).trans hj

/-- A session that was made by a sign-in stays so. -/
theorem Made.step {s s' : AuthSystem ι J} {e : ι × SignInAct} {u : UserSession} (h : Made s u)
    (hstep : Interleave.step (SignIn.next E) s e = some s') : Made s' u := by
  obtain ⟨j, c, w, token, u₀, hj, hrest⟩ := h
  exact ⟨j, c, w, token, u₀, loc_of_signedIn hj hstep, hrest⟩

/-- A session that is found has the hash, is not revoked and not expired. -/
theorem sessionFor_eq_some {d : AuthDb J} {hash : String} {now : ℕ} {u : UserSession}
    (h : d.sessionFor hash now = some u) :
    u ∈ d.userSessions ∧ u.sessionHash = hash ∧ u.revokedAt = none ∧ now < u.expiresAt := by
  have hlive := List.find?_some h
  simp only [UserSession.live, Bool.and_eq_true, decide_eq_true_eq] at hlive
  exact ⟨List.mem_of_find?_eq_some h, hlive.1.1, hlive.1.2, hlive.2⟩

/-- A request is authenticated by the session its arrival finds, and stays so. -/
theorem authenticated_step {l l' : SignIn} {d d' : AuthDb J} {act : SignInAct}
    {a : Authenticated} (h : l.Effect E act d l' d') (ha : l'.authenticated = some a) :
    l.authenticated = some a ∨ d.sessionFor (E.sha256Hex a.token) a.time = some a.session := by
  cases h with
  | issue | create | revoke => cases ha
  | consume c hmem husable hl' =>
      rcases hl' with rfl | ⟨-, ⟨rfl, -⟩ | ⟨b, hb, rfl⟩⟩
      · cases ha
      · cases ha
      · exact .inl (hb.trans ha)
  | quiet hnonces hsessions hid hquiet =>
      cases hquiet with
      | stops _ hnone => simp [hnone] at ha
      | authenticates hsome _ hsession =>
          obtain rfl := Option.some.inj (hsome.symm.trans ha)
          exact .inr hsession
      | finds | misses | insertsUser | insertsWallet => cases ha
      | links | deletes => exact .inl ha

/-- The sessions after a step are the old ones, up to `revoked_at`, and the one it makes. -/
theorem session_step {a : SignInAct} {l l' : SignIn} {d d' : AuthDb J} {u : UserSession} (h : l.Effect E a d l' d')
    (hu : u ∈ d'.userSessions) :
    (∃ v ∈ d.userSessions, u.userId = v.userId ∧ u.sessionHash = v.sessionHash ∧
      u.expiresAt = v.expiresAt) ∨ ∃ c w token, l' = .signedIn c w token u := by
  cases h with
  | issue | consume => exact .inl ⟨u, hu, rfl, rfl, rfl⟩
  | @create _ c w t hnew =>
      rcases List.mem_append.1 hu with hu | hu
      · exact .inl ⟨u, hu, rfl, rfl, rfl⟩
      · obtain rfl := List.mem_singleton.1 hu
        exact .inr ⟨c, w, t.random, rfl⟩
  | revoke t token =>
      obtain ⟨v, hv, rfl⟩ := Table.mem_update.1 hu
      refine .inl ⟨v, hv, ?_⟩
      split <;> exact ⟨rfl, rfl, rfl⟩
  | quiet _ hsessions => exact .inl ⟨u, hsessions ▸ hu, rfl, rfl, rfl⟩

/-- A step stores sessions of a sign-in only, and signs in by such a session only. -/
theorem Traced.step {s s' : AuthSystem ι J} {e : ι × SignInAct} (h : Traced E s)
    (hstep : Interleave.step (SignIn.next E) s e = some s') : Traced E s' := by
  have hmade := fun {u} (hu : Made s u) => hu.step hstep
  obtain ⟨i, a⟩ := e
  obtain ⟨d, l, hprog, rfl⟩ := Interleave.step_eq_some hstep
  have heff := next_effect hprog
  refine ⟨fun u hu => ?_, fun j b hb => ?_⟩
  · rcases session_step heff hu with ⟨v, hv, huser, hhash, hexp⟩ | ⟨c, w, token, rfl⟩
    · obtain ⟨k, c, w, token, u₀, hk, h1, h2, h3⟩ := hmade (h.sessions v hv)
      exact ⟨k, c, w, token, u₀, hk, huser.trans h1, hhash.trans h2, hexp.trans h3⟩
    · exact ⟨i, c, w, token, u, Function.update_self .., rfl, rfl, rfl⟩
  · rcases eq_or_ne j i with rfl | hne
    · rcases authenticated_step heff ((congrArg _ (Function.update_self ..)).symm.trans hb) with
        hold | hfound
      · obtain ⟨h1, hrest⟩ := h.authed j b hold
        exact ⟨hmade h1, hrest⟩
      · obtain ⟨hmem, hhash, -, hexp⟩ := sessionFor_eq_some hfound
        exact ⟨hmade (h.sessions _ hmem), hhash, hexp⟩
    · obtain ⟨h1, hrest⟩ := h.authed j b ((congrArg _ (Function.update_of_ne hne ..)).symm.trans hb)
      exact ⟨hmade h1, hrest⟩

/-- Every session of a run was made by a sign-in. -/
theorem traced_of_run {s₀ s : AuthSystem ι J} {es : List (ι × SignInAct)} (hstart : s₀.Start)
    (hrun : Interleave.run (SignIn.next E) s₀ es = some s) : Traced E s :=
  Interleave.run_induction (motive := fun _ s => Traced E s) hstart.traced
    (fun _ hs hstep => hs.step hstep) hrun

/-! ### The nonces of the sessions -/

/-- The signed nonce of a sign-in under way or done. -/
def SignIn.signingIn : SignIn → Option Signed
  | .lookingUp c | .insertingUser c | .insertingWallet c _ | .creatingSession c _
  | .signedIn c _ _ _ => some c
  | _ => none

/-- A request that is about to sign in has verified its signature. -/
theorem signed_of_signingIn {l : SignIn} {c : Signed} (h : l.signingIn = some c) :
    l.signed = some c := by
  cases l <;> first | exact h | cases h

/-- The step is the arrival of a request for a nonce, which the row answers. -/
def AuthNonce.IssuedBy (E : SignInEnv) (r : AuthNonce) (a : SignInAct) : Prop :=
  ∃ address t, a = .request (.nonce r.walletType address) t ∧
    E.normalizeAddress r.walletType address = some r.address ∧ r.nonce = t.random ∧
    r.message = authMessage r.walletType r.address r.nonce ∧ r.expiresAt = t.appNow + nonceTtl

/-- Request `j` of the run came to sign in with `c`: it arrived with the signature when the nonce, which
the run had issued for the wallet, was neither consumed nor expired. -/
def Signed.ConsumedBy (E : SignInEnv) (s₀ : AuthSystem ι J) (es : List (ι × SignInAct)) (j : ι)
    (c : Signed) : Prop :=
  ∃ es₁ a es₂ s₁, es = es₁ ++ (j, a) :: es₂ ∧ Interleave.run (SignIn.next E) s₀ es₁ = some s₁ ∧
    (∃ e ∈ es₁, c.row.IssuedBy E e.2) ∧ c.VerifiedBy E a ∧ c.row ∈ s₁.shared.authNonces ∧
    c.row.walletType = c.walletType ∧ c.row.address = c.address ∧ c.row.nonce = c.nonce ∧
    c.row.consumedAt = none ∧ a.tick.now < c.row.expiresAt

omit [DecidableEq ι] in
/-- A sign-in goes on with the nonce it consumed on its arrival. -/
theorem signingIn_step {l l' : SignIn} {d d' : AuthDb J} {a : SignInAct} {c : Signed}
    (h : l.Effect E a d l' d') (hc : l'.signingIn = some c) :
    l.signingIn = some c ∨ c.VerifiedBy E a ∧ c.row ∈ d.authNonces ∧
      c.row.usable c.walletType c.address c.nonce a.tick.now a.tick.locked := by
  cases h with
  | issue | revoke => cases hc
  | consume c₀ hmem husable hl' =>
      rcases hl' with rfl | ⟨-, ⟨rfl, hby⟩ | ⟨b, -, rfl⟩⟩
      · cases hc
      · obtain rfl : c₀ = c := Option.some.inj hc
        exact .inr ⟨hby, hmem, husable⟩
      · cases hc
  | create => exact .inl hc
  | quiet hnonces hsessions hid hquiet =>
      cases hquiet with
      | stops hnone | authenticates _ hnone => simp [signed_of_signingIn hc] at hnone
      | finds | misses | insertsUser | insertsWallet => exact .inl hc
      | links | deletes => cases hc

/-- The nonces after a step are the old ones, up to `consumed_at`, and the one it issues. -/
theorem nonce_step {l l' : SignIn} {d d' : AuthDb J} {a : SignInAct} {r : AuthNonce}
    (h : l.Effect E a d l' d') (hr : r ∈ d'.authNonces) :
    (∃ q ∈ d.authNonces, r = { q with consumedAt := r.consumedAt }) ∨ r.IssuedBy E a := by
  cases h with
  | @issue _ _ asked _ t ha haddress =>
      rcases List.mem_append.1 hr with hr | hr
      · exact .inl ⟨r, hr, rfl⟩
      · obtain rfl := List.mem_singleton.1 hr
        exact .inr ⟨asked, t, ha, haddress, rfl, rfl, rfl⟩
  | consume =>
      obtain ⟨q, hq, rfl⟩ := Table.mem_update.1 hr
      refine .inl ⟨q, hq, ?_⟩
      split <;> rfl
  | create | revoke => exact .inl ⟨r, hr, rfl⟩
  | quiet hnonces => exact .inl ⟨r, hnonces ▸ hr, rfl⟩

/-- Every nonce of the table was issued by the run. -/
theorem issued_of_run {s₀ s : AuthSystem ι J} {es : List (ι × SignInAct)} (hstart : s₀.Start)
    (hrun : Interleave.run (SignIn.next E) s₀ es = some s) :
    ∀ r ∈ s.shared.authNonces, ∃ e ∈ es, r.IssuedBy E e.2 := by
  refine Interleave.run_induction (motive := fun es s => ∀ r ∈ s.shared.authNonces,
    ∃ e ∈ es, r.IssuedBy E e.2) ?_ ?_ hrun
  · intro r hr
    simp [hstart.authNonces] at hr
  · rintro es s e s' - ih hstep r hr
    obtain ⟨d, l, hprog, rfl⟩ := Interleave.step_eq_some hstep
    rcases nonce_step (next_effect hprog) hr with ⟨q, hq, hrq⟩ | hby
    · obtain ⟨e', he', address, t, hact, hrest⟩ := ih q hq
      refine ⟨e', List.mem_append_left _ he', address, t, ?_⟩
      rw [hrq]
      exact ⟨hact, hrest⟩
    · exact ⟨e, List.mem_append_right _ (List.mem_singleton_self e), hby⟩

/-- A longer run consumed what its beginning did. -/
theorem Signed.ConsumedBy.append {s₀ : AuthSystem ι J} {es : List (ι × SignInAct)} {j : ι}
    {c : Signed} (h : c.ConsumedBy E s₀ es j) (fs : List (ι × SignInAct)) :
    c.ConsumedBy E s₀ (es ++ fs) j := by
  obtain ⟨es₁, a, es₂, s₁, rfl, hrest⟩ := h
  exact ⟨es₁, a, es₂ ++ fs, s₁, by rw [List.append_assoc, List.cons_append], hrest⟩

/-- A sign-in consumed its nonce when it was usable. -/
theorem consumedBy_of_run {s₀ s : AuthSystem ι J} {es : List (ι × SignInAct)} (hstart : s₀.Start)
    (hrun : Interleave.run (SignIn.next E) s₀ es = some s) :
    ∀ j, ∀ c ∈ (s.loc j).signingIn, c.ConsumedBy E s₀ es j := by
  refine Interleave.run_induction (motive := fun es s => ∀ j, ∀ c ∈ (s.loc j).signingIn,
    c.ConsumedBy E s₀ es j) ?_ ?_ hrun
  · intro j c hc
    simp [hstart.idle j, SignIn.signingIn] at hc
  · rintro es s ⟨i, a⟩ s' hes ih hstep j c hc
    obtain ⟨d, l, hprog, rfl⟩ := Interleave.step_eq_some hstep
    rcases eq_or_ne j i with rfl | hne
    · rcases signingIn_step (next_effect hprog) ((congrArg _ (Function.update_self ..)).symm.trans hc)
        with hold | ⟨hby, hmem, husable⟩
      · exact (ih j c hold).append _
      · obtain ⟨hw, ha, hn, hfree, htime, -⟩ := AuthNonce.usable_iff.1 husable
        exact ⟨es, a, [], s, rfl, hes, issued_of_run hstart hes _ hmem, hby, hmem, hw, ha, hn, hfree,
          htime⟩
    · exact (ih j c ((congrArg _ (Function.update_of_ne hne ..)).symm.trans hc)).append _

/-- **Sessions come from signatures.** A request that `requireUser` let through, as the user `userId`,
came with the token of a session that another request made before it: one that consumed a nonce, which
the run had issued for its wallet and which was neither consumed nor expired then, showed a valid
signature over the message of that nonce, and found or made the row of that wallet, which belonged to
`userId`. The session had not expired, and no other request of the run went on with that nonce. -/
theorem session_of_signature {s₀ s : AuthSystem ι J} {es : List (ι × SignInAct)} (hstart : s₀.Start)
    (hrun : Interleave.run (SignIn.next E) s₀ es = some s) {i : ι} {a : Authenticated}
    (ha : (s.loc i).authenticated = some a) :
    ∃ j c w token u, s.loc j = .signedIn c w token u ∧ E.sha256Hex token = E.sha256Hex a.token ∧
      a.session.userId = w.userId ∧ w.walletType = c.walletType ∧ w.address = c.address ∧
      E.verifyWalletSignature c.walletType c.address (authMessage c.walletType c.address c.nonce)
        c.signature = true ∧ c.ConsumedBy E s₀ es j ∧ a.time < u.expiresAt ∧
      ∀ k ≠ j, ∀ c' ∈ (s.loc k).signed, c'.row.id ≠ c.row.id := by
  have hholds := (signInOutline E).run hstart.holds hrun
  obtain ⟨⟨j, c, w, token, u, hj, huser, hhash, hexp⟩, htoken, htime⟩ :=
    (traced_of_run hstart hrun).authed i a ha
  have hfits := hholds.loc j
  obtain ⟨hw, huw, htok, -⟩ := hfits.session c w token u hj
  have hc : (s.loc j).signed = some c := by rw [hj]; rfl
  have hconsumed := consumedBy_of_run hstart hrun j c (by rw [hj]; rfl)
  simp only [UserWallet.at, Bool.and_eq_true, decide_eq_true_eq] at hw
  refine ⟨j, c, w, token, u, hj, ?_, huser.trans huw, hw.1, hw.2, hfits.valid c hc, hconsumed,
    hexp ▸ htime, ?_⟩
  · rw [← htok, ← hhash, htoken]
  · exact fun k hk c' hc' he => hholds.pair k j hk c' hc' c hc he

/-- A wallet that signs with one signature. -/
def aliceEnv : SignInEnv where
  getAddress := some
  verifyMessage _ signature := if signature = "0xsigned" then some "0xAlice" else none
  keypairVerify _ _ _ := some false
  fromBase64 _ := []
  sha256Hex token := "sha256:" ++ token

/-- Nothing has happened yet. -/
def noRequests : AuthSystem ℕ Unit := ⟨⟨⟨[], [], [], 0⟩, [], [], []⟩, fun _ => .idle⟩

theorem noRequests_start : noRequests.Start := ⟨rfl, rfl, fun _ => rfl⟩

/-- Request 0 gets a nonce, and request 1 signs in with it. -/
def aliceSignsIn : List (ℕ × SignInAct) :=
  [(0, .request (.nonce .evm "0xAlice") ⟨1, 1, 0, [], "n0"⟩),
    (1, .request (.verify .evm "0xAlice" "n0" "0xsigned") ⟨2, 2, 0, [], ""⟩),
    (1, .exec ⟨3, 3, 0, [], ""⟩), (1, .exec ⟨4, 4, 0, [], ""⟩), (1, .exec ⟨5, 5, 0, [], ""⟩),
    (1, .exec ⟨6, 6, 0, [], "t0"⟩)]

/-- Request 2 comes with the token. -/
def aliceReturns : ℕ × SignInAct := (2, .request (.session (some "t0")) ⟨7, 7, 0, [], ""⟩)

/-- The session of the token. -/
def aliceSession : UserSession := ⟨1, "sha256:t0", 6 + sessionTtl, none⟩

/-- Alice signs in and comes back with her token. -/
theorem session_of_signature_alice : ∃ j c w token u,
    (∃ s, Interleave.run (SignIn.next aliceEnv) noRequests (aliceSignsIn ++ [aliceReturns]) = some s ∧
      s.loc j = .signedIn c w token u) ∧ c.address = w.address ∧ w.userId = 1 ∧
      c.ConsumedBy aliceEnv noRequests (aliceSignsIn ++ [aliceReturns]) j := by
  have hauthed : ((Interleave.run (SignIn.next aliceEnv) noRequests
      (aliceSignsIn ++ [aliceReturns])).map fun s => s.loc 2) =
        some (.authed ⟨"t0", aliceSession, 7⟩) := by decide
  obtain ⟨s, h, hi⟩ := Option.map_eq_some_iff.1 hauthed
  obtain ⟨j, c, w, token, u, hj, -, huser, -, haddress, -, hconsumed, -⟩ :=
    session_of_signature noRequests_start h (congrArg SignIn.authenticated hi)
  exact ⟨j, c, w, token, u, ⟨s, h, hj⟩, haddress.symm, huser.symm, hconsumed⟩

/-! ## Logging out -/

/-- There is a session with the hash, and it is revoked. -/
def AuthDb.Dead (d : AuthDb J) (hash : String) : Prop :=
  ∃ u ∈ d.userSessions, u.sessionHash = hash ∧ u.revokedAt ≠ none

/-- A session that was revoked is not revived: a new session has another hash. -/
theorem AuthDb.Dead.step {a : SignInAct} {l l' : SignIn} {d d' : AuthDb J} {hash : String} (hdead : d.Dead hash)
    (h : l.Effect E a d l' d') : d'.Dead hash := by
  obtain ⟨u, hu, hhash, hrevoked⟩ := hdead
  cases h with
  | issue | consume => exact ⟨u, hu, hhash, hrevoked⟩
  | create => exact ⟨u, List.mem_append_left _ hu, hhash, hrevoked⟩
  | revoke t token =>
      refine ⟨_, Table.mem_update.2 ⟨u, hu, rfl⟩, ?_⟩
      split
      · exact ⟨hhash, by simp⟩
      · exact ⟨hhash, hrevoked⟩
  | quiet _ hsessions => exact ⟨u, hsessions.symm ▸ hu, hhash, hrevoked⟩

/-- The hash of a dead session finds none. -/
theorem AuthDb.Dead.sessionFor {d : AuthDb J} {hash : String} (hdead : d.Dead hash) (hd : d.Sound)
    (now : ℕ) : d.sessionFor hash now = none := by
  by_contra hne
  obtain ⟨v, hv⟩ := Option.ne_none_iff_exists'.1 hne
  obtain ⟨hmem, hvhash, hlive, -⟩ := sessionFor_eq_some hv
  obtain ⟨u, hu, hhash, hrevoked⟩ := hdead
  obtain rfl := Table.eq_of_key hd.hashes hu hmem (hhash.trans hvhash.symm)
  exact hrevoked hlive

/-- What a run from a state with a dead session does to the requests that had not come with its
token. -/
theorem AuthDb.Dead.run {s s' : AuthSystem ι J} {es : List (ι × SignInAct)} {hash : String}
    (hdead : s.shared.Dead hash)
    (hholds : Interleave.Holds (fun d : AuthDb J => d.Sound) (fun d l => l.Fits E d) SignIn.Apart s)
    (hrun : Interleave.run (SignIn.next E) s es = some s') {i : ι} {a : Authenticated}
    (ha : (s'.loc i).authenticated = some a) (hhash : E.sha256Hex a.token = hash) :
    (s.loc i).authenticated = some a := by
  suffices h : s'.shared.Dead hash ∧ ∀ a, (s'.loc i).authenticated = some a →
      E.sha256Hex a.token = hash → (s.loc i).authenticated = some a from h.2 a ha hhash
  refine (Interleave.run_induction (motive := fun _ s' => (Interleave.Holds (fun d : AuthDb J => d.Sound)
    (fun d l => l.Fits E d) SignIn.Apart s') ∧ s'.shared.Dead hash ∧
      ∀ a, (s'.loc i).authenticated = some a → E.sha256Hex a.token = hash →
        (s.loc i).authenticated = some a) ⟨hholds, hdead, fun a ha _ => ha⟩ ?_ hrun).2
  rintro es t ⟨k, act⟩ t' - ⟨ht, hd, hold⟩ hstep
  refine ⟨(signInOutline E).step ht hstep, ?_⟩
  obtain ⟨d, l, hprog, rfl⟩ := Interleave.step_eq_some hstep
  have heff := next_effect hprog
  refine ⟨hd.step heff, fun b hb htoken => ?_⟩
  rcases eq_or_ne i k with rfl | hne
  · rcases authenticated_step heff ((congrArg _ (Function.update_self ..)).symm.trans hb) with
      h | hfound
    · exact hold b h htoken
    · rw [htoken, hd.sessionFor ht.shared] at hfound
      cases hfound
  · exact hold b ((congrArg _ (Function.update_of_ne hne ..)).symm.trans hb) htoken

/-- **Logging out.** Once a request has logged out with the token of a session, a request that comes
later is never authenticated by that token: those that were before it remain the only ones. -/
theorem logout_revokes {s₀ s₁ s₂ s₃ : AuthSystem ι J} {es fs : List (ι × SignInAct)}
    (hstart : s₀.Start) (hrun : Interleave.run (SignIn.next E) s₀ es = some s₁) {j k : ι} {c : Signed}
    {w : UserWallet} {token : String} {u : UserSession} (hj : s₁.loc j = .signedIn c w token u)
    {t : Tick} (hout : Interleave.step (SignIn.next E) s₁ (k, .request (.logout (some token)) t) =
      some s₂)
    (hrest : Interleave.run (SignIn.next E) s₂ fs = some s₃) {i : ι} {a : Authenticated}
    (ha : (s₃.loc i).authenticated = some a) (htoken : E.sha256Hex a.token = E.sha256Hex token) :
    (s₁.loc i).authenticated = some a := by
  have hholds := (signInOutline E).run hstart.holds hrun
  have hafter := (signInOutline E).step hholds hout
  obtain ⟨d, l, hprog, rfl⟩ := Interleave.step_eq_some hout
  obtain ⟨-, -, -, r, hr, hhash⟩ := (hholds.loc j).session c w token u hj
  have hidle := idle_of_request hprog
  rw [hidle] at hprog
  obtain ⟨rfl, rfl⟩ := Prod.mk.inj (Option.some.inj hprog)
  have hdead : (s₁.shared.revokeSession t.now (E.sha256Hex token)).Dead (E.sha256Hex token) :=
    ⟨_, Table.mem_update.2 ⟨r, hr, rfl⟩, by simp [hhash]⟩
  have hbefore := hdead.run hafter hrest ha htoken
  rcases eq_or_ne i k with rfl | hne
  · simp [SignIn.authenticated] at hbefore
  · exact (congrArg _ (Function.update_of_ne hne ..)).symm.trans hbefore

end

/-- Request 3 logs the token out. -/
def aliceLogsOut : ℕ × SignInAct := (3, .request (.logout (some "t0")) ⟨8, 8, 0, [], ""⟩)

/-- Request 4 comes with the token after that, and request 5 asks for another nonce. -/
def afterLogout : List (ℕ × SignInAct) :=
  [(4, .request (.session (some "t0")) ⟨9, 9, 0, [], ""⟩),
    (5, .request (.nonce .evm "0xAlice") ⟨10, 10, 0, [], "n1"⟩)]

/-- Request 2, authenticated before the logout, is still so after it; request 4 is not. -/
theorem logout_revokes_alice : ∃ s₁ s₃,
    Interleave.run (SignIn.next aliceEnv) noRequests (aliceSignsIn ++ [aliceReturns]) = some s₁ ∧
      Interleave.run (SignIn.next aliceEnv) s₁ (aliceLogsOut :: afterLogout) = some s₃ ∧
      (s₁.loc 2).authenticated = some ⟨"t0", aliceSession, 7⟩ ∧ s₃.loc 4 = .answered 401 := by
  have hrun : ((Interleave.run (SignIn.next aliceEnv) noRequests
      (aliceSignsIn ++ [aliceReturns])).map fun s => (s.loc 1, s.loc 3)) =
        some (.signedIn ⟨.evm, "0xAlice", "n0", "0xsigned", ⟨0, .evm, "0xAlice", "n0",
          authMessage .evm "0xAlice" "n0", none, 1 + nonceTtl, 1⟩⟩
          ⟨2, 1, none, .evm, none, WalletType.evm.chain, "0xAlice", none, true, some 5, 5⟩ "t0"
          aliceSession, .idle) := by decide
  have hall : ((Interleave.run (SignIn.next aliceEnv) noRequests
      ((aliceSignsIn ++ [aliceReturns]) ++ aliceLogsOut :: afterLogout)).map
        fun s => (s.loc 2, s.loc 4)) =
          some (.authed ⟨"t0", aliceSession, 7⟩, .answered 401) := by decide
  obtain ⟨s₁, h₁, hloc⟩ := Option.map_eq_some_iff.1 hrun
  obtain ⟨s₃, h₃, hi⟩ := Option.map_eq_some_iff.1 hall
  obtain ⟨t, ht, hrest⟩ := Interleave.run_append.1 h₃
  obtain rfl := Option.some.inj (h₁.symm.trans ht)
  obtain ⟨s₂, hout, hafter⟩ := Interleave.run_cons.1 hrest
  obtain ⟨h2, h4⟩ := Prod.mk.inj hi
  exact ⟨s₁, s₃, h₁, hrest, logout_revokes noRequests_start h₁ (Prod.mk.inj hloc).1 hout hafter
    (congrArg SignIn.authenticated h2) rfl, h4⟩

end ShadePay.Api
