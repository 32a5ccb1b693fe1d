import ShadePay.Api.Vaults
import ShadePay.Lib.Interleave
import ShadePay.Lib.Text
import ShadePay.Rfq.SwapTerms

/-!
# Signing in with a wallet

`apps/api/src/auth.ts` and the handlers of `routes.ts` around it: a client asks for a nonce, signs the
message with its wallet and gets a session token, with which later requests are authenticated
(`requireUser`, the branch of `authedUser` without Privy). A handler is a sequence of SQL statements of
`db.ts`; each is atomic, and the statements of different requests interleave. A request is a process
that remembers what it has read. `logActivity` and the columns of `users` are left out, as nothing
reads them here, and so is how a token travels in headers.
-/

namespace ShadePay.Api

open Rfq

/-! ## Wallet signatures -/

/-- The functions of ethers, the Stellar SDK and Node that `auth.ts` uses; `none` when they throw. -/
structure SignInEnv where
  getAddress : String → Option String
  /-- The address `verifyMessage` recovers from a message and a signature. -/
  verifyMessage : String → String → Option String
  /-- `Keypair.fromPublicKey(address).verify(message, signature)`. -/
  keypairVerify : String → List UInt8 → List UInt8 → Option Bool
  fromBase64 : String → List UInt8
  sha256Hex : String → String

/-- The text of a wallet type. -/
def WalletType.text : WalletType → String
  | .evm => "EVM"
  | .stellar => "STELLAR"

/-- `authMessage`. -/
def authMessage (walletType : WalletType) (address nonce : String) : String :=
  "Shade Protocol Testnet wants you to sign in with your " ++ walletType.text ++ " wallet:\n" ++
    address ++ "\n\nNonce: " ++ nonce

namespace SignInEnv

variable (E : SignInEnv)

/-- `normalizeAddress`. -/
def normalizeAddress (walletType : WalletType) (address : String) : Option String :=
  match walletType with
  | .evm => E.getAddress address
  | .stellar => some address

/-- `verifyWalletSignature`: what throws is caught. -/
def verifyWalletSignature (walletType : WalletType) (address message signature : String) : Bool :=
  match walletType with
  | .evm => ((do
      let recovered ← E.verifyMessage message signature
      let a ← E.getAddress recovered
      let b ← E.getAddress address
      return a = b) : Option Bool).getD false
  | .stellar =>
      let sig := if signature.toList ≠ [] ∧ signature.toList.all isHex ∧ signature.length = 128
        then bufferFromHex signature.toList else E.fromBase64 signature
      (E.keypairVerify address (Text.utf8 message.toList) sig).getD false

end SignInEnv

/-- `NONCE_TTL_MS`. -/
def nonceTtl : ℕ := 1000 * 60 * 10

/-- `SESSION_TTL_MS`. -/
def sessionTtl : ℕ := 1000 * 60 * 60 * 24 * 7

/-! ## Tables and statements -/

/-- A row of `auth_nonces`. -/
structure AuthNonce where
  id : ℕ
  walletType : WalletType
  address : String
  nonce : String
  message : String
  consumedAt : Option ℕ
  expiresAt : ℕ
  createdAt : ℕ
deriving DecidableEq

/-- A row of `user_sessions`. -/
structure UserSession where
  userId : ℕ
  sessionHash : String
  expiresAt : ℕ
  revokedAt : Option ℕ
deriving DecidableEq

/-- The tables of the vault and wallet endpoints with those of the sign-in. -/
structure AuthDb (J : Type) extends Db J where
  users : List ℕ
  authNonces : List AuthNonce
  userSessions : List UserSession

/-- A row the inner `select` of `consumeNonce` may return. -/
def AuthNonce.usable (walletType : WalletType) (address nonce : String) (now : ℕ) (locked : List ℕ)
    (r : AuthNonce) : Bool :=
  r.walletType = walletType && r.address = address && r.nonce = nonce && r.consumedAt = none &&
    decide (now < r.expiresAt) && r.id ∉ locked

/-- The `where` of `userIdForSession`. -/
def UserSession.live (sessionHash : String) (now : ℕ) (s : UserSession) : Bool :=
  s.sessionHash = sessionHash && s.revokedAt = none && decide (now < s.expiresAt)

namespace AuthDb

variable {J : Type}

/-- `createNonce`. -/
def createNonce (d : AuthDb J) (now : ℕ) (walletType : WalletType) (address nonce message : String)
    (expiresAt : ℕ) : AuthDb J :=
  { d with
    authNonces := d.authNonces ++
      [⟨d.nextId, walletType, address, nonce, message, none, expiresAt, now⟩]
    nextId := d.nextId + 1 }

/-- The `update` of `consumeNonce`. -/
def markConsumed (d : AuthDb J) (now id : ℕ) : AuthDb J :=
  { d with
    authNonces := Table.update (fun r => r.id = id) (fun r => { r with consumedAt := some now })
      d.authNonces }

/-- `consumeNonce`, with the rows that other statements hold `locked`: one of the newest usable rows,
which is `pick` if that is one of them. -/
def consumeNonce (d : AuthDb J) (now : ℕ) (walletType : WalletType) (address nonce : String)
    (locked : List ℕ) (pick : ℕ) : Option (AuthNonce × AuthDb J) :=
  let rows := d.authNonces.filter (AuthNonce.usable walletType address nonce now locked)
  let newest := rows.filter fun r => rows.all fun q => q.createdAt ≤ r.createdAt
  ((newest.find? fun r => r.id = pick).or newest.head?).map fun r => (r, d.markConsumed now r.id)

/-- The `select` of `upsertUserByWallet`. -/
def walletOf (d : AuthDb J) (walletType : WalletType) (address : String) : Option UserWallet :=
  d.userWallets.find? (UserWallet.at walletType address)

/-- `insert into users`. -/
def insertUser (d : AuthDb J) : ℕ × AuthDb J :=
  (d.nextId, { d with users := d.users ++ [d.nextId], nextId := d.nextId + 1 })

/-- The row that `upsertUserByWallet` inserts. -/
def newWallet (d : AuthDb J) (now userId : ℕ) (walletType : WalletType) (address : String) :
    UserWallet where
  id := d.nextId
  userId := userId
  privyUserId := none
  walletType := walletType
  walletSource := none
  chain := walletType.chain
  address := address
  privyWalletId := none
  isPrimary := true
  verifiedAt := some now
  createdAt := now

/-- `insert into user_wallets` of `upsertUserByWallet`; `none` is a unique violation. -/
def insertWallet (d : AuthDb J) (now userId : ℕ) (walletType : WalletType) (address : String) :
    Option (UserWallet × AuthDb J) :=
  if d.userWallets.any (UserWallet.at walletType address) then none
  else some (d.newWallet now userId walletType address, { d with
    userWallets := d.userWallets ++ [d.newWallet now userId walletType address]
    nextId := d.nextId + 1 })

/-- `createSession`; `none` is a unique violation. -/
def createSession (d : AuthDb J) (userId : ℕ) (sessionHash : String) (expiresAt : ℕ) :
    Option (UserSession × AuthDb J) :=
  if d.userSessions.any fun s => s.sessionHash = sessionHash then none
  else some (⟨userId, sessionHash, expiresAt, none⟩,
    { d with userSessions := d.userSessions ++ [⟨userId, sessionHash, expiresAt, none⟩] })

/-- The row whose user `userIdForSession` returns. -/
def sessionFor (d : AuthDb J) (sessionHash : String) (now : ℕ) : Option UserSession :=
  d.userSessions.find? (UserSession.live sessionHash now)

/-- `revokeSession`. -/
def revokeSession (d : AuthDb J) (now : ℕ) (sessionHash : String) : AuthDb J :=
  { d with
    userSessions := Table.update (fun s => s.sessionHash = sessionHash)
      (fun s => { s with revokedAt := some now }) d.userSessions }

end AuthDb

/-! ## Requests -/

/-- A request. Those that need a user come with the token `readSessionToken` found; `none` is also the
empty token, which the handlers treat alike. -/
inductive AuthRequest where
  /-- `POST /v1/auth/nonce`. -/
  | nonce (walletType : WalletType) (address : String)
  /-- `POST /v1/auth/evm/verify` and `POST /v1/auth/stellar/verify`. -/
  | verify (walletType : WalletType) (address nonce signature : String)
  /-- `POST /v1/auth/logout`. -/
  | logout (token : Option String)
  /-- Any endpoint whose handler starts with `requireUser`. -/
  | session (token : Option String)
  /-- `POST /v1/me/wallets`. -/
  | addWallet (token : Option String) (walletType : WalletType) (address nonce signature : String)
  /-- `DELETE /v1/me/wallets/:wallet_id`. -/
  | deleteWallet (token : Option String) (walletId : ℕ)
  /-- `POST /v1/me/wallets/sync-privy`, for the user Privy vouches for. -/
  | syncPrivy (auth : Auth) (wallets : List LinkedWallet)
deriving DecidableEq

/-- A nonce that was consumed, and the signature presented for it. -/
structure Signed where
  walletType : WalletType
  address : String
  nonce : String
  signature : String
  row : AuthNonce
deriving DecidableEq

/-- The session a request was authenticated by, and when. -/
structure Authenticated where
  token : String
  session : UserSession
  time : ℕ
deriving DecidableEq

/-- Where a request is. -/
inductive SignIn where
  | idle
  | answered (code : ℕ)
  | issued (walletType : WalletType) (address nonce message : String)
  /-- Before the `select` of `upsertUserByWallet`. -/
  | lookingUp (c : Signed)
  | insertingUser (c : Signed)
  | insertingWallet (c : Signed) (userId : ℕ)
  | creatingSession (c : Signed) (wallet : UserWallet)
  | signedIn (c : Signed) (wallet : UserWallet) (token : String) (session : UserSession)
  | authed (a : Authenticated)
  | addingWallet (a : Authenticated) (walletType : WalletType) (address nonce signature : String)
  | linkingWallet (a : Authenticated) (c : Signed)
  | linked (a : Authenticated) (c : Signed)
  | deletingWallet (a : Authenticated) (walletId : ℕ)
  | deleted (a : Authenticated)
  | syncing (auth : Auth) (wallets : List LinkedWallet)
  | loggedOut (token : String)
deriving DecidableEq

/-- What the scheduler chooses at a step: the database's clock, the server's clock, the row that
`consumeNonce` picks, the rows other statements hold locked, and the random text the server draws. -/
structure Tick where
  now : ℕ
  appNow : ℕ
  pick : ℕ
  locked : List ℕ
  random : String
deriving DecidableEq

/-- A step of a request: its arrival, up to the answer of its first statement, or its next one. -/
inductive SignInAct where
  | request (r : AuthRequest) (t : Tick)
  | exec (t : Tick)
deriving DecidableEq

/-- What the scheduler chose at the step. -/
def SignInAct.tick : SignInAct → Tick
  | .request _ t | .exec t => t

section
variable {J : Type} (E : SignInEnv)

/-- `requireUser`, and where the request goes on from there. -/
def requireUser (token : Option String) (t : Tick) (d : AuthDb J) (next : Authenticated → SignIn) :
    AuthDb J × SignIn :=
  match token with
  | none => (d, .answered 401)
  | some token =>
      match d.sessionFor (E.sha256Hex token) t.now with
      | none => (d, .answered 401)
      | some s => (d, next ⟨token, s, t.now⟩)

/-- `consumeNonce` and `verifyWalletSignature`, and where the request goes on from there. -/
def consumeSigned (walletType : WalletType) (address nonce signature : String) (t : Tick)
    (d : AuthDb J) (next : Signed → SignIn) : AuthDb J × SignIn :=
  match d.consumeNonce t.now walletType address nonce t.locked t.pick with
  | none => (d, .answered 401)
  | some (row, d) =>
      if E.verifyWalletSignature walletType address row.message signature then
        (d, next ⟨walletType, address, nonce, signature, row⟩)
      else (d, .answered 401)

/-- A request arrives. -/
def arrive (t : Tick) (d : AuthDb J) : AuthRequest → AuthDb J × SignIn
  | .nonce walletType address =>
      if address = "" then (d, .answered 400)
      else match E.normalizeAddress walletType address with
      | none => (d, .answered 500)
      | some address =>
          let message := authMessage walletType address t.random
          (d.createNonce t.now walletType address t.random message (t.appNow + nonceTtl),
            .issued walletType address t.random message)
  | .verify walletType address nonce signature =>
      if address = "" ∨ signature = "" ∨ nonce = "" then (d, .answered 400)
      else match E.normalizeAddress walletType address with
      | none => (d, .answered 500)
      | some address => consumeSigned E walletType address nonce signature t d .lookingUp
  | .logout token =>
      match token with
      | none => (d, .answered 200)
      | some token => (d.revokeSession t.now (E.sha256Hex token), .loggedOut token)
  | .session token => requireUser E token t d .authed
  | .addWallet token walletType address nonce signature =>
      requireUser E token t d fun a =>
        if address = "" ∨ signature = "" ∨ nonce = "" then .answered 400
        else .addingWallet a walletType address nonce signature
  | .deleteWallet token walletId => requireUser E token t d fun a => .deletingWallet a walletId
  | .syncPrivy auth wallets =>
      if wallets = [] ∨ !wallets.all LinkedWallet.parses then (d, .answered 400)
      else (d, .syncing auth wallets)

/-- One step of a request. -/
def SignIn.next : SignIn → AuthDb J → SignInAct → Option (AuthDb J × SignIn)
  | .idle, d, .request r t => some (arrive E t d r)
  | .lookingUp c, d, .exec _ =>
      match d.walletOf c.walletType c.address with
      | some w => some (d, .creatingSession c w)
      | none => some (d, .insertingUser c)
  | .insertingUser c, d, .exec _ => some (d.insertUser.2, .insertingWallet c d.insertUser.1)
  | .insertingWallet c userId, d, .exec t =>
      match d.insertWallet t.now userId c.walletType c.address with
      | some (w, d) => some (d, .creatingSession c w)
      | none => some (d, .answered 500)
  | .creatingSession c w, d, .exec t =>
      match d.createSession w.userId (E.sha256Hex t.random) (t.appNow + sessionTtl) with
      | some (s, d) => some (d, .signedIn c w t.random s)
      | none => some (d, .answered 500)
  | .addingWallet a walletType address nonce signature, d, .exec t =>
      match E.normalizeAddress walletType address with
      | none => some (d, .answered 500)
      | some address =>
          some (consumeSigned E walletType address nonce signature t d (.linkingWallet a))
  | .linkingWallet a c, d, .exec t =>
      some ({ d with toDb := d.addWallet t.now a.session.userId c.walletType c.address }, .linked a c)
  | .deletingWallet a walletId, d, .exec _ =>
      some ({ d with toDb := d.deleteWallet a.session.userId walletId }, .deleted a)
  | .syncing auth (w :: ws), d, .exec t =>
      some ({ d with toDb := d.syncWallet t.now auth.userId auth.privyUserId w }, .syncing auth ws)
  | _, _, _ => none

/-- A run of requests. -/
abbrev AuthSystem (ι J : Type) : Type := Interleave.State ι (AuthDb J) SignIn

end

/-- Nothing has been issued yet, and no request is under way. -/
structure AuthSystem.Start {ι J : Type} (s : AuthSystem ι J) : Prop where
  authNonces : s.shared.authNonces = []
  userSessions : s.shared.userSessions = []
  idle : ∀ i, s.loc i = .idle

end ShadePay.Api
