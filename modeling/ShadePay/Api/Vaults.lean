import ShadePay.Lib.Table
import ShadePay.Lib.Text

/-!
# Note vaults and wallets

The note-vault and wallet endpoints of `apps/api/src/routes.ts` over `db.ts`, and
`evaluateRecoveryPolicy` of `packages/note-vault/src/index.ts`. A handler is its checks and its
statements in order; a request that throws answers with the code and text of the error handler. Ids
of rows come from a counter, as `uuid_generate_v4()` does not repeat. JSON is opaque.
-/

namespace ShadePay.Api

/-! ## Recovery policy -/

/-- `WrapperType`. -/
inductive WrapperType where
  | passkeyPrf | stellarEd25519Signature | recoveryFileSecret | recoveryKitPassword | evmSignature
deriving DecidableEq

/-- The status of a wrapper. -/
inductive WrapperStatus where
  | active | revoked
deriving DecidableEq

/-- What `evaluateRecoveryPolicy` reads of a wrapper. -/
structure WrapperTraits where
  type : WrapperType
  status : WrapperStatus
  diagnosticOnly : Bool
deriving DecidableEq

/-- `VaultWrapper`. -/
structure VaultWrapper (J : Type) extends WrapperTraits where
  id : String
  kdf : String
  salt : String
  wrappedKey : String
  metadata : J
deriving DecidableEq

/-- `RecoveryPolicyStatus`. -/
inductive RecoveryPolicyStatus where
  | insufficient | sufficient | strong
deriving DecidableEq

/-- The options of `evaluateRecoveryPolicy`, which `recoveryPolicyFor` reads from the environment. -/
structure PolicyOptions where
  mainnet : Bool
  min : ℕ
  allowEvmOnly : Bool

/-- `evaluateRecoveryPolicy`. -/
def evaluateRecoveryPolicy (wrappers : List WrapperTraits) (opts : PolicyOptions) :
    RecoveryPolicyStatus :=
  let active := wrappers.filter fun w => w.status = .active
  let nonEvm := active.filter fun w => w.type ≠ .evmSignature && !w.diagnosticOnly
  let strong := active.any fun w =>
    w.type = .passkeyPrf || w.type = .stellarEd25519Signature
  if !opts.allowEvmOnly && nonEvm.length = 0 then .insufficient
  else if nonEvm.length < opts.min then .insufficient
  else if opts.mainnet then if nonEvm.length ≥ 2 && strong then .strong else .insufficient
  else if strong && nonEvm.length ≥ 2 then .strong else .sufficient

/-! ## Tables -/

/-- The texts of `backup_status`. -/
inductive BackupStatus where
  | created | verified | restored | failed
deriving DecidableEq

/-- `WalletType`. -/
inductive WalletType where
  | evm | stellar
deriving DecidableEq

/-- `EncryptedVaultEnvelope`, without its two constants. -/
structure Envelope (J : Type) where
  vaultId : String
  privyUserId : String
  iv : String
  aad : J
  ciphertext : String
  wrappers : List (VaultWrapper J)
deriving DecidableEq

/-- The proof of decryption that `verifyBackupSchema` asks for. -/
structure Verification where
  vaultId : String
  decryptedVaultHash : String
  commitmentsHash : String
  method : WrapperType
  verifiedAtClient : String
deriving DecidableEq

/-- A row of `note_vaults`. -/
structure NoteVault (J : Type) where
  id : ℕ
  userId : ℕ
  privyUserId : String
  vaultId : String
  envelope : Envelope J
  ciphertext : String
  aad : J
  backupStatus : BackupStatus
  recoveryPolicyStatus : RecoveryPolicyStatus
  lastBackupVerifiedAt : Option ℕ
  lastRestoredAt : Option ℕ
  lastBackupVerification : Option Verification
  createdAt : ℕ
  updatedAt : ℕ
deriving DecidableEq

/-- A row of `note_vault_wrappers`. -/
structure NoteVaultWrapper (J : Type) where
  id : ℕ
  vaultId : String
  userId : ℕ
  wrapperType : WrapperType
  wrapperStatus : WrapperStatus
  metadata : J
deriving DecidableEq

/-- A row of `user_wallets`. -/
structure UserWallet where
  id : ℕ
  userId : ℕ
  privyUserId : Option String
  walletType : WalletType
  walletSource : Option String
  chain : String
  address : String
  privyWalletId : Option String
  isPrimary : Bool
  verifiedAt : Option ℕ
  createdAt : ℕ
deriving DecidableEq

/-- The three tables, and the next row id. -/
structure Db (J : Type) where
  noteVaults : List (NoteVault J)
  noteVaultWrappers : List (NoteVaultWrapper J)
  userWallets : List UserWallet
  nextId : ℕ

/-- What the schema promises of the rows: primary keys, unique columns and the vault of a wrapper. -/
structure Db.Constraints {J : Type} (d : Db J) : Prop where
  vaultIds : (d.noteVaults.map NoteVault.id).Nodup
  vaultKeys : (d.noteVaults.map NoteVault.vaultId).Nodup
  wrapperIds : (d.noteVaultWrappers.map NoteVaultWrapper.id).Nodup
  wrapperVaults : ∀ w ∈ d.noteVaultWrappers, ∃ v ∈ d.noteVaults, v.vaultId = w.vaultId
  walletIds : (d.userWallets.map UserWallet.id).Nodup
  walletKeys : (d.userWallets.map fun w => (w.walletType, w.address)).Nodup
  freshVault : ∀ v ∈ d.noteVaults, v.id < d.nextId
  freshWrapper : ∀ w ∈ d.noteVaultWrappers, w.id < d.nextId
  freshWallet : ∀ w ∈ d.userWallets, w.id < d.nextId

section
variable {J : Type}

/-! ## Statements -/

/-- The row that `createNoteVault` inserts. -/
def Db.newVault (d : Db J) (now userId : ℕ) (privyUserId : String) (env : Envelope J)
    (policy : RecoveryPolicyStatus) : NoteVault J where
  id := d.nextId
  userId := userId
  privyUserId := privyUserId
  vaultId := env.vaultId
  envelope := env
  ciphertext := env.ciphertext
  aad := env.aad
  backupStatus := .created
  recoveryPolicyStatus := policy
  lastBackupVerifiedAt := none
  lastRestoredAt := none
  lastBackupVerification := none
  createdAt := now
  updatedAt := now

/-- The columns that `createNoteVault`, on a conflict, and `updateNoteVault` set. -/
def NoteVault.rewrite (env : Envelope J) (policy : RecoveryPolicyStatus) (now : ℕ)
    (v : NoteVault J) : NoteVault J :=
  { v with
    envelope := env, ciphertext := env.ciphertext, aad := env.aad, recoveryPolicyStatus := policy,
    updatedAt := now }

/-- `createNoteVault`: a conflict on `vault_id` overwrites the row, whoever owns it. -/
def Db.createNoteVault (d : Db J) (now userId : ℕ) (privyUserId : String) (env : Envelope J)
    (policy : RecoveryPolicyStatus) : Db J :=
  { d with
    noteVaults := Table.upsert (fun v => v.vaultId = env.vaultId) (.rewrite env policy now)
      (d.newVault now userId privyUserId env policy) d.noteVaults
    nextId := d.nextId + 1 }

/-- `where user_id = $1 and vault_id = $2`. -/
def NoteVault.of (userId : ℕ) (vaultId : String) (v : NoteVault J) : Bool :=
  v.userId = userId && v.vaultId = vaultId

/-- `getNoteVault`. -/
def Db.getNoteVault (d : Db J) (userId : ℕ) (vaultId : String) : Option (NoteVault J) :=
  d.noteVaults.find? (NoteVault.of userId vaultId)

/-- `updateNoteVault`. -/
def Db.updateNoteVault (d : Db J) (now userId : ℕ) (vaultId : String) (env : Envelope J)
    (policy : RecoveryPolicyStatus) : Db J :=
  { d with
    noteVaults := Table.update (NoteVault.of userId vaultId) (.rewrite env policy now)
      d.noteVaults }

/-- `setVaultBackupStatus` with `restored`. -/
def Db.setVaultRestored (d : Db J) (now userId : ℕ) (vaultId : String) : Db J :=
  { d with
    noteVaults := Table.update (NoteVault.of userId vaultId)
      (fun v => { v with backupStatus := .restored, lastRestoredAt := some now, updatedAt := now })
      d.noteVaults }

/-- `setVaultBackupVerified`. -/
def Db.setVaultBackupVerified (d : Db J) (now userId : ℕ) (vaultId : String)
    (verification : Verification) : Db J :=
  { d with
    noteVaults := Table.update (NoteVault.of userId vaultId)
      (fun v => { v with
        backupStatus := .verified, lastBackupVerifiedAt := some now,
        lastBackupVerification := some verification, updatedAt := now })
      d.noteVaults }

/-- A policy status that allows deposits. -/
def RecoveryPolicyStatus.allows (s : RecoveryPolicyStatus) : Bool :=
  s = .sufficient || s = .strong

/-- `vaultDepositReady`. -/
def Db.vaultDepositReady (d : Db J) (userId : ℕ) (vaultId : String) : Option Bool :=
  (d.getNoteVault userId vaultId).map fun v =>
    v.backupStatus = .verified && v.recoveryPolicyStatus.allows

/-- `addVaultWrapper`; `none` when the vault does not exist, as the column references it. -/
def Db.addVaultWrapper (d : Db J) (userId : ℕ) (vaultId : String) (w : VaultWrapper J) :
    Option (Db J) :=
  if d.noteVaults.any fun v => v.vaultId = vaultId then
    some { d with
      noteVaultWrappers := d.noteVaultWrappers ++
        [{ id := d.nextId, vaultId, userId, wrapperType := w.type, wrapperStatus := .active,
           metadata := w.metadata }]
      nextId := d.nextId + 1 }
  else none

/-- The row that `deleteVaultWrapper` deletes. -/
def NoteVaultWrapper.of (userId : ℕ) (vaultId : String) (wrapperId : ℕ)
    (w : NoteVaultWrapper J) : Bool :=
  w.id = wrapperId && w.vaultId = vaultId && w.userId = userId

/-- `deleteVaultWrapper`. -/
def Db.deleteVaultWrapper (d : Db J) (userId : ℕ) (vaultId : String) (wrapperId : ℕ) : Db J :=
  { d with
    noteVaultWrappers := Table.delete (NoteVaultWrapper.of userId vaultId wrapperId)
      d.noteVaultWrappers }

/-- A wallet of `syncPrivyWalletsSchema`. -/
structure LinkedWallet where
  walletType : WalletType
  walletSource : Option String
  chain : String
  address : String
  privyWalletId : Option String
deriving DecidableEq

/-- The conflict target `(wallet_type, address)`. -/
def UserWallet.at (walletType : WalletType) (address : String) (w : UserWallet) : Bool :=
  w.walletType = walletType && w.address = address

/-- One upsert of `syncPrivyWallets`: a conflict moves the row to the user of the request. -/
def Db.syncWallet (d : Db J) (now userId : ℕ) (privyUserId : String) (l : LinkedWallet) : Db J :=
  { d with
    userWallets := Table.upsert (UserWallet.at l.walletType l.address)
      (fun w => { w with
        userId, privyUserId := some privyUserId, walletSource := some (l.walletSource.getD "external"),
        chain := l.chain, privyWalletId := l.privyWalletId, verifiedAt := some now })
      { id := d.nextId, userId, privyUserId := some privyUserId, walletType := l.walletType,
        walletSource := some (l.walletSource.getD "external"), chain := l.chain,
        address := l.address, privyWalletId := l.privyWalletId, isPrimary := false,
        verifiedAt := some now, createdAt := now }
      d.userWallets
    nextId := d.nextId + 1 }

/-- `syncPrivyWallets`. -/
def Db.syncPrivyWallets (d : Db J) (now userId : ℕ) (privyUserId : String)
    (wallets : List LinkedWallet) : Db J :=
  wallets.foldl (fun d l => d.syncWallet now userId privyUserId l) d

/-- `CHAIN_FOR`. -/
def WalletType.chain : WalletType → String
  | .evm => "arbitrum-sepolia"
  | .stellar => "stellar-testnet"

/-- `addWallet`: a conflict sets the chain of the row, whoever owns it. -/
def Db.addWallet (d : Db J) (now userId : ℕ) (walletType : WalletType) (address : String) : Db J :=
  { d with
    userWallets := Table.upsert (UserWallet.at walletType address)
      (fun w => { w with chain := walletType.chain })
      { id := d.nextId, userId, privyUserId := none, walletType, walletSource := none,
        chain := walletType.chain, address, privyWalletId := none, isPrimary := false,
        verifiedAt := none, createdAt := now }
      d.userWallets
    nextId := d.nextId + 1 }

/-- The row that `deleteWallet` deletes. -/
def UserWallet.deletable (userId walletId : ℕ) (w : UserWallet) : Bool :=
  w.id = walletId && w.userId = userId && !w.isPrimary

/-- `deleteWallet`. -/
def Db.deleteWallet (d : Db J) (userId walletId : ℕ) : Db J :=
  { d with userWallets := Table.delete (UserWallet.deletable userId walletId) d.userWallets }

/-! ## Requests -/

/-- A request to a note-vault or wallet endpoint. -/
inductive Request (J : Type) where
  | createVault (envelope : Envelope J)
  | updateVault (vaultId : String) (envelope : Envelope J)
  | verifyBackup (vaultId : String) (verification : Verification)
  | markRestored (vaultId : String)
  | addWrapper (vaultId : String) (wrapper : VaultWrapper J) (envelope : Envelope J)
  | deleteWrapper (vaultId : String) (wrapperId : ℕ)
  | syncPrivy (wallets : List LinkedWallet)
  | addWallet (walletType : WalletType) (address nonce signature : String)
  | deleteWallet (walletId : ℕ)
deriving DecidableEq

/-- The user a request is authenticated as. -/
structure Auth where
  userId : ℕ
  privyUserId : String
deriving DecidableEq

/-- What the handlers take from outside: the environment's policy options, the plaintext field that
`assertNoPlaintextNoteFields` finds in a body, `getAddress` of ethers, and whether a nonce was
issued and the wallet signed its message. -/
structure Server (J : Type) where
  opts : PolicyOptions
  plaintext : Request J → Option String
  getAddress : String → Option String
  signed : WalletType → String → String → String → Bool

/-- The answer to a request. -/
inductive Response where
  | ok
  | error (code : ℕ) (message : String)
deriving DecidableEq

/-- `recoveryPolicyFor`. -/
def Server.recoveryPolicyFor (srv : Server J) (wrappers : List (VaultWrapper J)) :
    RecoveryPolicyStatus :=
  evaluateRecoveryPolicy (wrappers.map VaultWrapper.toWrapperTraits) srv.opts

/-- `encryptedVaultEnvelopeSchema`. -/
def Envelope.parses (env : Envelope J) : Bool :=
  env.vaultId ≠ "" && env.privyUserId ≠ "" && env.ciphertext ≠ ""

/-- `verifyBackupSchema`. The length of a text is that of its UTF-16 code units. -/
def Verification.parses (v : Verification) : Bool :=
  v.vaultId ≠ "" && (Text.utf16 v.decryptedVaultHash.toList).length ≥ 8 && v.commitmentsHash ≠ "" &&
    v.method ≠ .evmSignature && v.verifiedAtClient ≠ ""

/-- A hexadecimal digit. -/
def isHex (c : Char) : Bool := c.isDigit || ('a' ≤ c && c ≤ 'f') || ('A' ≤ c && c ≤ 'F')

/-- The address formats of `syncPrivyWalletsSchema`. -/
def WalletType.accepts (t : WalletType) (address : String) : Bool :=
  match t, address.toList with
  | .evm, '0' :: 'x' :: cs => cs.length = 40 && cs.all isHex
  | .stellar, 'G' :: cs =>
      cs.length = 55 && cs.all fun c => ('A' ≤ c && c ≤ 'Z') || ('2' ≤ c && c ≤ '7')
  | _, _ => false

/-- A wallet of `syncPrivyWalletsSchema`. -/
def LinkedWallet.parses (l : LinkedWallet) : Bool :=
  (match l.walletSource with
    | none => true
    | some source => source ∈ ["privy_embedded", "external", "freighter", "legacy"]) &&
    l.chain ≠ "" && l.walletType.accepts l.address

/-- `normalizeAddress`. -/
def Server.normalizeAddress (srv : Server J) (t : WalletType) (address : String) : Option String :=
  match t with
  | .evm => srv.getAddress address
  | .stellar => some address

/-- The text of a status, for the message of `verify-backup`. -/
def RecoveryPolicyStatus.text : RecoveryPolicyStatus → String
  | .insufficient => "insufficient"
  | .sufficient => "sufficient"
  | .strong => "strong"

/-- The error of a body that does not parse. -/
def invalidBody : Response := .error 400 "invalid request body"

/-- The error of `assertNoPlaintextNoteFields`. -/
def plaintextField (k : String) : Response :=
  .error 500 ("plaintext note field \"" ++ k ++ "\" is forbidden in stored/transmitted vault data")

/-- `POST /v1/note-vaults`. The vault exists when its wrappers are inserted. -/
def createVault (srv : Server J) (auth : Auth) (now : ℕ) (env : Envelope J) (d : Db J) :
    Response × Db J :=
  match srv.plaintext (.createVault env) with
  | some k => (plaintextField k, d)
  | none =>
      if !env.parses then (invalidBody, d)
      else if env.privyUserId ≠ auth.privyUserId then
        (.error 403 "envelope privy_user_id mismatch", d)
      else
        let policy := srv.recoveryPolicyFor env.wrappers
        let d' := d.createNoteVault now auth.userId auth.privyUserId env policy
        (.ok, env.wrappers.foldl
          (fun d w => (d.addVaultWrapper auth.userId env.vaultId w).getD d) d')

/-- `PUT /v1/note-vaults/:vault_id`. -/
def updateVault (srv : Server J) (auth : Auth) (now : ℕ) (vaultId : String) (env : Envelope J)
    (d : Db J) : Response × Db J :=
  match srv.plaintext (.updateVault vaultId env) with
  | some k => (plaintextField k, d)
  | none =>
      if !env.parses then (invalidBody, d)
      else if env.vaultId ≠ vaultId ∨ env.privyUserId ≠ auth.privyUserId then
        (.error 403 "vault id / identity mismatch", d)
      else
        match d.getNoteVault auth.userId vaultId with
        | none => (.error 404 "vault not found", d)
        | some _ =>
            (.ok, d.updateNoteVault now auth.userId vaultId env
              (srv.recoveryPolicyFor env.wrappers))

/-- `POST /v1/note-vaults/:vault_id/verify-backup`. -/
def verifyBackup (auth : Auth) (now : ℕ) (vaultId : String) (verification : Verification)
    (d : Db J) : Response × Db J :=
  if !verification.parses then (invalidBody, d)
  else if verification.vaultId ≠ vaultId then (.error 400 "verification vault_id mismatch", d)
  else
    match d.getNoteVault auth.userId vaultId with
    | none => (.error 404 "vault not found", d)
    | some vault =>
        if !vault.recoveryPolicyStatus.allows then
          (.error 409 ("recovery policy insufficient (" ++ vault.recoveryPolicyStatus.text ++ ")"),
            d)
        else (.ok, d.setVaultBackupVerified now auth.userId vaultId verification)

/-- `POST /v1/note-vaults/:vault_id/mark-restored`. -/
def markRestored (auth : Auth) (now : ℕ) (vaultId : String) (d : Db J) : Response × Db J :=
  match d.getNoteVault auth.userId vaultId with
  | none => (.error 404 "vault not found", d)
  | some _ => (.ok, d.setVaultRestored now auth.userId vaultId)

/-- `POST /v1/note-vaults/:vault_id/wrappers`: the result of the update is not looked at. -/
def addWrapper (srv : Server J) (auth : Auth) (now : ℕ) (vaultId : String)
    (wrapper : VaultWrapper J) (env : Envelope J) (d : Db J) : Response × Db J :=
  match srv.plaintext (.addWrapper vaultId wrapper env) with
  | some k => (plaintextField k, d)
  | none =>
      if !env.parses then (invalidBody, d)
      else if env.vaultId ≠ vaultId then (.error 403 "vault id mismatch", d)
      else
        let d' := d.updateNoteVault now auth.userId vaultId env
          (srv.recoveryPolicyFor env.wrappers)
        match d'.addVaultWrapper auth.userId vaultId wrapper with
        | none => (.error 500 "violates foreign key constraint", d')
        | some d'' => (.ok, d'')

/-- `DELETE /v1/note-vaults/:vault_id/wrappers/:wrapper_id`. -/
def deleteWrapper (auth : Auth) (vaultId : String) (wrapperId : ℕ) (d : Db J) :
    Response × Db J :=
  if d.noteVaultWrappers.any (NoteVaultWrapper.of auth.userId vaultId wrapperId) then
    (.ok, d.deleteVaultWrapper auth.userId vaultId wrapperId)
  else (.error 404 "wrapper not found", d)

/-- `POST /v1/me/wallets/sync-privy`. -/
def syncPrivy (auth : Auth) (now : ℕ) (wallets : List LinkedWallet) (d : Db J) :
    Response × Db J :=
  if wallets = [] ∨ !wallets.all LinkedWallet.parses then (invalidBody, d)
  else (.ok, d.syncPrivyWallets now auth.userId auth.privyUserId wallets)

/-- `POST /v1/me/wallets`. -/
def addWallet (srv : Server J) (auth : Auth) (now : ℕ) (t : WalletType)
    (address nonce signature : String) (d : Db J) : Response × Db J :=
  if address = "" ∨ nonce = "" ∨ signature = "" then (invalidBody, d)
  else
    match srv.normalizeAddress t address with
    | none => (.error 500 "invalid address", d)
    | some address =>
        if !srv.signed t address nonce signature then
          (.error 401 "wallet signature verification failed", d)
        else (.ok, d.addWallet now auth.userId t address)

/-- `DELETE /v1/me/wallets/:wallet_id`. -/
def deleteWallet (auth : Auth) (walletId : ℕ) (d : Db J) : Response × Db J :=
  if d.userWallets.any (UserWallet.deletable auth.userId walletId) then
    (.ok, d.deleteWallet auth.userId walletId)
  else (.error 409 "cannot delete (not found or primary)", d)

/-- A request, by its handler. -/
def handle (srv : Server J) (auth : Auth) (now : ℕ) (r : Request J) (d : Db J) : Response × Db J :=
  match r with
  | .createVault env => createVault srv auth now env d
  | .updateVault vaultId env => updateVault srv auth now vaultId env d
  | .verifyBackup vaultId verification => verifyBackup auth now vaultId verification d
  | .markRestored vaultId => markRestored auth now vaultId d
  | .addWrapper vaultId wrapper env => addWrapper srv auth now vaultId wrapper env d
  | .deleteWrapper vaultId wrapperId => deleteWrapper auth vaultId wrapperId d
  | .syncPrivy wallets => syncPrivy auth now wallets d
  | .addWallet t address nonce signature => addWallet srv auth now t address nonce signature d
  | .deleteWallet walletId => deleteWallet auth walletId d

end

end ShadePay.Api
