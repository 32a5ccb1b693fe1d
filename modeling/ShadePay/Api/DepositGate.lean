import ShadePay.Api.Effects

/-!
# The deposit gate

`vaultDepositReady` reads two columns of a vault: whether a backup was verified, and the policy
status computed when the envelope was last written. The ciphertext and the recorded wrappers change
without them. As long as no request changes the ciphertext of a verified vault, or lets its stored
policy part from the recorded wrappers, a ready vault is one whose backup was verified last and whose
wrappers meet the policy.
-/

namespace ShadePay.Api

section
variable {J : Type}

/-! ## `POST /v1/deposits/prepare` -/

/-- The body of a deposit, its amount as a number. -/
structure DepositPrepare where
  amountUsdc6dp : ℕ
  sourceChain : String
  sourceWalletAddress : String
  vaultId : String
  commitment : String
  encryptedNotePayloadHash : String
  policyId : String

/-- `userDepositPrepareSchema`. -/
def DepositPrepare.parses (b : DepositPrepare) : Bool :=
  b.sourceChain ≠ "" && WalletType.evm.accepts b.sourceWalletAddress && b.vaultId ≠ "" &&
    b.commitment ≠ "" && b.encryptedNotePayloadHash ≠ "" && b.policyId ≠ ""

/-- `userOwnsWallet`, of any chain. -/
def Db.userOwnsWallet (d : Db J) (userId : ℕ) (address : String) : Bool :=
  d.userWallets.any fun w => w.userId = userId && w.address.toLower = address.toLower

/-- `userOwnsVault`. -/
def Db.userOwnsVault (d : Db J) (userId : ℕ) (vaultId : String) : Bool :=
  d.noteVaults.any (NoteVault.of userId vaultId)

/-- The texts of `backup_status`. -/
def BackupStatus.text : BackupStatus → String
  | .created => "created"
  | .verified => "verified"
  | .restored => "restored"
  | .failed => "failed"

/-- The gate of `POST /v1/deposits/prepare`: what it answers, `criticalFindings` being the number of
unresolved findings of the root auditor. -/
def depositsPrepare (auth : Auth) (criticalFindings : ℕ) (b : DepositPrepare) (d : Db J) :
    Response :=
  if !b.parses then invalidBody
  else if b.sourceChain ≠ "arbitrum-sepolia" then .error 400 "unsupported source_chain"
  else if b.amountUsdc6dp = 0 then .error 400 "amount must be positive"
  else if !d.userOwnsWallet auth.userId b.sourceWalletAddress then
    .error 403 "source wallet not linked to user"
  else if !d.userOwnsVault auth.userId b.vaultId then .error 403 "vault not owned by user"
  else
    match d.getNoteVault auth.userId b.vaultId with
    | none =>
        .error 409 "vault not deposit-ready (backup=undefined, policy=undefined)"
    | some vault =>
        if d.vaultDepositReady auth.userId b.vaultId ≠ some true then
          .error 409 ("vault not deposit-ready (backup=" ++ vault.backupStatus.text ++ ", policy=" ++
            vault.recoveryPolicyStatus.text ++ ")")
        else if criticalFindings > 0 then
          .error 409 ("ROOT_MISMATCH_CRITICAL: " ++ toString criticalFindings ++
            " unresolved root-audit finding(s); spends are blocked")
        else .ok

/-- What `depositsPrepare` accepts is ready. -/
theorem vaultDepositReady_of_prepare {auth : Auth} {criticalFindings : ℕ} {b : DepositPrepare}
    {d : Db J} (h : depositsPrepare auth criticalFindings b d = .ok) :
    d.vaultDepositReady auth.userId b.vaultId = some true := by
  unfold depositsPrepare at h
  split at h
  · cases h
  · split at h
    · cases h
    · split at h
      · cases h
      · split at h
        · cases h
        · split at h
          · cases h
          · split at h
            · cases h
            · split at h
              · cases h
              · next hready => exact not_not.1 hready

/-! ## The recorded wrappers -/

/-- What the policy reads of a recorded wrapper, where `diagnostic` reads its metadata. -/
def NoteVaultWrapper.traits (diagnostic : J → Bool) (w : NoteVaultWrapper J) : WrapperTraits where
  type := w.wrapperType
  status := w.wrapperStatus
  diagnosticOnly := diagnostic w.metadata

/-- What it reads of a wrapper once `addVaultWrapper` has recorded it. -/
def VaultWrapper.recorded (diagnostic : J → Bool) (w : VaultWrapper J) : WrapperTraits where
  type := w.type
  status := .active
  diagnosticOnly := diagnostic w.metadata

/-- The wrappers recorded for a vault, as `listVaultWrappers` lists them. -/
def Db.recordedWrappers (d : Db J) (diagnostic : J → Bool) (vaultId : String) :
    List WrapperTraits :=
  (d.noteVaultWrappers.filter fun w => w.vaultId = vaultId).map (NoteVaultWrapper.traits diagnostic)

section
variable (srv : Server J) (auth : Auth) (diagnostic : J → Bool) (vaultId : String)

/-- The policy status of a list of wrappers. -/
def Server.policy (wrappers : List WrapperTraits) : RecoveryPolicyStatus :=
  evaluateRecoveryPolicy wrappers srv.opts

/-- The requests of one user, each at its time, one after another. -/
def serve (d : Db J) (es : List (ℕ × Request J)) : Db J :=
  es.foldl (fun d e => (handle srv auth e.1 e.2 d).2) d

/-- The ciphertext of the user's vault. -/
def Db.ciphertextOf (d : Db J) (userId : ℕ) : Option String :=
  (d.getNoteVault userId vaultId).map NoteVault.ciphertext

/-- A backup of the vault was verified, and its ciphertext has not changed since. -/
def VerifiedLast (d : Db J) (es : List (ℕ × Request J)) : Prop :=
  ∃ es₁ now verification es₂, es = es₁ ++ (now, .verifyBackup vaultId verification) :: es₂ ∧
    (Request.verifyBackup vaultId verification).Passes srv auth (serve srv auth d es₁) ∧
    ∀ es₃, es₃ <+: es₂ →
      (serve srv auth d (es₁ ++ (now, .verifyBackup vaultId verification) :: es₃)).ciphertextOf
        vaultId auth.userId = (serve srv auth d es₁).ciphertextOf vaultId auth.userId

/-- What a ready vault stands for: the backup verified last is the stored one, and the stored policy
status is the one of the recorded wrappers. -/
structure Backed (d : Db J) (es : List (ℕ × Request J)) : Prop where
  verified : VerifiedLast srv auth vaultId d es
  policy : ∃ v, (serve srv auth d es).getNoteVault auth.userId vaultId = some v ∧
    v.recoveryPolicyStatus =
      srv.policy ((serve srv auth d es).recordedWrappers diagnostic vaultId)

/-- An envelope that may be written over a verified vault when the wrappers `ws` are recorded with
it: the ciphertext is the verified one, and the policy of the envelope's wrappers, if it allows
deposits, is that of the recorded ones. -/
def Envelope.Keeps (env : Envelope J) (v : NoteVault J) (d : Db J) (ws : List (VaultWrapper J)) :
    Prop :=
  env.ciphertext = v.ciphertext ∧
    ((srv.recoveryPolicyFor env.wrappers).allows → srv.recoveryPolicyFor env.wrappers =
      srv.policy (d.recordedWrappers diagnostic vaultId ++ ws.map (VaultWrapper.recorded diagnostic)))

/-- The request does not change the ciphertext of the vault while it is verified, and where it
writes or relies on a policy status that allows deposits, that is the policy of the wrappers
recorded afterwards. -/
def Request.Keeps (d : Db J) (r : Request J) : Prop :=
  ∀ v, d.getNoteVault auth.userId vaultId = some v →
    match r with
    | .createVault env => env.vaultId = vaultId → v.backupStatus = .verified →
        env.Keeps srv diagnostic vaultId v d env.wrappers
    | .updateVault id env => id = vaultId → v.backupStatus = .verified →
        env.Keeps srv diagnostic vaultId v d []
    | .addWrapper id wrapper env => id = vaultId → v.backupStatus = .verified →
        env.Keeps srv diagnostic vaultId v d [wrapper]
    | .deleteWrapper id wrapperId => id = vaultId → v.backupStatus = .verified →
        v.recoveryPolicyStatus.allows → v.recoveryPolicyStatus =
          srv.policy ((d.deleteVaultWrapper auth.userId id wrapperId).recordedWrappers diagnostic
            vaultId)
    | .verifyBackup id _ => id = vaultId →
        v.recoveryPolicyStatus = srv.policy (d.recordedWrappers diagnostic vaultId)
    | _ => True

/-- Every request of the run that passes its checks keeps to the above. -/
def KeptThroughout (d : Db J) : List (ℕ × Request J) → Prop
  | [] => True
  | e :: es => (e.2.Passes srv auth d → e.2.Keeps srv auth diagnostic vaultId d) ∧
      KeptThroughout (handle srv auth e.1 e.2 d).2 es

end

/-! ## What the requests do to a vault -/

section
variable {d : Db J} {u : ℕ} {v : String}

/-- A vault that is found is one of the user's, with this id. -/
theorem of_getNoteVault {x : NoteVault J} (h : d.getNoteVault u v = some x) :
    x ∈ d.noteVaults ∧ x.userId = u ∧ x.vaultId = v := by
  have hof : NoteVault.of u v x = true := List.find?_some h
  obtain ⟨hu, hv⟩ := Bool.and_eq_true_iff.1 hof
  exact ⟨List.mem_of_find?_eq_some h, of_decide_eq_true hu, of_decide_eq_true hv⟩

/-- An update of a vault by owner and id, as seen in a vault of the owner. -/
theorem find?_updateVaults {f : NoteVault J → NoteVault J} (hu : ∀ x, (f x).userId = x.userId)
    (hv : ∀ x, (f x).vaultId = x.vaultId) (id : String) :
    (Table.update (NoteVault.of u id) f d.noteVaults).find? (NoteVault.of u v) =
      (d.getNoteVault u v).map fun x => if id = v then f x else x := by
  have hkeep : ∀ x, NoteVault.of u id x → NoteVault.of u v (f x) = NoteVault.of u v x :=
    fun x _ => by rw [NoteVault.of, hu, hv, NoteVault.of]
  refine (Table.find?_update hkeep).trans (Option.map_congr fun x hx => ?_)
  obtain ⟨-, hxu, hxv⟩ := of_getNoteVault hx
  simp only [NoteVault.of, hxu, hxv, decide_true, Bool.true_and, decide_eq_true_eq, @eq_comm _ v]

/-- A vault of the owner is rewritten by `createNoteVault`, and a new one is not verified. -/
theorem getNoteVault_createNoteVault (now : ℕ) (privyUserId : String)
    (env : Envelope J) (policy : RecoveryPolicyStatus) {x' : NoteVault J}
    (h : (d.createNoteVault now u privyUserId env policy).getNoteVault u v = some x')
    (hx' : x'.backupStatus = .verified) :
    ∃ x, d.getNoteVault u v = some x ∧
      x' = if env.vaultId = v then x.rewrite env policy now else x := by
  have hkeep : ∀ x : NoteVault J, NoteVault.of u v (x.rewrite env policy now) =
      NoteVault.of u v x := fun _ => rfl
  unfold Db.getNoteVault Db.createNoteVault Table.upsert at h
  dsimp only at h
  split at h
  · rw [Table.find?_update fun x _ => hkeep x] at h
    obtain ⟨x, hx, rfl⟩ := Option.map_eq_some_iff.1 h
    obtain ⟨-, -, hv⟩ := of_getNoteVault hx
    refine ⟨x, hx, ?_⟩
    rw [hv]
    simp only [decide_eq_true_eq, @eq_comm _ v]
  · next hnone =>
    have hid : ∀ x ∈ d.noteVaults, x.vaultId ≠ env.vaultId := by simpa using hnone
    rw [List.find?_append] at h
    cases hx : d.noteVaults.find? (NoteVault.of u v) with
    | some x =>
        obtain ⟨hmem, -, hv⟩ := of_getNoteVault (d := d) hx
        rw [hx, Option.some_or] at h
        obtain rfl := Option.some.inj h
        exact ⟨x, hx, (if_neg fun he => hid x hmem (hv.trans he.symm)).symm⟩
    | none =>
        -- the row is the new one
        rw [hx, Option.none_or] at h
        obtain rfl := List.mem_singleton.1 (List.mem_of_find?_eq_some h)
        cases hx'

/-- A wrapper is recorded for its vault. -/
theorem recordedWrappers_addVaultWrapper (diagnostic : J → Bool) {id : String}
    (hid : id = v → d.noteVaults.any fun x => x.vaultId = id) (w : VaultWrapper J) :
    ((d.addVaultWrapper u id w).getD d).recordedWrappers diagnostic v =
      d.recordedWrappers diagnostic v ++
        if id = v then [w.recorded diagnostic] else [] := by
  unfold Db.addVaultWrapper Db.recordedWrappers
  split
  · rw [Option.getD_some, List.filter_append, List.map_append]
    congr 1
    split
    · next h => rw [List.filter_cons_of_pos (by simpa using h)]; rfl
    · next h => rw [List.filter_cons_of_neg (by simpa using h)]; rfl
  · next hany => rw [Option.getD_none, if_neg fun h => hany (hid h), List.append_nil]

/-- The wrappers of an envelope are recorded behind those of its vault. -/
theorem recordedWrappers_addVaultWrappers (diagnostic : J → Bool) {id : String}
    (hid : id = v → d.noteVaults.any fun x => x.vaultId = id) (ws : List (VaultWrapper J)) :
    (ws.foldl (fun d w => (d.addVaultWrapper u id w).getD d) d).recordedWrappers diagnostic v =
      d.recordedWrappers diagnostic v ++
        if id = v then ws.map (VaultWrapper.recorded diagnostic) else [] := by
  induction ws generalizing d with
  | nil => simp
  | cons w ws ih =>
      have hframe := (addVaultWrapper_frame d u id w).1
      rw [List.foldl_cons, ih (hframe.symm ▸ hid), recordedWrappers_addVaultWrapper diagnostic hid,
        List.append_assoc]
      congr 1
      split
      · rfl
      · rfl

/-- A delete of a wrapper of another vault. -/
theorem recordedWrappers_deleteVaultWrapper (diagnostic : J → Bool) {id : String} (hid : id ≠ v)
    (wrapperId : ℕ) : (d.deleteVaultWrapper u id wrapperId).recordedWrappers diagnostic v =
      d.recordedWrappers diagnostic v := by
  unfold Db.recordedWrappers
  refine congrArg _ (Table.filter_delete fun w _ hw => decide_eq_false ?_)
  have hv : w.vaultId = id := of_decide_eq_true (Bool.and_eq_true_iff.1 (Bool.and_eq_true_iff.1 hw).1).2
  exact hv ▸ hid

variable {srv : Server J} {auth : Auth} {diagnostic : J → Bool} {now : ℕ}

/-- The policy status of a verified vault is that of its recorded wrappers, or refuses deposits. -/
def PolicyCurrent (srv : Server J) (auth : Auth) (diagnostic : J → Bool) (v : String) (d : Db J) :
    Prop :=
  ∀ x, d.getNoteVault auth.userId v = some x → x.backupStatus = .verified →
    x.recoveryPolicyStatus.allows → x.recoveryPolicyStatus =
      srv.policy (d.recordedWrappers diagnostic v)

/-- An envelope written over a verified vault that it keeps, with its wrappers recorded. -/
theorem verified_rewrite (hd : PolicyCurrent srv auth diagnostic v d) {id : String}
    {env : Envelope J} {ws : List (VaultWrapper J)} {x x' : NoteVault J}
    (hx : d.getNoteVault auth.userId v = some x)
    (hkeep : id = v → x.backupStatus = .verified → env.Keeps srv diagnostic v x d ws)
    (hx' : x' = if id = v then x.rewrite env (srv.recoveryPolicyFor env.wrappers) now else x)
    (hver : x'.backupStatus = .verified) :
    (x'.ciphertext = x.ciphertext ∧ x.backupStatus = .verified) ∧
      (x'.recoveryPolicyStatus.allows → x'.recoveryPolicyStatus =
        srv.policy (d.recordedWrappers diagnostic v ++
          if id = v then ws.map (VaultWrapper.recorded diagnostic) else [])) := by
  by_cases hid : id = v
  · rw [if_pos hid] at hx'
    subst hx'
    obtain ⟨hcipher, hpolicy⟩ := hkeep hid hver
    rw [if_pos hid]
    exact ⟨⟨hcipher, hver⟩, hpolicy⟩
  · rw [if_neg hid] at hx'
    subst hx'
    rw [if_neg hid, List.append_nil]
    exact ⟨⟨rfl, hver⟩, hd x' hx hver⟩

/-- **One request.** A vault verified after it is the one verified by it or before it, with the same
ciphertext and a current policy status. -/
theorem verified_apply (hd : PolicyCurrent srv auth diagnostic v d) {r : Request J}
    (hkeep : r.Keeps srv auth diagnostic v d) {x' : NoteVault J}
    (hx' : (r.apply srv auth now d).getNoteVault auth.userId v = some x')
    (hver : x'.backupStatus = .verified) :
    (∃ x, d.getNoteVault auth.userId v = some x ∧ x'.ciphertext = x.ciphertext ∧
      ((∃ w, r = .verifyBackup v w) ∨ x.backupStatus = .verified)) ∧
    (x'.recoveryPolicyStatus.allows → x'.recoveryPolicyStatus =
      srv.policy ((r.apply srv auth now d).recordedWrappers diagnostic v)) := by
  cases r with
  | createVault env =>
      have hframe := (addVaultWrappers_frame (d.createNoteVault now auth.userId auth.privyUserId env
        (srv.recoveryPolicyFor env.wrappers)) auth.userId env.vaultId env.wrappers).1
      have hrow : (d.createNoteVault now auth.userId auth.privyUserId env
          (srv.recoveryPolicyFor env.wrappers)).getNoteVault auth.userId v = some x' :=
        (congrArg (List.find? _) hframe).symm.trans hx'
      have hany : env.vaultId = v → (d.createNoteVault now auth.userId auth.privyUserId env
          (srv.recoveryPolicyFor env.wrappers)).noteVaults.any (fun x => x.vaultId = env.vaultId) := by
        intro hid
        obtain ⟨hmem, -, hv⟩ := of_getNoteVault hrow
        exact List.any_eq_true.2 ⟨x', hmem, decide_eq_true (hv.trans hid.symm)⟩
      have hrec := recordedWrappers_addVaultWrappers (u := auth.userId) diagnostic hany env.wrappers
      obtain ⟨x, hx, hrw⟩ := getNoteVault_createNoteVault now auth.privyUserId env _ hrow hver
      obtain ⟨⟨hcipher, hold⟩, hpolicy⟩ := verified_rewrite hd hx (hkeep x hx) hrw hver
      exact ⟨⟨x, hx, hcipher, .inr hold⟩, fun ha => (hpolicy ha).trans (congrArg _ hrec.symm)⟩
  | updateVault id env =>
      obtain ⟨x, hx, hrw⟩ := Option.map_eq_some_iff.1
        ((find?_updateVaults (fun _ => by rfl) (fun _ => by rfl) id).symm.trans hx')
      obtain ⟨⟨hcipher, hold⟩, hpolicy⟩ := verified_rewrite hd hx (hkeep x hx) hrw.symm hver
      refine ⟨⟨x, hx, hcipher, .inr hold⟩, fun ha => (hpolicy ha).trans (congrArg _ ?_)⟩
      rw [List.map_nil, ite_self, List.append_nil]
      rfl
  | verifyBackup id w =>
      obtain ⟨x, hx, rfl⟩ := Option.map_eq_some_iff.1
        ((find?_updateVaults (fun _ => by rfl) (fun _ => by rfl) id).symm.trans hx')
      by_cases hid : id = v
      · simp only [if_pos hid]
        subst hid
        exact ⟨⟨x, hx, rfl, .inl ⟨w, rfl⟩⟩, fun _ => hkeep x hx rfl⟩
      · simp only [if_neg hid] at hver ⊢
        exact ⟨⟨x, hx, rfl, .inr hver⟩, hd x hx hver⟩
  | markRestored id =>
      obtain ⟨x, hx, rfl⟩ := Option.map_eq_some_iff.1
        ((find?_updateVaults (fun _ => by rfl) (fun _ => by rfl) id).symm.trans hx')
      by_cases hid : id = v
      · simp only [if_pos hid] at hver
        cases hver
      · simp only [if_neg hid] at hver ⊢
        exact ⟨⟨x, hx, rfl, .inr hver⟩, hd x hx hver⟩
  | addWrapper id wrapper env =>
      obtain ⟨hframe, -⟩ := addVaultWrapper_frame (d.updateNoteVault now auth.userId id env
        (srv.recoveryPolicyFor env.wrappers)) auth.userId id wrapper
      have hrow : (d.updateNoteVault now auth.userId id env
          (srv.recoveryPolicyFor env.wrappers)).getNoteVault auth.userId v = some x' :=
        (congrArg (List.find? _) hframe).symm.trans hx'
      have hany : id = v → (d.updateNoteVault now auth.userId id env
          (srv.recoveryPolicyFor env.wrappers)).noteVaults.any (fun x => x.vaultId = id) := by
        intro hid
        obtain ⟨hmem, -, hv⟩ := of_getNoteVault hrow
        exact List.any_eq_true.2 ⟨x', hmem, decide_eq_true (hv.trans hid.symm)⟩
      have hrec := recordedWrappers_addVaultWrapper (u := auth.userId) diagnostic hany wrapper
      obtain ⟨x, hx, hrw⟩ := Option.map_eq_some_iff.1
        ((find?_updateVaults (fun _ => by rfl) (fun _ => by rfl) id).symm.trans hrow)
      obtain ⟨⟨hcipher, hold⟩, hpolicy⟩ := verified_rewrite hd hx (hkeep x hx) hrw.symm hver
      exact ⟨⟨x, hx, hcipher, .inr hold⟩, fun ha => (hpolicy ha).trans (congrArg _ hrec.symm)⟩
  | deleteWrapper id wrapperId =>
      refine ⟨⟨x', hx', rfl, .inr hver⟩, fun ha => ?_⟩
      by_cases hid : id = v
      · exact hkeep x' hx' hid hver ha
      · exact (hd x' hx' hver ha).trans
          (congrArg _ (recordedWrappers_deleteVaultWrapper diagnostic hid wrapperId).symm)
  | syncPrivy wallets =>
      obtain ⟨hvaults, hwrappers⟩ := @syncPrivyWallets_frame J d now auth.userId auth.privyUserId
        wallets
      have hx : d.getNoteVault auth.userId v = some x' :=
        (congrArg (List.find? _) hvaults).symm.trans hx'
      exact ⟨⟨x', hx, rfl, .inr hver⟩, fun ha => (hd x' hx hver ha).trans
        (congrArg (fun ws => srv.policy (List.map _ (List.filter _ ws))) hwrappers.symm)⟩
  | addWallet t address nonce signature =>
      simp only [Request.apply] at hx' ⊢
      split at hx'
      · exact ⟨⟨x', hx', rfl, .inr hver⟩, hd x' hx' hver⟩
      · exact ⟨⟨x', hx', rfl, .inr hver⟩, hd x' hx' hver⟩
  | deleteWallet walletId => exact ⟨⟨x', hx', rfl, .inr hver⟩, hd x' hx' hver⟩

/-! ## Runs -/

/-- The last request is served after all others. -/
theorem serve_concat (es : List (ℕ × Request J)) (e : ℕ × Request J) :
    serve srv auth d (es ++ [e]) = (handle srv auth e.1 e.2 (serve srv auth d es)).2 :=
  List.foldl_append

/-- The condition on a run, for its last request. -/
theorem keptThroughout_concat {es : List (ℕ × Request J)} {e : ℕ × Request J} :
    KeptThroughout srv auth diagnostic v d (es ++ [e]) ↔
      KeptThroughout srv auth diagnostic v d es ∧ (e.2.Passes srv auth (serve srv auth d es) →
        e.2.Keeps srv auth diagnostic v (serve srv auth d es)) := by
  induction es generalizing d with
  | nil => exact and_comm
  | cons e' es ih => exact (and_congr_right fun _ => ih).trans and_assoc.symm

/-- A request that leaves the ciphertext leaves the verification the last. -/
theorem VerifiedLast.concat {es : List (ℕ × Request J)} (h : VerifiedLast srv auth v d es)
    {e : ℕ × Request J} (hcipher : (serve srv auth d (es ++ [e])).ciphertextOf v auth.userId =
      (serve srv auth d es).ciphertextOf v auth.userId) : VerifiedLast srv auth v d (es ++ [e]) := by
  obtain ⟨es₁, t, w, es₂, rfl, hpass, hsince⟩ := h
  refine ⟨es₁, t, w, es₂ ++ [e], by simp, hpass, fun es₃ hes₃ => ?_⟩
  rcases List.prefix_concat_iff.1 hes₃ with rfl | hes₃
  · refine Eq.trans ?_ (hcipher.trans (hsince es₂ (List.prefix_refl es₂)))
    rw [List.append_assoc, List.cons_append]
  · exact hsince es₃ hes₃

/-- A verification that passes is the last. -/
theorem VerifiedLast.verifyBackup {es : List (ℕ × Request J)} {w : Verification}
    (hpass : (Request.verifyBackup v w).Passes srv auth (serve srv auth d es))
    (hcipher : (serve srv auth d (es ++ [(now, .verifyBackup v w)])).ciphertextOf v auth.userId =
      (serve srv auth d es).ciphertextOf v auth.userId) :
    VerifiedLast srv auth v d (es ++ [(now, .verifyBackup v w)]) := by
  refine ⟨es, now, w, [], rfl, hpass, fun es₃ hes₃ => ?_⟩
  obtain rfl := List.prefix_nil.1 hes₃
  exact hcipher

/-- Every verified vault of such a run is the one verified last, and its policy is current. -/
theorem verified_run (hnew : ∀ x ∈ d.noteVaults, x.vaultId ≠ v) {es : List (ℕ × Request J)}
    (hkept : KeptThroughout srv auth diagnostic v d es) :
    PolicyCurrent srv auth diagnostic v (serve srv auth d es) ∧
      ∀ x, (serve srv auth d es).getNoteVault auth.userId v = some x →
        x.backupStatus = .verified → VerifiedLast srv auth v d es := by
  induction es using List.reverseRecOn with
  | nil =>
      have hnone : ∀ x, (serve srv auth d []).getNoteVault auth.userId v ≠ some x := by
        intro x hx
        obtain ⟨hmem, -, hv⟩ := of_getNoteVault hx
        exact hnew x hmem hv
      exact ⟨fun x hx => absurd hx (hnone x), fun x hx => absurd hx (hnone x)⟩
  | append_singleton es e ih =>
      obtain ⟨hes, hlast⟩ := keptThroughout_concat.1 hkept
      obtain ⟨hpolicy, hverified⟩ := ih hes
      obtain ⟨t, r⟩ := e
      rcases @handle_db J (serve srv auth d es) srv auth t r with ⟨hpass, h⟩ | ⟨-, h⟩
      · have hstep := @verified_apply J _ v srv auth diagnostic t hpolicy r (hlast hpass)
        rw [← h, ← serve_concat es (t, r)] at hstep
        refine ⟨fun x' hx' hver => (hstep hx' hver).2, fun x' hx' hver => ?_⟩
        obtain ⟨⟨x, hx, hcipher, hfrom⟩, -⟩ := hstep hx' hver
        have hsame : (serve srv auth d (es ++ [(t, r)])).ciphertextOf v auth.userId =
            (serve srv auth d es).ciphertextOf v auth.userId := by
          rw [Db.ciphertextOf, hx', Db.ciphertextOf, hx, Option.map_some, hcipher, Option.map_some]
        rcases hfrom with ⟨w, rfl⟩ | hold
        · exact .verifyBackup hpass hsame
        · exact (hverified x hx hold).concat hsame
      · have hsame : serve srv auth d (es ++ [(t, r)]) = serve srv auth d es :=
          (serve_concat es (t, r)).trans h
        rw [hsame]
        refine ⟨hpolicy, fun x hx hver => (hverified x hx hver).concat ?_⟩
        rw [hsame]

/-- **The gate.** Of a vault that comes to be in a run of its owner's requests, none of which changes
the ciphertext of a verified vault or parts its policy status from the recorded wrappers: when it is
ready, the backup verified last is the stored one and the recorded wrappers meet the policy. So it
is for every deposit that is accepted. -/
theorem backed_of_ready (hnew : ∀ x ∈ d.noteVaults, x.vaultId ≠ v) {es : List (ℕ × Request J)}
    (hkept : KeptThroughout srv auth diagnostic v d es) :
    ((serve srv auth d es).vaultDepositReady auth.userId v = some true →
        Backed srv auth diagnostic v d es) ∧
      ∀ n b, b.vaultId = v → depositsPrepare auth n b (serve srv auth d es) = .ok →
        Backed srv auth diagnostic v d es := by
  have hready : (serve srv auth d es).vaultDepositReady auth.userId v = some true →
      Backed srv auth diagnostic v d es := by
    intro h
    obtain ⟨x, hx, hgate⟩ := Option.map_eq_some_iff.1 h
    obtain ⟨hver, hallows⟩ := Bool.and_eq_true_iff.1 hgate
    obtain ⟨hpolicy, hverified⟩ := verified_run hnew hkept
    exact ⟨hverified x hx (of_decide_eq_true hver),
      x, hx, hpolicy x hx (of_decide_eq_true hver) hallows⟩
  refine ⟨hready, fun n b hb hok => hready ?_⟩
  rw [← hb]
  exact vaultDepositReady_of_prepare hok

end

end

/-! ## A ciphertext changed after its verification -/

/-- An owner. -/
def owner : Auth where
  userId := 1
  privyUserId := "did:1"

/-- An envelope of the owner with one wrapper. -/
def ownEnvelope (ciphertext : String) : Envelope Unit where
  vaultId := "v"
  privyUserId := "did:1"
  iv := ""
  aad := ()
  ciphertext := ciphertext
  wrappers := [
    { type := .stellarEd25519Signature, status := .active, diagnosticOnly := false, id := "w"
      kdf := "", salt := "", wrappedKey := "", metadata := () }]

/-- The client has decrypted the vault. -/
def decrypted : Verification where
  vaultId := "v"
  decryptedVaultHash := "00000000"
  commitmentsHash := "0"
  method := .stellarEd25519Signature
  verifiedAtClient := "0"

/-- Empty tables. -/
def noVaults : Db Unit where
  noteVaults := []
  noteVaultWrappers := []
  userWallets := []
  nextId := 0

/-- The owner creates a vault and verifies its backup. -/
def verifiedRun : List (ℕ × Request Unit) :=
  [(0, .createVault (ownEnvelope "c1")), (1, .verifyBackup "v" decrypted)]

/-- The ciphertext changes after that. -/
def staleRun : List (ℕ × Request Unit) :=
  verifiedRun ++ [(2, .updateVault "v" (ownEnvelope "c2"))]

/-- A vault is created, verified, and ready for a deposit. -/
theorem backed_of_ready_verifiedRun :
    Backed openServer owner (fun _ => false) "v" noVaults verifiedRun := by
  refine (backed_of_ready (fun _ h => (List.not_mem_nil h).elim) ?_).1 (by decide)
  refine ⟨fun _ _ h => (nomatch h), fun _ x hx _ => ?_, trivial⟩
  have hpolicy : ((serve openServer owner noVaults [(0, .createVault (ownEnvelope "c1"))]).getNoteVault
      1 "v").map NoteVault.recoveryPolicyStatus = some .sufficient := by decide
  have hx : (serve openServer owner noVaults [(0, .createVault (ownEnvelope "c1"))]).getNoteVault
      1 "v" = some x := hx
  rw [hx] at hpolicy
  exact (Option.some.inj hpolicy).trans (by decide)

/-- The gate is open for a ciphertext that was not verified. -/
theorem ready_not_backed : ¬ ∀ (srv : Server Unit) (auth : Auth) (diagnostic : Unit → Bool)
    (v : String) (d : Db Unit) (es : List (ℕ × Request Unit)),
    (∀ x ∈ d.noteVaults, x.vaultId ≠ v) →
      (serve srv auth d es).vaultDepositReady auth.userId v = some true →
        Backed srv auth diagnostic v d es := by
  intro hall
  obtain ⟨es₁, now, w, es₂, heq, -, hsince⟩ := (hall openServer owner (fun _ => false) "v" noVaults
    staleRun (fun _ h => (List.not_mem_nil h).elim) (by decide)).verified
  -- the verification of the run is its second request
  have heq : [(0, .createVault (ownEnvelope "c1")), (1, .verifyBackup "v" decrypted),
      (2, .updateVault "v" (ownEnvelope "c2"))] =
        es₁ ++ (now, Request.verifyBackup "v" w) :: es₂ := heq
  rcases es₁ with _ | ⟨e₁, _ | ⟨e₂, _ | ⟨e₃, es₁⟩⟩⟩ <;>
    simp only [List.nil_append, List.cons_append, List.cons.injEq, Prod.mk.injEq, reduceCtorEq,
      false_and, and_false, List.nil_eq, List.append_eq_nil_iff] at heq
  obtain ⟨rfl, ⟨rfl, hw⟩, rfl⟩ := heq
  obtain rfl : decrypted = w := by
    cases hw
    rfl
  exact absurd (hsince _ (List.prefix_refl _)) (by decide)

end ShadePay.Api
