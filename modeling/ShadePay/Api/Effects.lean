import ShadePay.Api.Vaults

/-!
# What vault and wallet requests do

A request that passes its checks makes its statements, and another changes nothing (`handle_db`).
Every statement keeps the constraints of the tables, and so does every request.
-/

namespace ShadePay.Api

variable {J : Type} {d : Db J}

/-! ## Frames -/

/-- An insert of a wrapper leaves the other tables. -/
theorem addVaultWrapper_frame (d : Db J) (u : ℕ) (vaultId : String) (w : VaultWrapper J) :
    ((d.addVaultWrapper u vaultId w).getD d).noteVaults = d.noteVaults ∧
      ((d.addVaultWrapper u vaultId w).getD d).userWallets = d.userWallets := by
  unfold Db.addVaultWrapper
  split
  · exact ⟨rfl, rfl⟩
  · exact ⟨rfl, rfl⟩

/-- Storing the wrappers of a vault touches no other table. -/
theorem addVaultWrappers_frame (d : Db J) (u : ℕ) (vaultId : String)
    (wrappers : List (VaultWrapper J)) :
    (wrappers.foldl (fun d w => (d.addVaultWrapper u vaultId w).getD d) d).noteVaults =
        d.noteVaults ∧
      (wrappers.foldl (fun d w => (d.addVaultWrapper u vaultId w).getD d) d).userWallets =
        d.userWallets := by
  induction wrappers generalizing d with
  | nil => exact ⟨rfl, rfl⟩
  | cons w wrappers ih =>
      obtain ⟨hvaults, hwallets⟩ := addVaultWrapper_frame d u vaultId w
      rw [List.foldl_cons, (ih _).1, (ih _).2]
      exact ⟨hvaults, hwallets⟩

/-- A sync of wallets leaves the other tables. -/
theorem syncPrivyWallets_frame {now u : ℕ} {privyUserId : String} {wallets : List LinkedWallet} :
    (d.syncPrivyWallets now u privyUserId wallets).noteVaults = d.noteVaults ∧
      (d.syncPrivyWallets now u privyUserId wallets).noteVaultWrappers = d.noteVaultWrappers := by
  induction wallets generalizing d with
  | nil => exact ⟨rfl, rfl⟩
  | cons l wallets ih => exact ih

/-! ## Statements -/

/-- An update of vaults that leaves the keys of the rows. -/
theorem Db.Constraints.updateVaults (hd : d.Constraints) {p : NoteVault J → Bool}
    {f : NoteVault J → NoteVault J} (hid : ∀ v, (f v).id = v.id)
    (hkey : ∀ v, (f v).vaultId = v.vaultId) :
    Db.Constraints { d with noteVaults := Table.update p f d.noteVaults } := by
  have hids : (Table.update p f d.noteVaults).map NoteVault.id = d.noteVaults.map NoteVault.id :=
    Table.map_update fun v _ _ => hid v
  have hkeys : (Table.update p f d.noteVaults).map NoteVault.vaultId =
      d.noteVaults.map NoteVault.vaultId := Table.map_update fun v _ _ => hkey v
  refine ⟨hids ▸ hd.vaultIds, hkeys ▸ hd.vaultKeys, hd.wrapperIds, fun w hw => ?_, hd.walletIds,
    hd.walletKeys, fun v hv => ?_, hd.freshWrapper, hd.freshWallet⟩
  · obtain ⟨v, hv, hvw⟩ := hd.wrapperVaults w hw
    have hmem : w.vaultId ∈ (Table.update p f d.noteVaults).map NoteVault.vaultId :=
      hkeys ▸ hvw ▸ List.mem_map_of_mem hv
    exact List.mem_map.1 hmem
  · obtain ⟨v', hv', rfl⟩ := Table.mem_update.1 hv
    split
    · exact (hid v').trans_lt (hd.freshVault v' hv')
    · exact hd.freshVault v' hv'

/-- The upsert of a vault keeps its key unique. -/
theorem Db.Constraints.createNoteVault (hd : d.Constraints) (now userId : ℕ) (privyUserId : String)
    (env : Envelope J) (policy : RecoveryPolicyStatus) :
    (d.createNoteVault now userId privyUserId env policy).Constraints where
  vaultIds := Table.nodup_upsert hd.vaultIds (fun _ _ => rfl) fun _ hmem => by
    obtain ⟨v, hv, hid⟩ := List.mem_map.1 hmem
    exact (hd.freshVault v hv).ne hid
  vaultKeys := Table.nodup_upsert hd.vaultKeys (fun _ _ => rfl) fun hnone hmem => by
    obtain ⟨v, hv, hid⟩ := List.mem_map.1 hmem
    exact List.any_eq_false.1 hnone v hv (decide_eq_true hid)
  wrapperIds := hd.wrapperIds
  wrapperVaults w hw := by
    obtain ⟨v, hv, hvw⟩ := hd.wrapperVaults w hw
    have hmem : w.vaultId ∈ d.noteVaults.map NoteVault.vaultId := hvw ▸ List.mem_map_of_mem hv
    refine List.mem_map.1 (Table.mem_map_upsert (fun v _ => ?_) hmem)
    rfl
  walletIds := hd.walletIds
  walletKeys := hd.walletKeys
  freshVault := Table.forall_upsert (fun v hv => (hd.freshVault v hv).trans (Nat.lt_succ_self _))
    (fun _ h => h) (Nat.lt_succ_self _)
  freshWrapper w hw := (hd.freshWrapper w hw).trans (Nat.lt_succ_self _)
  freshWallet w hw := (hd.freshWallet w hw).trans (Nat.lt_succ_self _)

/-- A wrapper is stored only for a vault that exists. -/
theorem Db.Constraints.addVaultWrapper (hd : d.Constraints) {userId : ℕ} {vaultId : String}
    {w : VaultWrapper J} {d' : Db J} (h : d.addVaultWrapper userId vaultId w = some d') :
    d'.Constraints := by
  unfold Db.addVaultWrapper at h
  split at h
  · next hany =>
    obtain rfl := Option.some.inj h
    refine ⟨hd.vaultIds, hd.vaultKeys, ?_, ?_, hd.walletIds, hd.walletKeys,
      fun v hv => (hd.freshVault v hv).trans (Nat.lt_succ_self _), ?_,
      fun w hw => (hd.freshWallet w hw).trans (Nat.lt_succ_self _)⟩
    · rw [List.map_append]
      refine List.Nodup.append hd.wrapperIds (List.nodup_singleton _) ?_
      refine List.disjoint_singleton.2 fun hmem => ?_
      obtain ⟨x, hx, hid⟩ := List.mem_map.1 hmem
      exact (hd.freshWrapper x hx).ne hid
    · intro x hx
      rcases List.mem_append.1 hx with hx | hx
      · exact hd.wrapperVaults x hx
      · obtain rfl := List.mem_singleton.1 hx
        obtain ⟨v, hv, hid⟩ := List.any_eq_true.1 hany
        exact ⟨v, hv, of_decide_eq_true hid⟩
    · intro x hx
      rcases List.mem_append.1 hx with hx | hx
      · exact (hd.freshWrapper x hx).trans (Nat.lt_succ_self _)
      · obtain rfl := List.mem_singleton.1 hx
        exact Nat.lt_succ_self _
  · cases h

/-- Deleting a wrapper keeps the constraints. -/
theorem Db.Constraints.deleteVaultWrapper (hd : d.Constraints) (userId : ℕ) (vaultId : String)
    (wrapperId : ℕ) : (d.deleteVaultWrapper userId vaultId wrapperId).Constraints :=
  { hd with
    wrapperIds := Table.nodup_delete hd.wrapperIds
    wrapperVaults := fun w hw => hd.wrapperVaults w (Table.mem_delete.1 hw).1
    freshWrapper := fun w hw => hd.freshWrapper w (Table.mem_delete.1 hw).1 }

/-- An upsert of a wallet that keeps the keys of a row in conflict. -/
theorem Db.Constraints.upsertWallet (hd : d.Constraints) {t : WalletType} {address : String}
    {f : UserWallet → UserWallet} {new : UserWallet} (hid : ∀ w, (f w).id = w.id)
    (hkey : ∀ w, ((f w).walletType, (f w).address) = (w.walletType, w.address))
    (hnew : new.id = d.nextId) (ht : new.walletType = t) (ha : new.address = address) :
    Db.Constraints { d with
      userWallets := Table.upsert (UserWallet.at t address) f new d.userWallets
      nextId := d.nextId + 1 } where
  vaultIds := hd.vaultIds
  vaultKeys := hd.vaultKeys
  wrapperIds := hd.wrapperIds
  wrapperVaults := hd.wrapperVaults
  walletIds := Table.nodup_upsert hd.walletIds (fun w _ => hid w) fun _ hmem => by
    obtain ⟨w, hw, hwid⟩ := List.mem_map.1 hmem
    exact (hd.freshWallet w hw).ne (hwid.trans hnew)
  walletKeys := Table.nodup_upsert hd.walletKeys (fun w _ => hkey w) fun hnone hmem => by
    obtain ⟨w, hw, hwk⟩ := List.mem_map.1 hmem
    refine List.any_eq_false.1 hnone w hw ?_
    simpa [UserWallet.at, ht, ha] using hwk
  freshVault v hv := (hd.freshVault v hv).trans (Nat.lt_succ_self _)
  freshWrapper w hw := (hd.freshWrapper w hw).trans (Nat.lt_succ_self _)
  freshWallet := Table.forall_upsert
    (fun w hw => (hd.freshWallet w hw).trans (Nat.lt_succ_self _))
    (fun w hw => (hid w).trans_lt hw) (hnew.trans_lt (Nat.lt_succ_self _))

/-- Each wallet of a sync is an upsert, and keeps the constraints. -/
theorem Db.Constraints.syncPrivyWallets (hd : d.Constraints) (now userId : ℕ) (privyUserId : String)
    (wallets : List LinkedWallet) :
    (d.syncPrivyWallets now userId privyUserId wallets).Constraints := by
  induction wallets generalizing d with
  | nil => exact hd
  | cons l wallets ih =>
      exact ih (hd.upsertWallet (fun _ => rfl) (fun _ => rfl) rfl rfl rfl)

/-- Deleting a wallet keeps the constraints. -/
theorem Db.Constraints.deleteWallet (hd : d.Constraints) (userId walletId : ℕ) :
    (d.deleteWallet userId walletId).Constraints :=
  { hd with
    walletIds := Table.nodup_delete hd.walletIds
    walletKeys := Table.nodup_delete hd.walletKeys
    freshWallet := fun w hw => hd.freshWallet w (Table.mem_delete.1 hw).1 }

/-- The inserts of the wrappers of a new vault. -/
theorem Db.Constraints.addVaultWrappers (hd : d.Constraints) (userId : ℕ) (vaultId : String)
    (wrappers : List (VaultWrapper J)) :
    (wrappers.foldl (fun d w => (d.addVaultWrapper userId vaultId w).getD d) d).Constraints := by
  induction wrappers generalizing d with
  | nil => exact hd
  | cons w wrappers ih =>
      rw [List.foldl_cons]
      cases h : d.addVaultWrapper userId vaultId w with
      | none => exact ih hd
      | some d' => exact ih (hd.addVaultWrapper h)

/-! ## Requests -/

section
variable (srv : Server J) (auth : Auth)

/-- The checks of a request's handler. -/
def Request.Passes (d : Db J) (r : Request J) : Prop :=
  match r with
  | .createVault env =>
      srv.plaintext r = none ∧ env.parses ∧ env.privyUserId = auth.privyUserId
  | .updateVault vaultId env =>
      srv.plaintext r = none ∧ env.parses ∧ env.vaultId = vaultId ∧
        env.privyUserId = auth.privyUserId ∧ (d.getNoteVault auth.userId vaultId).isSome
  | .verifyBackup vaultId verification =>
      verification.parses ∧ verification.vaultId = vaultId ∧
        ∃ v, d.getNoteVault auth.userId vaultId = some v ∧ v.recoveryPolicyStatus.allows
  | .markRestored vaultId => (d.getNoteVault auth.userId vaultId).isSome
  | .addWrapper vaultId _ env => srv.plaintext r = none ∧ env.parses ∧ env.vaultId = vaultId
  | .deleteWrapper vaultId wrapperId =>
      d.noteVaultWrappers.any (NoteVaultWrapper.of auth.userId vaultId wrapperId)
  | .syncPrivy wallets => wallets ≠ [] ∧ wallets.all LinkedWallet.parses
  | .addWallet t address nonce signature =>
      address ≠ "" ∧ nonce ≠ "" ∧ signature ≠ "" ∧
        ∃ a, srv.normalizeAddress t address = some a ∧ srv.signed t a nonce signature
  | .deleteWallet walletId => d.userWallets.any (UserWallet.deletable auth.userId walletId)

/-- The statements of a request's handler. -/
def Request.apply (now : ℕ) (d : Db J) (r : Request J) : Db J :=
  match r with
  | .createVault env =>
      env.wrappers.foldl (fun d w => (d.addVaultWrapper auth.userId env.vaultId w).getD d)
        (d.createNoteVault now auth.userId auth.privyUserId env
          (srv.recoveryPolicyFor env.wrappers))
  | .updateVault vaultId env =>
      d.updateNoteVault now auth.userId vaultId env (srv.recoveryPolicyFor env.wrappers)
  | .verifyBackup vaultId verification =>
      d.setVaultBackupVerified now auth.userId vaultId verification
  | .markRestored vaultId => d.setVaultRestored now auth.userId vaultId
  | .addWrapper vaultId wrapper env =>
      let d' := d.updateNoteVault now auth.userId vaultId env (srv.recoveryPolicyFor env.wrappers)
      (d'.addVaultWrapper auth.userId vaultId wrapper).getD d'
  | .deleteWrapper vaultId wrapperId => d.deleteVaultWrapper auth.userId vaultId wrapperId
  | .syncPrivy wallets => d.syncPrivyWallets now auth.userId auth.privyUserId wallets
  | .addWallet t address _ _ =>
      match srv.normalizeAddress t address with
      | none => d
      | some a => d.addWallet now auth.userId t a
  | .deleteWallet walletId => d.deleteWallet auth.userId walletId

variable {srv auth} {now : ℕ}

/-- The request passes and makes its statements, or changes nothing. -/
def Request.Settles (srv : Server J) (auth : Auth) (now : ℕ) (d : Db J) (r : Request J) : Prop :=
  (r.Passes srv auth d ∧ (handle srv auth now r d).2 = r.apply srv auth now d) ∨
    (¬ r.Passes srv auth d ∧ (handle srv auth now r d).2 = d)

/-- The creation of a vault passes and makes its statements, or changes nothing. -/
theorem createVault_settles (env : Envelope J) :
    (Request.createVault env).Settles srv auth now d := by
  unfold Request.Settles handle Request.Passes Request.apply
  dsimp only
  unfold createVault
  split
  · next hk => exact .inr ⟨fun h => by simp [hk] at h, rfl⟩
  · next hk =>
    split
    · next hp => exact .inr ⟨fun h => by simp [h.2.1] at hp, rfl⟩
    · next hp =>
      split
      · next hu => exact .inr ⟨fun h => hu h.2.2, rfl⟩
      · next hu => exact .inl ⟨⟨hk, by simpa using hp, not_not.1 hu⟩, rfl⟩

/-- So does an update of a vault. -/
theorem updateVault_settles (vaultId : String) (env : Envelope J) :
    (Request.updateVault vaultId env).Settles srv auth now d := by
  unfold Request.Settles handle Request.Passes Request.apply
  dsimp only
  unfold updateVault
  split
  · next hk => exact .inr ⟨fun h => by simp [hk] at h, rfl⟩
  · next hk =>
    split
    · next hp => exact .inr ⟨fun h => by simp [h.2.1] at hp, rfl⟩
    · next hp =>
      split
      · next hu => exact .inr ⟨fun h => hu.elim (· h.2.2.1) (· h.2.2.2.1), rfl⟩
      · next hu =>
        obtain ⟨hv, hu⟩ := not_or.1 hu
        split
        · next hnone => exact .inr ⟨fun h => by simp [hnone] at h, rfl⟩
        · next hsome =>
          exact .inl ⟨⟨hk, by simpa using hp, not_not.1 hv, not_not.1 hu, by simp [hsome]⟩, rfl⟩

/-- So does the verification of a backup. -/
theorem verifyBackup_settles (vaultId : String) (verification : Verification) :
    (Request.verifyBackup vaultId verification : Request J).Settles srv auth now d := by
  unfold Request.Settles handle Request.Passes Request.apply
  dsimp only
  unfold verifyBackup
  split
  · next hp => exact .inr ⟨fun h => by simp [h.1] at hp, rfl⟩
  · next hp =>
    split
    · next hv => exact .inr ⟨fun h => hv h.2.1, rfl⟩
    · next hv =>
      split
      · next hnone => exact .inr ⟨fun h => by simp [hnone] at h, rfl⟩
      · next vault hsome =>
        split
        · next ha =>
          refine .inr ⟨?_, rfl⟩
          rintro ⟨-, -, v, h, hallows⟩
          obtain rfl := Option.some.inj (hsome.symm.trans h)
          simp [hallows] at ha
        · next ha =>
          exact .inl ⟨⟨by simpa using hp, not_not.1 hv, vault, hsome, by simpa using ha⟩, rfl⟩

/-- So does the mark of a restored vault. -/
theorem markRestored_settles (vaultId : String) :
    (Request.markRestored vaultId : Request J).Settles srv auth now d := by
  unfold Request.Settles handle Request.Passes Request.apply
  dsimp only
  unfold markRestored
  split
  · next hnone => exact .inr ⟨fun h => by simp [hnone] at h, rfl⟩
  · next hsome => exact .inl ⟨by simp [hsome], rfl⟩

/-- So does a wrapper that is added. -/
theorem addWrapper_settles (vaultId : String) (wrapper : VaultWrapper J) (env : Envelope J) :
    (Request.addWrapper vaultId wrapper env).Settles srv auth now d := by
  unfold Request.Settles handle Request.Passes Request.apply
  dsimp only
  unfold addWrapper
  split
  · next hk => exact .inr ⟨fun h => by simp [hk] at h, rfl⟩
  · next hk =>
    split
    · next hp => exact .inr ⟨fun h => by simp [h.2.1] at hp, rfl⟩
    · next hp =>
      split
      · next hv => exact .inr ⟨fun h => hv h.2.2, rfl⟩
      · next hv =>
        refine .inl ⟨⟨hk, by simpa using hp, not_not.1 hv⟩, ?_⟩
        dsimp only
        split
        · next h => rw [h]; rfl
        · next h => rw [h]; rfl

/-- So does a wrapper that is deleted. -/
theorem deleteWrapper_settles (vaultId : String) (wrapperId : ℕ) :
    (Request.deleteWrapper vaultId wrapperId : Request J).Settles srv auth now d := by
  unfold Request.Settles handle Request.Passes Request.apply
  dsimp only
  unfold deleteWrapper
  split
  · next h => exact .inl ⟨h, rfl⟩
  · next h => exact .inr ⟨h, rfl⟩

/-- So does the synchronisation of the linked wallets. -/
theorem syncPrivy_settles (wallets : List LinkedWallet) :
    (Request.syncPrivy wallets : Request J).Settles srv auth now d := by
  unfold Request.Settles handle Request.Passes Request.apply
  dsimp only
  unfold syncPrivy
  split
  · next h => exact .inr ⟨fun hp => h.elim hp.1 fun h => by simp [hp.2] at h, rfl⟩
  · next h =>
    obtain ⟨hne, hall⟩ := not_or.1 h
    exact .inl ⟨⟨hne, by simpa using hall⟩, rfl⟩

/-- So does a wallet that is added. -/
theorem addWallet_settles (t : WalletType) (address nonce signature : String) :
    (Request.addWallet t address nonce signature : Request J).Settles srv auth now d := by
  unfold Request.Settles handle Request.Passes Request.apply
  dsimp only
  unfold addWallet
  split
  · next h => exact .inr ⟨fun hp => h.elim hp.1 fun h => h.elim hp.2.1 hp.2.2.1, rfl⟩
  · next h =>
    obtain ⟨ha, hn, hs⟩ : address ≠ "" ∧ nonce ≠ "" ∧ signature ≠ "" := by simpa using h
    cases hsome : srv.normalizeAddress t address with
    | none => exact .inr ⟨fun h => by simp at h, rfl⟩
    | some a =>
      dsimp only
      split
      · next hsig =>
        refine .inr ⟨?_, rfl⟩
        rintro ⟨-, -, -, a', h, hsigned⟩
        obtain rfl := Option.some.inj h
        simp [hsigned] at hsig
      · next hsig => exact .inl ⟨⟨ha, hn, hs, a, rfl, by simpa using hsig⟩, rfl⟩

/-- So does a wallet that is deleted. -/
theorem deleteWallet_settles (walletId : ℕ) :
    (Request.deleteWallet walletId : Request J).Settles srv auth now d := by
  unfold Request.Settles handle Request.Passes Request.apply
  dsimp only
  unfold deleteWallet
  split
  · next h => exact .inl ⟨h, rfl⟩
  · next h => exact .inr ⟨h, rfl⟩

/-- **The two outcomes of a request.** It passes and makes its statements, or changes nothing. -/
theorem handle_db (r : Request J) :
    (r.Passes srv auth d ∧ (handle srv auth now r d).2 = r.apply srv auth now d) ∨
      (¬ r.Passes srv auth d ∧ (handle srv auth now r d).2 = d) := by
  cases r with
  | createVault env => exact createVault_settles env
  | updateVault vaultId env => exact updateVault_settles vaultId env
  | verifyBackup vaultId verification => exact verifyBackup_settles vaultId verification
  | markRestored vaultId => exact markRestored_settles vaultId
  | addWrapper vaultId wrapper env => exact addWrapper_settles vaultId wrapper env
  | deleteWrapper vaultId wrapperId => exact deleteWrapper_settles vaultId wrapperId
  | syncPrivy wallets => exact syncPrivy_settles wallets
  | addWallet t address nonce signature => exact addWallet_settles t address nonce signature
  | deleteWallet walletId => exact deleteWallet_settles walletId

/-- **No request breaks the constraints** of the schema. -/
theorem Db.Constraints.apply (hd : d.Constraints) (r : Request J) :
    (r.apply srv auth now d).Constraints := by
  cases r with
  | createVault env => exact (hd.createNoteVault _ _ _ _ _).addVaultWrappers _ _ _
  | updateVault | verifyBackup | markRestored =>
      exact hd.updateVaults (fun _ => rfl) fun _ => rfl
  | addWrapper vaultId wrapper env =>
      have hd' := hd.updateVaults (p := NoteVault.of auth.userId vaultId)
        (f := .rewrite env (srv.recoveryPolicyFor env.wrappers) now) (fun _ => rfl) fun _ => rfl
      exact hd'.addVaultWrappers _ _ [wrapper]
  | deleteWrapper => exact hd.deleteVaultWrapper _ _ _
  | syncPrivy => exact hd.syncPrivyWallets _ _ _ _
  | addWallet t address =>
      simp only [Request.apply]
      split
      · exact hd
      · exact hd.upsertWallet (fun _ => rfl) (fun _ => rfl) rfl rfl rfl
  | deleteWallet => exact hd.deleteWallet _ _

/-- A request keeps the constraints. -/
theorem Db.Constraints.handle (hd : d.Constraints) (r : Request J) :
    (Api.handle srv auth now r d).2.Constraints := by
  rcases @handle_db J d srv auth now r with ⟨-, h⟩ | ⟨-, h⟩
  · rw [h]
    exact hd.apply r
  · rwa [h]

end

/-! ## A server -/

/-- A server that finds no plaintext and accepts every signature. -/
def openServer : Server Unit where
  opts := { mainnet := false, min := 1, allowEvmOnly := false }
  plaintext _ := none
  getAddress := some
  signed _ _ _ _ := true

end ShadePay.Api
