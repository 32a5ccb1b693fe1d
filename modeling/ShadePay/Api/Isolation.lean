import ShadePay.Api.Effects

/-!
# Isolation of users

A request of one user leaves the rows of every other user as they are, save for three conflicts:
a vault created under the id of another user's vault, a synced wallet with the address of another
user's, and an added wallet with such an address and another chain.
-/

namespace ShadePay.Api

variable {J : Type}

/-- What `u` must leave alone: the rows of the other users stay, and no row changes its owner. -/
structure Isolated (u : ℕ) (d d' : Db J) : Prop where
  vaults : d'.noteVaults.filter (fun v => v.userId ≠ u) = d.noteVaults.filter fun v => v.userId ≠ u
  wrappers : d'.noteVaultWrappers.filter (fun w => w.userId ≠ u) =
    d.noteVaultWrappers.filter fun w => w.userId ≠ u
  wallets : d'.userWallets.filter (fun w => w.userId ≠ u) =
    d.userWallets.filter fun w => w.userId ≠ u
  vaultOwner : ∀ v ∈ d.noteVaults, ∀ v' ∈ d'.noteVaults, v'.id = v.id → v'.userId = v.userId
  wrapperOwner : ∀ w ∈ d.noteVaultWrappers, ∀ w' ∈ d'.noteVaultWrappers, w'.id = w.id →
    w'.userId = w.userId
  walletOwner : ∀ w ∈ d.userWallets, ∀ w' ∈ d'.userWallets, w'.id = w.id → w'.userId = w.userId

/-- The request meets no row of another user on a conflict, or would leave it as it is. -/
def Request.Spares (srv : Server J) (auth : Auth) (now : ℕ) (d : Db J) (r : Request J) : Prop :=
  match r with
  | .createVault env => ∀ v ∈ d.noteVaults, v.vaultId = env.vaultId → v.userId ≠ auth.userId →
      v.rewrite env (srv.recoveryPolicyFor env.wrappers) now = v
  | .syncPrivy wallets => ∀ l ∈ wallets, ∀ w ∈ d.userWallets,
      w.at l.walletType l.address → w.userId = auth.userId
  | .addWallet t address _ _ => ∀ a, srv.normalizeAddress t address = some a →
      ∀ w ∈ d.userWallets, w.at t a → w.userId ≠ auth.userId → w.chain = t.chain
  | _ => True

variable {d d' : Db J} {u : ℕ}

/-- Owners follow from the rows of the others, as ids are unique. -/
theorem Isolated.of_others (hd : d.Constraints) (hd' : d'.Constraints)
    (hvaults : d'.noteVaults.filter (fun v => v.userId ≠ u) =
      d.noteVaults.filter fun v => v.userId ≠ u)
    (hwrappers : d'.noteVaultWrappers.filter (fun w => w.userId ≠ u) =
      d.noteVaultWrappers.filter fun w => w.userId ≠ u)
    (hwallets : d'.userWallets.filter (fun w => w.userId ≠ u) =
      d.userWallets.filter fun w => w.userId ≠ u) : Isolated u d d' where
  vaults := hvaults
  wrappers := hwrappers
  wallets := hwallets
  vaultOwner _ hv _ hv' hid := Table.owner_eq hd.vaultIds hd'.vaultIds hvaults hv hv' hid
  wrapperOwner _ hw _ hw' hid := Table.owner_eq hd.wrapperIds hd'.wrapperIds hwrappers hw hw' hid
  walletOwner _ hw _ hw' hid := Table.owner_eq hd.walletIds hd'.walletIds hwallets hw hw' hid

theorem Isolated.refl (hd : d.Constraints) : Isolated u d d := .of_others hd hd rfl rfl rfl

/-! ## Statements -/

/-- An update of vaults that asks for the owner leaves the rows of the others. -/
theorem others_updateVaults {vaultId : String} {f : NoteVault J → NoteVault J}
    (hown : ∀ v, (f v).userId = v.userId) {rows : List (NoteVault J)} :
    (Table.update (NoteVault.of u vaultId) f rows).filter (fun v => v.userId ≠ u) =
      rows.filter fun v => v.userId ≠ u := by
  refine Table.filter_update fun v _ hv => ⟨fun hq => ?_, fun hq => ?_⟩
  · have hu : v.userId = u := of_decide_eq_true (Bool.and_eq_true_iff.1 hv).1
    simp [hu] at hq
  · rwa [hown v]

/-- A conflict of `createNoteVault` leaves the rows of the others when they already are as it sets
them. -/
theorem others_createNoteVault (hd : d.Constraints) {now : ℕ} {privyUserId : String}
    {env : Envelope J} {policy : RecoveryPolicyStatus} :
    (d.createNoteVault now u privyUserId env policy).noteVaults.filter (fun v => v.userId ≠ u) =
        d.noteVaults.filter (fun v => v.userId ≠ u) ↔
      ∀ v ∈ d.noteVaults, v.vaultId = env.vaultId → v.userId ≠ u → v.rewrite env policy now = v := by
  have hnew : decide ((d.newVault now u privyUserId env policy).userId ≠ u) = false := by
    simp [Db.newVault]
  refine (Table.upsert_filter_iff hd.vaultIds (fun _ => ?_) (fun _ h => ?_) hnew).trans ?_
  · rfl
  · exact h
  · simp only [decide_eq_true_eq]

/-- Wrappers of one user are not rows of the others. -/
theorem others_addVaultWrappers {vaultId : String} {wrappers : List (VaultWrapper J)} :
    (wrappers.foldl (fun d w => (d.addVaultWrapper u vaultId w).getD d) d).noteVaultWrappers.filter
      (fun w => w.userId ≠ u) = d.noteVaultWrappers.filter fun w => w.userId ≠ u := by
  induction wrappers generalizing d with
  | nil => rfl
  | cons w wrappers ih =>
      rw [List.foldl_cons, ih]
      unfold Db.addVaultWrapper
      split
      · simp
      · rfl

/-- `syncPrivyWallets` takes the wallets it names from the others. -/
theorem others_syncPrivyWallets {now : ℕ} {privyUserId : String} {wallets : List LinkedWallet} :
    (d.syncPrivyWallets now u privyUserId wallets).userWallets.filter (fun w => w.userId ≠ u) =
      d.userWallets.filter fun w =>
        w.userId ≠ u && !wallets.any fun l => w.at l.walletType l.address := by
  induction wallets generalizing d with
  | nil =>
      refine List.filter_congr fun w _ => ?_
      rw [List.any_nil, Bool.not_false, Bool.and_true]
  | cons l wallets ih =>
      refine ih.trans ((Table.filter_upsert_of_leaves (fun w => ?_) ?_).trans ?_)
      · simp
      · simp
      · refine List.filter_congr fun w _ => ?_
        rw [List.any_cons, Bool.not_or, Bool.and_assoc, Bool.and_comm (!List.any _ _)]

/-- A conflict of `addWallet` leaves the rows of the others when they have the chain it sets. -/
theorem others_addWallet (hd : d.Constraints) {now : ℕ} {t : WalletType} {address : String} :
    (d.addWallet now u t address).userWallets.filter (fun w => w.userId ≠ u) =
        d.userWallets.filter (fun w => w.userId ≠ u) ↔
      ∀ w ∈ d.userWallets, w.at t address → w.userId ≠ u → w.chain = t.chain := by
  refine (Table.upsert_filter_iff hd.walletIds (fun _ => ?_) (fun _ h => ?_) ?_).trans ?_
  · rfl
  · exact h
  · simp
  · refine forall₃_congr fun w _ _ => ?_
    rw [decide_eq_true_eq]
    refine imp_congr_right fun _ => ⟨fun h => ?_, fun h => ?_⟩
    · exact (congrArg UserWallet.chain h).symm
    · rw [← h]

/-! ## Requests -/

section
variable {srv : Server J} {auth : Auth} {now : ℕ}

/-- The statements of a request spare the others exactly when it meets none of their rows. -/
theorem isolated_apply_iff (hd : d.Constraints) (r : Request J) :
    Isolated auth.userId d (r.apply srv auth now d) ↔ r.Spares srv auth now d := by
  have hd' : (r.apply srv auth now d).Constraints := hd.apply r
  cases r with
  | createVault env =>
      obtain ⟨hvaults, hwallets⟩ := addVaultWrappers_frame
        (d.createNoteVault now auth.userId auth.privyUserId env
          (srv.recoveryPolicyFor env.wrappers)) auth.userId env.vaultId env.wrappers
      refine Iff.trans ⟨fun h => ?_, fun h => ?_⟩
        (@others_createNoteVault J d auth.userId hd now auth.privyUserId env _)
      · exact hvaults ▸ h.vaults
      · refine .of_others hd hd' ?_ others_addVaultWrappers ?_
        · exact (congrArg _ hvaults).trans h
        · exact congrArg _ hwallets
  | updateVault =>
      refine iff_of_true (.of_others hd hd' (others_updateVaults ?_) rfl rfl) trivial
      exact fun _ => rfl
  | verifyBackup =>
      refine iff_of_true (.of_others hd hd' (others_updateVaults ?_) rfl rfl) trivial
      exact fun _ => rfl
  | markRestored =>
      refine iff_of_true (.of_others hd hd' (others_updateVaults ?_) rfl rfl) trivial
      exact fun _ => rfl
  | addWrapper vaultId wrapper env =>
      obtain ⟨hvaults, hwallets⟩ := addVaultWrappers_frame
        (d.updateNoteVault now auth.userId vaultId env (srv.recoveryPolicyFor env.wrappers))
        auth.userId vaultId [wrapper]
      refine iff_of_true (.of_others hd hd' ?_ ?_ ?_) trivial
      · refine (congrArg _ hvaults).trans (others_updateVaults ?_)
        exact fun _ => rfl
      · exact @others_addVaultWrappers J _ _ vaultId [wrapper]
      · exact congrArg _ hwallets
  | deleteWrapper vaultId wrapperId =>
      refine iff_of_true (.of_others hd hd' rfl (Table.filter_delete fun w _ hw => ?_) rfl) trivial
      have hu : w.userId = auth.userId := of_decide_eq_true (Bool.and_eq_true_iff.1 hw).2
      simp [hu]
  | syncPrivy wallets =>
      refine ⟨fun h l hl w hw hat => ?_, fun h => ?_⟩
      · have hnone := Table.filter_and_not_iff.1 (others_syncPrivyWallets.symm.trans h.wallets) w hw
          (List.any_eq_true.2 ⟨l, hl, hat⟩)
        simpa using hnone
      · refine .of_others hd hd' (congrArg _ syncPrivyWallets_frame.1)
          (congrArg _ syncPrivyWallets_frame.2) (others_syncPrivyWallets.trans ?_)
        refine Table.filter_and_not_iff.2 fun w hw hany => ?_
        obtain ⟨l, hl, hat⟩ := List.any_eq_true.1 hany
        simp [h l hl w hw hat]
  | addWallet t address nonce signature =>
      simp only [Request.apply, Request.Spares] at hd' ⊢
      cases hn : srv.normalizeAddress t address with
      | none => exact iff_of_true (.refl hd) fun _ h => by cases h
      | some a =>
          rw [hn] at hd'
          have hchain := @others_addWallet J d auth.userId hd now t a
          refine ⟨fun h a' ha => ?_, fun h => .of_others hd hd' rfl rfl (hchain.2 (h a rfl))⟩
          obtain rfl := Option.some.inj ha
          exact hchain.1 h.wallets
  | deleteWallet walletId =>
      refine iff_of_true (.of_others hd hd' rfl rfl (Table.filter_delete fun w _ hw => ?_)) trivial
      have hu : w.userId = auth.userId := by simp [UserWallet.deletable] at hw; exact hw.1.2
      simp [hu]

/-- **Isolation.** A request leaves the rows and the owners of the other users exactly when it is
refused or meets no row of theirs on a conflict that would change it. -/
theorem isolated_iff (hd : d.Constraints) (r : Request J) :
    Isolated auth.userId d (handle srv auth now r d).2 ↔
      (r.Passes srv auth d → r.Spares srv auth now d) := by
  rcases @handle_db J d srv auth now r with ⟨hpass, h⟩ | ⟨hpass, h⟩
  · rw [h, isolated_apply_iff hd r]
    exact ⟨fun hspares _ => hspares, fun hspares => hspares hpass⟩
  · rw [h]
    exact iff_of_true (.refl hd) fun hp => absurd hp hpass

end

/-! ## A taken vault id -/

/-- An envelope for the vault `v` of a Privy user. -/
def envelopeFor (privyUserId ciphertext : String) : Envelope Unit where
  vaultId := "v"
  privyUserId := privyUserId
  iv := ""
  aad := ()
  ciphertext := ciphertext
  wrappers := []

/-- The tables after user 1 has created the vault `v`. -/
def oneVault : Db Unit :=
  (handle openServer { userId := 1, privyUserId := "did:1" } 0
    (.createVault (envelopeFor "did:1" "c1"))
    { noteVaults := [], noteVaultWrappers := [], userWallets := [], nextId := 0 }).2

theorem oneVault_constraints : oneVault.Constraints :=
  Db.Constraints.handle (by constructor <;> simp) _

/-- Another user. -/
def secondUser : Auth where
  userId := 2
  privyUserId := "did:2"

/-- The tables after user 1 has also added a wallet. -/
def oneWallet : Db Unit :=
  (handle openServer { userId := 1, privyUserId := "did:1" } 1
    (.addWallet .stellar "G" "nonce" "signature") oneVault).2

theorem oneWallet_constraints : oneWallet.Constraints :=
  Db.Constraints.handle oneVault_constraints _

/-- The other user adds the wallet that the first has: the row meets the insert on its conflict, and
stays. -/
theorem isolated_iff_addWallet :
    (oneWallet.userWallets.map fun w => (w.userId, w.address)) = [(1, "G")] ∧
      Isolated secondUser.userId oneWallet (handle openServer secondUser 2
        (.addWallet .stellar "G" "nonce" "signature") oneWallet).2 := by
  refine ⟨by decide, (isolated_iff oneWallet_constraints _).2 ?_⟩
  intro _ a _ w hw _ _
  have hchain : ∀ w ∈ oneWallet.userWallets, w.chain = WalletType.stellar.chain := by decide
  exact hchain w hw

/-- The other user creates a vault with the id of the first. -/
theorem createVault_not_isolated : ¬ ∀ (srv : Server Unit) (auth : Auth) (now : ℕ)
    (r : Request Unit) (d : Db Unit), d.Constraints →
      Isolated auth.userId d (handle srv auth now r d).2 := by
  intro hall
  have h := (hall openServer secondUser 1
    (.createVault (envelopeFor "did:2" "c2")) oneVault oneVault_constraints).vaults
  exact absurd h (by decide)

end ShadePay.Api
