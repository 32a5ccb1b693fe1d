import ShadePay.Evm.Effects

/-!
# Steps of the machine

Each step of `machine` as lists of primitives and changes around them: `machine_enter` and
`machine_resume` for the calls, `act_inv` and `configure_inv` for the outside. `preserves_state`
is the rule for an invariant of the state alone, and `treeInv_reachable` its first use: the pool's
tree is well-formed wherever control is outside. `calls` are the successful calls of a run, suspended
ones included, with the rule `preserves_calls`; `FramesOk` is what a run knows of each of them.
-/

namespace ShadePay.Evm

open Guard Reentrancy

/-- A step is taken if the call does not revert. -/
theorem toOption_eq_some {α : Type} {x : Except Error α} {a : α} :
    x.toOption = some a ↔ x = .ok a := by
  cases x <;> simp [Except.toOption]

section
variable {E : Env} {s s' : State}

/-! ## Calls -/

/-- A step into a call. -/
theorem machine_enter {e : Entry E} {ko : Option Kont} (h : (machine E).enter e s = some (s', ko)) :
    e.call.Checks E e.sender s ∧ runPrims E (e.call.prims E e.sender s) s = .ok s' ∧
      ko = e.call.kont s :=
  enter_inv (toOption_eq_some.1 h)

/-- A step on from a suspension point. -/
theorem machine_resume {k : Kont} {ko : Option Kont} (h : (machine E).resume k s = some (s', ko)) :
    runPrims E k.prims (k.tokens E s) = .ok s' ∧ ko = k.next s ∧
      ∀ token recipient amount assetId debit event,
        k = .transferring token recipient amount assetId debit event →
        amount ≤ s.poolBalance E token :=
  proceed_inv (toOption_eq_some.1 h)

/-! ## The outside -/

/-- What a configuration call leaves alone. An asset is registered once, with a supply of zero. -/
structure Configured (s s' : State) : Prop where
  spent : s'.registry.spent = s.registry.spent
  tree : s'.pool.tree = s.pool.tree
  depositUsed : s'.pool.depositUsed = s.pool.depositUsed
  channels : s'.escrow.channels = s.escrow.channels
  balance : s'.balance = s.balance
  allowance : s'.allowance = s.allowance
  block : s'.block = s.block
  assets : (s'.pool.assetToken = s.pool.assetToken ∧ s'.pool.noteSupplyOf = s.pool.noteSupplyOf) ∨
    ∃ assetId token, s.pool.assetToken assetId = 0 ∧
      s'.pool.assetToken = Function.update s.pool.assetToken assetId token ∧
      s'.pool.noteSupplyOf = Function.update s.pool.noteSupplyOf assetId 0

theorem Configured.setAccess (a : Access) (t : Target) : Configured s (s.setAccess a t) := by
  cases t <;> exact ⟨rfl, rfl, rfl, rfl, rfl, rfl, rfl, .inl ⟨rfl, rfl⟩⟩

/-- **Inversion of configuration calls.** -/
theorem configure_inv {sender : Address} {call : AdminCall}
    (h : s.configure sender call = .ok s') : Configured s s' := by
  have hpool : ∀ {f : Pool → Pool} {t : State}, s.setPool sender f = .ok t →
      t = { s with pool := f s.pool } := by
    intro f t hf
    simp only [State.setPool, bind_eq_ok, exists_unit, pure_eq_ok] at hf
    exact hf.2.symm
  have hescrow : ∀ {f : Escrow → Escrow} {t : State}, s.setEscrow sender f = .ok t →
      t = { s with escrow := f s.escrow } := by
    intro f t hf
    simp only [State.setEscrow, bind_eq_ok, exists_unit, pure_eq_ok] at hf
    exact hf.2.symm
  cases call with
  | grantRole t r a =>
      simp only [State.configure, bind_eq_ok, exists_unit, pure_eq_ok] at h
      obtain ⟨-, rfl⟩ := h
      exact .setAccess _ _
  | revokeRole t r a =>
      simp only [State.configure, bind_eq_ok, exists_unit, pure_eq_ok] at h
      obtain ⟨-, rfl⟩ := h
      exact .setAccess _ _
  | renounceRole t r =>
      cases h
      exact .setAccess _ _
  | pause t =>
      simp only [State.configure, bind_eq_ok, exists_unit, pure_eq_ok] at h
      obtain ⟨-, -, rfl⟩ := h
      exact .setAccess _ _
  | unpause t =>
      simp only [State.configure, bind_eq_ok, exists_unit, pure_eq_ok] at h
      obtain ⟨-, -, rfl⟩ := h
      exact .setAccess _ _
  | setAuthorizedSpender a allowed =>
      simp only [State.configure, bind_eq_ok, exists_unit, pure_eq_ok] at h
      obtain ⟨-, rfl⟩ := h
      exact ⟨rfl, rfl, rfl, rfl, rfl, rfl, rfl, .inl ⟨rfl, rfl⟩⟩
  | registerAsset a t =>
      simp only [State.configure, State.registerAsset, bind_eq_ok, require_eq_ok, exists_unit,
        pure_eq_ok] at h
      obtain ⟨-, hnew, rfl⟩ := h
      exact ⟨rfl, rfl, rfl, rfl, rfl, rfl, rfl, .inr ⟨a, t, hnew, rfl, rfl⟩⟩
  | setAssociationRoot r =>
      simp only [State.configure, bind_eq_ok, pure_eq_ok] at h
      obtain ⟨t, ht, rfl⟩ := h
      obtain rfl := hpool ht
      exact ⟨rfl, rfl, rfl, rfl, rfl, rfl, rfl, .inl ⟨rfl, rfl⟩⟩
  | setCommittee pks =>
      simp only [State.configure, bind_eq_ok, pure_eq_ok] at h
      obtain ⟨t, ht, rfl⟩ := h
      obtain rfl := hpool ht
      exact ⟨rfl, rfl, rfl, rfl, rfl, rfl, rfl, .inl ⟨rfl, rfl⟩⟩
  | setAuthorizedStreamContract a allowed =>
      simp only [State.configure, bind_eq_ok, pure_eq_ok] at h
      obtain ⟨t, ht, rfl⟩ := h
      obtain rfl := hpool ht
      exact ⟨rfl, rfl, rfl, rfl, rfl, rfl, rfl, .inl ⟨rfl, rfl⟩⟩
  | setOpenVerifier v =>
      rw [State.configure] at h
      obtain rfl := hescrow h
      exact ⟨rfl, rfl, rfl, rfl, rfl, rfl, rfl, .inl ⟨rfl, rfl⟩⟩
  | setSettleVerifier v =>
      rw [State.configure] at h
      obtain rfl := hescrow h
      exact ⟨rfl, rfl, rfl, rfl, rfl, rfl, rfl, .inl ⟨rfl, rfl⟩⟩
  | _ =>
      rw [State.configure] at h
      obtain rfl := hpool h
      exact ⟨rfl, rfl, rfl, rfl, rfl, rfl, rfl, .inl ⟨rfl, rfl⟩⟩

/-- The pool's balance of a token fell, by a pull or by a rebasing token only. -/
def Drained (E : Env) (K : List (Pending State (Entry E) Kont)) (token : Address) : Prop :=
  E.rebasing = true ∨ ∃ p ∈ K, ∃ messenger domain burn, p.kont = .burning token messenger domain burn

/-- **Inversion of outside actions.** Either balances, allowances and the block number change, or the
contracts are configured between transactions. -/
theorem act_inv {K : List (Pending State (Entry E) Kont)} {a : Action} (h : act E K a s = some s') :
    (∃ b al n, s' = { s with balance := b, allowance := al, block := n } ∧ s.block ≤ n ∧
      (K ≠ [] → n = s.block) ∧
      ∀ token, s.poolBalance E token ≤ b token E.pool ∨ Drained E K token) ∨
    (K = [] ∧ Configured s s') := by
  cases a with
  | mint token holder amount =>
      cases h
      refine .inl ⟨_, _, _, rfl, le_rfl, fun _ => rfl, fun t => .inl ?_⟩
      by_cases ht : t = token
      · subst ht
        by_cases hh : E.pool = holder
        · simp [State.poolBalance, ← hh]
        · simp [State.poolBalance, hh]
      · simp [State.poolBalance, ht]
  | burn token holder amount =>
      simp only [act, Option.ite_none_right_eq_some, Option.some.injEq] at h
      obtain ⟨hne, rfl⟩ := h
      refine .inl ⟨_, _, _, rfl, le_rfl, fun _ => rfl, fun t => .inl ?_⟩
      by_cases ht : t = token
      · subst ht
        simp [State.poolBalance, Ne.symm hne]
      · simp [State.poolBalance, ht]
  | pull token messenger amount =>
      simp only [act, Option.ite_none_right_eq_some, Option.some.injEq] at h
      obtain ⟨⟨hK, -, -⟩, rfl⟩ := h
      refine .inl ⟨_, _, _, rfl, le_rfl, fun _ => rfl, fun t => ?_⟩
      by_cases ht : t = token
      · subst ht
        obtain ⟨p, hp, hb⟩ := List.any_eq_true.1 hK
        refine .inr (.inr ⟨p, hp, ?_⟩)
        cases hk : p.kont with
        | burning t' m d b =>
            rw [hk] at hb
            simp only [Kont.isBurning, Bool.and_eq_true, beq_iff_eq] at hb
            exact ⟨m, d, b, by rw [hb.1]⟩
        | _ => simp [hk, Kont.isBurning] at hb
      · exact .inl (by simp [State.poolBalance, State.setBalance, ht])
  | rebase token holder amount =>
      simp only [act, Option.ite_none_right_eq_some, Option.some.injEq] at h
      obtain ⟨hr, rfl⟩ := h
      exact .inl ⟨_, _, _, rfl, le_rfl, fun _ => rfl, fun _ => .inr (.inl hr)⟩
  | mine blocks =>
      simp only [act, Option.ite_none_right_eq_some, Option.some.injEq, List.isEmpty_iff] at h
      obtain ⟨hK, rfl⟩ := h
      exact .inl ⟨_, _, _, rfl, Nat.le_add_right _ _, fun hne => absurd hK hne, fun _ => .inl le_rfl⟩
  | configure sender call =>
      simp only [act, Option.ite_none_right_eq_some, List.isEmpty_iff] at h
      exact .inr ⟨h.1, configure_inv (toOption_eq_some.1 h.2)⟩

end

/-! ## Invariants of the state -/

section
variable {E : Env}

/-- **The rule for an invariant of the state.** It is kept by the primitives, by what happens to
balances, allowances and the block number, and by configuration. -/
theorem preserves_state {I : State → Prop}
    (hprim : ∀ {p : Prim} {s s' : State}, I s → p.run E s = .ok s' → I s')
    (hchain : ∀ {s : State} (b al n), I s → I { s with balance := b, allowance := al, block := n })
    (hconf : ∀ {s s' : State}, I s → Configured s s' → I s') :
    Preserves (machine E) fun _ w => I w.1 := by
  have henter : ∀ {e : Entry E} {s s' : State} {ko : Option Kont}, I s →
      (machine E).enter e s = some (s', ko) → I s' := fun hI h =>
    runPrims_induct (fun _ _ _ _ => hprim) (machine_enter h).2.1 hI
  have hresume : ∀ {k : Kont} {s s' : State} {ko : Option Kont}, I s →
      (machine E).resume k s = some (s', ko) → I s' := by
    intro k s s' ko hI h
    refine runPrims_induct (fun _ _ _ _ => hprim) (machine_resume h).1 ?_
    cases k with
    | transferring => exact hchain _ s.allowance s.block hI
    | approving => exact hchain s.balance _ s.block hI
    | _ => exact hI
  refine ⟨henter, henter, hresume, hresume, fun hI h => ?_⟩
  rcases act_inv h with ⟨b, al, n, rfl, -⟩ | ⟨-, hc⟩
  · exact hchain b al n hI
  · exact hconf hI hc

/-- The pool's tree. -/
def TreeInv (E : Env) (s : State) : Prop :=
  IncrementalMerkleTree.Inv E.hashLeftRight E.levels s.pool.tree

/-- A primitive inserts a leaf or leaves the tree alone. -/
theorem Prim.run_tree {p : Prim} {s s' : State} (h : p.run E s = .ok s') :
    s'.pool.tree = s.pool.tree ∨ ∃ leaf i, p = .insert leaf ∧
      s.pool.tree.insert E.hashLeftRight E.levels leaf = .ok (i, s'.pool.tree) := by
  cases p with
  | spend x n =>
      obtain ⟨-, rfl⟩ := State.spend_eq_ok.1 h
      exact .inl rfl
  | insert leaf =>
      simp only [Prim.run, bind_eq_ok, Prod.exists, pure_eq_ok] at h
      obtain ⟨i, _, h, rfl⟩ := h
      obtain ⟨t, ht, rfl⟩ := State.insert_eq_ok.1 h
      exact .inr ⟨leaf, i, rfl, ht⟩
  | adjust a d =>
      obtain ⟨-, rfl⟩ := State.adjustNoteSupply_eq_ok.1 h
      exact .inl rfl
  | deposit n =>
      cases h
      exact .inl rfl
  | openChannel c ch =>
      simp only [Prim.run, bind_eq_ok, require_eq_ok, exists_unit, pure_eq_ok] at h
      obtain ⟨-, rfl⟩ := h
      exact .inl rfl
  | consume c =>
      simp only [Prim.run, bind_eq_ok, require_eq_ok, exists_unit, pure_eq_ok] at h
      obtain ⟨-, -, rfl⟩ := h
      exact .inl rfl
  | emit e =>
      cases h
      exact .inl rfl

/-- A primitive keeps the tree well-formed. -/
theorem TreeInv.prim {p : Prim} {s s' : State} (hI : TreeInv E s) (h : p.run E s = .ok s') :
    TreeInv E s' := by
  rcases Prim.run_tree h with he | ⟨leaf, i, -, hins⟩
  · rw [TreeInv, he]
    exact hI
  · exact (IncrementalMerkleTree.insert_inv hI hins).1

/-- **Invariant.** The pool's tree is well-formed. -/
theorem preserves_treeInv : Preserves (machine E) fun _ w => TreeInv E w.1 :=
  preserves_state (fun hI h => hI.prim h) (fun _ _ _ hI => hI) fun hI hc => by
    rw [TreeInv, hc.tree]
    exact hI

/-- The constructors leave the tree of no leaves, no spent nullifier, no supply and no channel. -/
theorem Deployed.spec {s₀ : State} (h : Deployed E s₀) :
    TreeInv E s₀ ∧ s₀.pool.tree.leaves = [] ∧ (∀ n, s₀.registry.spent n = false) ∧
      (∀ a, s₀.pool.noteSupplyOf a = 0 ∧ s₀.pool.assetToken a = 0) ∧
      ∀ c, s₀.escrow.channels c = Channel.zero := by
  obtain ⟨r, p, e, b, n, h⟩ := h
  obtain ⟨t, ht, hI, hnil⟩ :=
    @IncrementalMerkleTree.construct_inv E.hashLeftRight E.levels E.levels_pos E.levels_lt
  rw [construct, ht, ok_bind] at h
  cases h
  exact ⟨hI, hnil, fun _ => rfl, fun _ => ⟨rfl, rfl⟩, fun _ => rfl⟩

/-- **The tree over runs.** -/
theorem treeInv_reachable {s₀ : State} {K : List (Pending State (Entry E) Kont)}
    {w : World State (Entry E) Kont} (hd : Deployed E s₀) (h : Reachable E s₀ K w) :
    TreeInv E w.1 :=
  preserves_treeInv.reach hd.spec.1 h

end

/-! ## Conditions on the configuration -/

section
variable (E : Env)

/-- Every asset is registered under the hash of its token. -/
def ByHash (s : State) : Prop :=
  ∀ a, s.pool.assetToken a ≠ 0 → a = E.addressHash (s.pool.assetToken a)

/-- No contract but the escrow may insert stream notes. -/
def OnlyEscrow (s : State) : Prop := ∀ x, s.pool.authorizedStreamContract x = true → x = E.escrow

/-- A configuration as the deployment scripts leave it. -/
structure Standard (s : State) : Prop where
  byHash : ByHash E s
  onlyEscrow : OnlyEscrow E s

/-- A configuration call of the deployment scripts. -/
def AdminCall.Standard : AdminCall → Prop
  | .registerAsset assetId token => assetId = E.addressHash token
  | .setAuthorizedStreamContract streamContract allowed => allowed = true → streamContract = E.escrow
  | _ => True

variable {E} {s s' : State}

/-- Only the tokens and the stream contracts matter. -/
theorem Standard.congr (h : Standard E s) (ht : s'.pool.assetToken = s.pool.assetToken)
    (hx : s'.pool.authorizedStreamContract = s.pool.authorizedStreamContract) : Standard E s' where
  byHash := by
    rw [ByHash, ht]
    exact h.byHash
  onlyEscrow := by
    rw [OnlyEscrow, hx]
    exact h.onlyEscrow

/-- A list of primitives keeps the configuration. -/
theorem Standard.prims {ps : List Prim} (h : Standard E s) (hrun : runPrims E ps s = .ok s') :
    Standard E s' := by
  have hcfg := runPrims_config hrun
  exact h.congr (by rw [hcfg.pool]) (by rw [hcfg.pool])

/-- A standard configuration call keeps the configuration standard. -/
theorem Standard.configure {sender : Address} {call : AdminCall} (h : Standard E s)
    (hcall : call.Standard E) (hrun : s.configure sender call = .ok s') : Standard E s' := by
  have hsetAccess : ∀ (a : Access) (t : Target), Standard E (s.setAccess a t) := by
    intro a t
    cases t <;> exact h.congr rfl rfl
  cases call with
  | grantRole t r a =>
      simp only [State.configure, bind_eq_ok, exists_unit, pure_eq_ok] at hrun
      obtain ⟨-, rfl⟩ := hrun
      exact hsetAccess _ _
  | revokeRole t r a =>
      simp only [State.configure, bind_eq_ok, exists_unit, pure_eq_ok] at hrun
      obtain ⟨-, rfl⟩ := hrun
      exact hsetAccess _ _
  | renounceRole t r =>
      cases hrun
      exact hsetAccess _ _
  | pause t =>
      simp only [State.configure, bind_eq_ok, exists_unit, pure_eq_ok] at hrun
      obtain ⟨-, -, rfl⟩ := hrun
      exact hsetAccess _ _
  | unpause t =>
      simp only [State.configure, bind_eq_ok, exists_unit, pure_eq_ok] at hrun
      obtain ⟨-, -, rfl⟩ := hrun
      exact hsetAccess _ _
  | registerAsset a t =>
      simp only [State.configure, State.registerAsset, bind_eq_ok, require_eq_ok, exists_unit,
        pure_eq_ok] at hrun
      obtain ⟨-, hnew, rfl⟩ := hrun
      refine ⟨fun b hb => ?_, h.onlyEscrow⟩
      by_cases hba : b = a
      · subst hba
        simp only [Function.update_self]
        exact hcall
      · simp only [Function.update_of_ne hba] at hb ⊢
        exact h.byHash b hb
  | setAuthorizedStreamContract a allowed =>
      simp only [State.configure, State.setPool, bind_eq_ok, exists_unit, pure_eq_ok] at hrun
      obtain ⟨-, ⟨-, rfl⟩, rfl⟩ := hrun
      refine ⟨h.byHash, fun x hx => ?_⟩
      by_cases hxa : x = a
      · subst hxa
        exact hcall (by simpa [State.emit] using hx)
      · exact h.onlyEscrow x (by simpa [State.emit, hxa] using hx)
  | setAssociationRoot r =>
      simp only [State.configure, State.setPool, bind_eq_ok, exists_unit, pure_eq_ok] at hrun
      obtain ⟨-, ⟨-, rfl⟩, rfl⟩ := hrun
      exact h.congr rfl rfl
  | setCommittee pks =>
      simp only [State.configure, State.setPool, bind_eq_ok, exists_unit, pure_eq_ok] at hrun
      obtain ⟨-, ⟨-, rfl⟩, rfl⟩ := hrun
      exact h.congr rfl rfl
  | _ =>
      simp only [State.configure, State.setPool, State.setEscrow, bind_eq_ok, exists_unit,
        pure_eq_ok] at hrun
      obtain ⟨-, rfl⟩ := hrun
      exact h.congr rfl rfl

end

/-! ## The calls of a run -/

section
variable {E : Env}

/-- The successful calls so far with the states before them: the finished ones, then the suspended
ones. -/
def calls (K : List (Pending State (Entry E) Kont)) (w : World State (Entry E) Kont) :
    List (Entry E × State) :=
  w.2.map (fun f => (f.entry, f.pre)) ++ K.map fun p => (p.entry, p.pre)

/-- **The rule for an invariant of the calls and the state.** -/
theorem preserves_calls {C : State → Prop} {J : List (Entry E × State) → State → Prop}
    (hcall : ∀ {l₁ l₂ e s s'}, C s → J (l₁ ++ l₂) s → e.call.Checks E e.sender s →
      runPrims E (e.call.prims E e.sender s) s = .ok s' → J (l₁ ++ (e, s) :: l₂) s')
    (hresume : ∀ {l k s s'}, C s → J l s → runPrims E (Kont.prims k) (k.tokens E s) = .ok s' →
      J l s')
    (hact : ∀ {l K a s s'}, C s → J l s → act E K a s = some s' → J l s') :
    PreservesIn (machine E) C fun K w => J (calls K w) w.1 := by
  refine ⟨fun {K s tr e s'} hC _ hJ h => ?_, fun {K s tr e s' k} hC _ hJ h => ?_,
    fun {K p s tr s'} hC _ hJ h => ?_, fun {K p s tr s' k} hC _ hJ h => ?_,
    fun hC _ hJ h => hact hC hJ h⟩
  · obtain ⟨h1, h2, -⟩ := machine_enter h
    rw [calls, List.map_append, List.append_assoc]
    exact hcall hC hJ h1 h2
  · obtain ⟨h1, h2, -⟩ := machine_enter h
    rw [calls, List.map_cons]
    exact hcall hC hJ h1 h2
  · have := hresume hC hJ (machine_resume h).1
    simpa [calls, Pending.finish] using this
  · exact hresume hC hJ (machine_resume h).1

/-- A call waits at `k` after it has gone through `ks`: at its first suspension point, or at the one
after that. -/
inductive Suspended (call : Call) (pre : State) : List Kont → Kont → Prop
  | first {k : Kont} : call.kont pre = some k → Suspended call pre [] k
  | next {k₀ k : Kont} {s : State} : call.kont pre = some k₀ → k₀.next s = some k →
      Suspended call pre [k₀] k

/-- A suspended call is one that suspends. -/
theorem Suspended.kont_ne {call : Call} {pre : State} {ks : List Kont} {k : Kont}
    (h : Suspended call pre ks k) : call.kont pre ≠ none := by
  cases h with
  | first h => simp [h]
  | next h _ => simp [h]

/-- A suspension point that is not the last updates nothing when it is left. -/
theorem Kont.prims_of_next {k : Kont} {s : State} (h : k.next s ≠ none) : k.prims = [] := by
  cases k with
  | transferring => rfl
  | approving => rfl
  | _ => exact absurd rfl h

/-- A suspended call moves on to its next suspension point. -/
theorem Suspended.advance {call : Call} {pre s : State} {ks : List Kont} {k k' : Kont}
    (h : Suspended call pre ks k) (hk : k.next s = some k') : Suspended call pre (ks ++ [k]) k' := by
  cases h with
  | first h => exact .next h hk
  | next h h' =>
      rename_i k₀ t
      cases k₀ <;> cases h' <;> cases hk

/-- What a run knows of its calls: each passed its checks in a state that meets `C`; a suspended one
waits at one of its suspension points, and a finished one ran its primitives at once or went through
all of them. -/
structure FramesOk (C : State → Prop) (K : List (Pending State (Entry E) Kont))
    (w : World State (Entry E) Kont) : Prop where
  pending : ∀ p ∈ K, C p.pre ∧ p.entry.call.Checks E p.entry.sender p.pre ∧
    Suspended p.entry.call p.pre p.konts p.kont
  finished : ∀ f ∈ w.2, C f.pre ∧ f.entry.call.Checks E f.entry.sender f.pre ∧
    ((f.konts = [] ∧ f.entry.call.kont f.pre = none ∧
      runPrims E (f.entry.call.prims E f.entry.sender f.pre) f.pre = .ok f.post) ∨
    ∃ ks k s, f.konts = ks ++ [k] ∧ k.next s = none ∧ Suspended f.entry.call f.pre ks k ∧
      runPrims E k.prims (k.tokens E s) = .ok f.post)

/-- **Invariant.** What a run knows of each of its calls. -/
theorem preserves_framesOk {C : State → Prop} : PreservesIn (machine E) C (FramesOk C) := by
  refine ⟨fun {K s tr e s'} hC _ hI h => ?_, fun {K s tr e s' k} hC _ hI h => ?_,
    fun {K p s tr s'} hC _ hI h => ?_, fun {K p s tr s' k} hC _ hI h => ?_,
    fun hC _ hI h => ⟨hI.pending, hI.finished⟩⟩
  · obtain ⟨h1, h2, h3⟩ := machine_enter h
    refine ⟨hI.pending, fun f hf => ?_⟩
    rcases List.mem_append.1 hf with hf | hf
    · exact hI.finished f hf
    · obtain rfl := List.mem_singleton.1 hf
      exact ⟨hC, h1, .inl ⟨rfl, h3.symm, h2⟩⟩
  · obtain ⟨h1, h2, h3⟩ := machine_enter h
    refine ⟨fun p hp => ?_, hI.finished⟩
    rcases List.mem_cons.1 hp with rfl | hp
    · exact ⟨hC, h1, .first h3.symm⟩
    · exact hI.pending p hp
  · obtain ⟨h1, h2, -⟩ := machine_resume h
    obtain ⟨hpC, hpc, hpk⟩ := hI.pending p (by simp)
    refine ⟨fun q hq => hI.pending q (by simp [hq]), fun f hf => ?_⟩
    rcases List.mem_append.1 hf with hf | hf
    · exact hI.finished f hf
    · obtain rfl := List.mem_singleton.1 hf
      exact ⟨hpC, hpc, .inr ⟨p.konts, p.kont, s, rfl, h2.symm, hpk, h1⟩⟩
  · obtain ⟨-, h2, -⟩ := machine_resume h
    refine ⟨fun q hq => ?_, hI.finished⟩
    rcases List.mem_cons.1 hq with rfl | hq
    · obtain ⟨hpC, hpc, hpk⟩ := hI.pending p (by simp)
      exact ⟨hpC, hpc, hpk.advance h2.symm⟩
    · exact hI.pending q (by simp [hq])

/-- **Frames over runs.** -/
theorem framesOk_reach {C : State → Prop} {s₀ : State} {K : List (Pending State (Entry E) Kont)}
    {w : World State (Entry E) Kont} (hC : C s₀)
    (h : Reach ((machine E).within C) [] (s₀, []) K w) : FramesOk C K w :=
  (preserves_framesOk.reach hC ⟨by simp, by simp⟩ h).2

/-- What is known of each call of a run. -/
theorem framesOk_reachable {s₀ : State} {K : List (Pending State (Entry E) Kont)}
    {w : World State (Entry E) Kont} (h : Reachable E s₀ K w) : FramesOk (fun _ => True) K w :=
  preserves_framesOk.univ.reach ⟨by simp, by simp⟩ h

end

end ShadePay.Evm
