import ShadePay.Stellar.Effects

/-!
# Runs of the Soroban pool

What every call does to the nullifiers, the tree and the identity of the pool (`Call.invoke_summary`),
the induction over runs (`run_induct`), and the first invariant: the `KnownRoot` entries are the zero
word and the roots of the non-empty prefixes of the leaves (`Roots`, `roots_run`).
-/

namespace ShadePay.Stellar

open Guard

/-- The first word of a signal string. -/
def firstSignal (pub : List UInt8) : List Bytes32 :=
  match parsePublicSignals pub with
  | .ok (w :: _) => [w]
  | _ => []

/-- The first signal of a text that parses. -/
theorem firstSignal_eq {pub : List UInt8} {signals : List Bytes32} {w : Bytes32}
    (hp : parsePublicSignals pub = .ok signals) (h0 : signals[0]? = some w) :
    firstSignal pub = [w] := by
  cases signals with
  | nil => simp at h0
  | cons x xs =>
      obtain rfl : x = w := by simpa using h0
      simp [firstSignal, hp]

/-- The nullifiers a call spends. -/
def Call.nullifiers : Call → List Bytes32
  | .withdraw _ _ pub => firstSignal pub
  | .withdrawCctp _ _ pub _ _ _ _ => firstSignal pub
  | .rfqSettle _ _ pub _ _ _ _ _ => firstSignal pub
  | .rfqSettleAtomicSwap _ _ _ pub _ _ _ _ _ _ _ _ _ => firstSignal pub
  | .privateTransferSettle _ pub _ => firstSignal pub
  | .mpcSettle na nb _ _ _ _ _ _ _ _ => [na, nb]
  | .mpcSettlePriced na nb _ _ _ _ _ _ _ _ => [na, nb]
  | .registrySpend _ n => [n]
  | _ => []

/-- What a call did to the nullifiers, the tree and the identity of the pool. -/
structure Summary (E : Env) (nullifiers : List Bytes32) (s s' : State) : Prop where
  nodup : nullifiers.Nodup
  fresh : ∀ n ∈ nullifiers, s.registry.spent n = false
  spent : ∀ n, s'.registry.spent n = true ↔ s.registry.spent n = true ∨ n ∈ nullifiers
  tree : ∃ leaves : List Bytes32,
    s'.tree = leaves.foldl (fun t c => t.push (hash2 E.poseidon) c) s.tree ∧
      s'.leafCount = s.leafCount + leaves.length
  poolId : s'.poolId = s.poolId
  chainId : s'.chainId = s.chainId
  usdc : s'.usdc = s.usdc

section
variable {E : Env} {s s' : State}

/-- The nullifiers that are spent after one is marked. -/
theorem Registry.mark_spent {n m : Bytes32} {r : Registry} :
    (r.mark n).spent m = true ↔ r.spent m = true ∨ m = n := by
  by_cases h : m = n
  · subst h
    simp [Registry.mark]
  · simp [Registry.mark, h]

/-- A call that spends nothing and appends nothing. -/
theorem Summary.idle (hspent : s'.registry.spent = s.registry.spent) (htree : s'.tree = s.tree)
    (hcount : s'.leafCount = s.leafCount) (hpool : s'.poolId = s.poolId)
    (hchain : s'.chainId = s.chainId) (husdc : s'.usdc = s.usdc) : Summary E [] s s' :=
  ⟨by simp, by simp, by simp [hspent], ⟨[], by simpa using htree, by simpa using hcount⟩, hpool,
    hchain, husdc⟩

/-- A call that spends one nullifier and appends `leaves`. -/
theorem Summary.one {n : Bytes32} (leaves : List Bytes32) (hfresh : s.registry.spent n = false)
    (hreg : s'.registry = s.registry.mark n)
    (htree : s'.tree = leaves.foldl (fun t c => t.push (hash2 E.poseidon) c) s.tree)
    (hcount : s'.leafCount = s.leafCount + leaves.length) (hpool : s'.poolId = s.poolId)
    (hchain : s'.chainId = s.chainId) (husdc : s'.usdc = s.usdc) : Summary E [n] s s' :=
  ⟨by simp, by simpa using hfresh, by simp [hreg, Registry.mark_spent], ⟨leaves, htree, hcount⟩,
    hpool, hchain, husdc⟩

/-- A committee settlement. -/
theorem Summary.pair {na nb oa ob : Bytes32} {e : Event} (hne : na ≠ nb)
    (hA : s.registry.spent na = false) (hB : s.registry.spent nb = false) :
    Summary E [na, nb] s (s.settled E na nb oa ob e) := by
  refine ⟨by simpa using hne, ?_, ?_, ⟨[oa, ob], rfl, rfl⟩, rfl, rfl, rfl⟩
  · rintro n hn
    rcases List.mem_pair.1 hn with rfl | rfl
    · exact hA
    · exact hB
  · intro n
    simp [State.settled, Registry.mark_spent, or_assoc]

/-- A nullifier is spent if the registry runs, the spender is authorized and it is new. -/
theorem Registry.spend_eq_ok {x : Address} {n : Bytes32} {r r' : Registry} :
    r.spend x n = .ok r' ↔ (r.paused = false ∧ r.authorized x = true ∧ r.spent n = false) ∧
      r' = r.mark n := by
  simp [Registry.spend, Registry.mark, @eq_comm _ r', and_assoc]

/-- A setter of the pool does what it is for. -/
theorem State.asAdmin_eq_ok {auth : Address → Bool} {f : State → State}
    (h : s.asAdmin auth f = .ok s') : s' = f s := by
  simp only [State.asAdmin, bind_eq_ok, exists_unit, pure_eq_ok] at h
  exact h.2.symm

/-- A setter of the registry does what it is for. -/
theorem State.asRegistryAdmin_eq_ok {auth : Address → Bool} {f : Registry → Registry}
    (h : s.asRegistryAdmin auth f = .ok s') : s' = { s with registry := f s.registry } := by
  simp only [State.asRegistryAdmin, bind_eq_ok, exists_unit, pure_eq_ok] at h
  obtain ⟨_, -, -, rfl⟩ := h
  rfl

/-- The initialization of the registry. -/
theorem State.registryInitialize_eq_ok {auth : Address → Bool} {a : Address}
    (h : s.registryInitialize auth a = .ok s') :
    s' = { s with registry := { s.registry with admin := some a, paused := false } } := by
  simp only [State.registryInitialize, bind_eq_ok, exists_unit, pure_eq_ok] at h
  exact h.2.2.symm

/-- What a configuration call leaves alone. -/
structure AdminFrame (s s' : State) : Prop where
  spent : s'.registry.spent = s.registry.spent
  tree : s'.tree = s.tree
  leafCount : s'.leafCount = s.leafCount
  poolId : s'.poolId = s.poolId
  chainId : s'.chainId = s.chainId
  usdc : s'.usdc = s.usdc
  assetToken : s'.assetToken = s.assetToken
  noteSupply : s'.noteSupply = s.noteSupply
  balance : s'.balance = s.balance
  events : s'.events = s.events

/-- What a setter leaves alone. -/
theorem AdminCall.invoke_frame {auth : Address → Bool} {c : AdminCall}
    (h : c.invoke auth s = .ok s') : AdminFrame s s' := by
  cases c with
  | registryInitialize a =>
      obtain rfl := State.registryInitialize_eq_ok h
      exact ⟨rfl, rfl, rfl, rfl, rfl, rfl, rfl, rfl, rfl, rfl⟩
  | registrySetAuthorizedSpender a allowed =>
      rw [AdminCall.invoke] at h
      obtain rfl := State.asRegistryAdmin_eq_ok h
      exact ⟨rfl, rfl, rfl, rfl, rfl, rfl, rfl, rfl, rfl, rfl⟩
  | registryPause =>
      rw [AdminCall.invoke] at h
      obtain rfl := State.asRegistryAdmin_eq_ok h
      exact ⟨rfl, rfl, rfl, rfl, rfl, rfl, rfl, rfl, rfl, rfl⟩
  | registryUnpause =>
      rw [AdminCall.invoke] at h
      obtain rfl := State.asRegistryAdmin_eq_ok h
      exact ⟨rfl, rfl, rfl, rfl, rfl, rfl, rfl, rfl, rfl, rfl⟩
  | _ =>
      rw [AdminCall.invoke] at h
      obtain rfl := State.asAdmin_eq_ok h
      exact ⟨rfl, rfl, rfl, rfl, rfl, rfl, rfl, rfl, rfl, rfl⟩

/-- A configuration call leaves the nullifiers and the tree alone. -/
theorem AdminCall.invoke_summary {auth : Address → Bool} {c : AdminCall}
    (h : c.invoke auth s = .ok s') : Summary E [] s s' :=
  have hf := AdminCall.invoke_frame h
  .idle hf.spent hf.tree hf.leafCount hf.poolId hf.chainId hf.usdc

/-- **The summary of a call.** -/
theorem Call.invoke_summary {auth : Address → Bool} {call : Call}
    (h : call.invoke E auth s = .ok s') : Summary E call.nullifiers s s' := by
  cases call with
  | receiveCctpDeposit d n a amt c r enc pol proof pub =>
      simp only [Call.invoke, bind_eq_ok, Prod.exists, pure_eq_ok] at h
      obtain ⟨i, _, h, rfl⟩ := h
      obtain ⟨signals, v, op, src, dst, a6, a7, p, h⟩ := State.receiveCctpDeposit_inv h
      obtain ⟨c', h⟩ := h
      obtain ⟨-, -, -, -, -, -, -, h⟩ := h
      obtain ⟨-, -, -, -, -, -, -, h⟩ := h
      obtain ⟨-, -, -, -, -, -, -, h⟩ := h
      obtain ⟨-, -, -, -, rfl⟩ := h
      exact ⟨by simp [Call.nullifiers], by simp [Call.nullifiers], by simp [Call.nullifiers],
        ⟨[c], rfl, rfl⟩, rfl, rfl, rfl⟩
  | withdraw a proof pub =>
      obtain ⟨signals, nh, value, fee, asset, token, hf, h⟩ := State.withdraw_inv h
      obtain ⟨-, -, -, -, -, -, -, h⟩ := h
      obtain ⟨-, -, -, -, rfl⟩ := h
      rw [Call.nullifiers, firstSignal_eq hf.parsed hf.nullifier]
      exact .one [] hf.fresh rfl rfl rfl rfl rfl rfl
  | privateTransferSettle proof pub r =>
      obtain ⟨signals, nh, out, v, p, c, h⟩ := State.privateTransferSettle_inv h
      obtain ⟨hp, h0, -, -, -, -, -, h⟩ := h
      obtain ⟨-, -, hfresh, -, -, rfl⟩ := h
      rw [Call.nullifiers, firstSignal_eq hp h0]
      exact .one [out] hfresh rfl rfl rfl rfl rfl rfl
  | withdrawCctp a proof pub d r fee fin =>
      simp only [Call.invoke, bind_eq_ok, Prod.exists, pure_eq_ok] at h
      obtain ⟨i, _, h, rfl⟩ := h
      obtain ⟨signals, nh, value, fee', fin', token, hf, h⟩ := State.withdrawCctp_inv h
      obtain ⟨-, -, -, -, -, -, -, h⟩ := h
      obtain ⟨-, -, -, -, -, -, -, rfl⟩ := h
      rw [Call.nullifiers, firstSignal_eq hf.parsed hf.nullifier]
      exact .one [] hf.fresh rfl rfl rfl rfl rfl rfl
  | rfqSettle a proof pub q i f pk sig =>
      obtain ⟨signals, nh, value, hf, -, -, -, rfl⟩ := State.rfqSettle_inv h
      rw [Call.nullifiers, firstSignal_eq hf.parsed hf.nullifier]
      exact .one [] hf.fresh rfl rfl rfl rfl rfl rfl
  | rfqSettleAtomicSwap u v proof pub q i f o qo mo ps pk sig =>
      obtain ⟨signals, nh, value, fee, asset, t, t', h⟩ := State.rfqSettleAtomicSwap_inv h
      obtain ⟨hf, -, -, -, -, -, -, h⟩ := h
      obtain ⟨-, -, -, -, -, -, -, h⟩ := h
      obtain ⟨-, -, rfl⟩ := h
      rw [Call.nullifiers, firstSignal_eq hf.parsed hf.nullifier]
      exact .one [] hf.fresh rfl rfl rfl rfl rfl rfl
  | mpcSettle na nb oa ob r b pks sigs proof pub =>
      obtain ⟨sb, signals, hf, -, rfl⟩ := State.mpcSettle_inv h
      exact .pair hf.distinct hf.freshA hf.freshB
  | mpcSettlePriced na nb oa ob r b pks sigs proof pub =>
      obtain ⟨sb, signals, hf, -, rfl⟩ := State.mpcSettlePriced_inv h
      exact .pair hf.distinct hf.freshA hf.freshB
  | registerAsset id token =>
      simp only [Call.invoke, State.registerAsset, bind_eq_ok, exists_unit, pure_eq_ok] at h
      obtain ⟨-, -, rfl⟩ := h
      exact .idle rfl rfl rfl rfl rfl rfl
  | registrySpend x n =>
      simp only [Call.invoke, State.registrySpend, bind_eq_ok, exists_unit, Registry.spend_eq_ok,
        pure_eq_ok] at h
      obtain ⟨-, -, _, ⟨⟨-, -, hfresh⟩, rfl⟩, rfl⟩ := h
      exact .one [] hfresh rfl rfl rfl rfl rfl rfl
  | admin c => exact AdminCall.invoke_summary h

/-- **Induction over runs.** An invariant of the state and of the invocations so far, kept by every
successful invocation and by what happens around them. -/
theorem run_induct {I : State → List Invocation → Prop}
    (hinvoke : ∀ {s is auth call s'}, I s is → call.invoke E auth s = .ok s' →
      I s' (is ++ [⟨call, s, s'⟩]))
    (harrive : ∀ {s is token holder amount}, I s is →
      I (Step.run E s (.arrive token holder amount)).1 is)
    (hclose : ∀ {s is}, I s is → I { s with ledger := s.ledger + 1 } is)
    (ts : List Step) {is : List Invocation} (h : I s is) :
    I (run E ts s).1 (is ++ (run E ts s).2) := by
  induction ts generalizing s is with
  | nil => simpa [run] using h
  | cons t ts ih =>
      simp only [run]
      cases t with
      | invoke auth call =>
          cases hc : call.invoke E auth s with
          | error e => simpa [Step.run, hc] using ih h
          | ok s' =>
              have := ih (hinvoke h hc)
              simpa [Step.run, hc] using this
      | arrive token holder amount =>
          have := ih (@harrive _ _ token holder amount h)
          simpa [Step.run] using this
      | close =>
          have := ih (hclose h)
          simpa [Step.run] using this

end

/-! ## Known roots -/

/-- The tree store, the counter and the `KnownRoot` entries against the leaves. -/
structure Roots (E : Env) (s : State) : Prop where
  known : ∀ r, s.tree.knownRoot r = true ↔ r = zeroWord ∨ ∃ l, l ≠ [] ∧ l <+: s.tree.leaves ∧
    r = frToBytes (Merkle.root (hash2 E.poseidon) 0 s.tree.depth (LeanIMT.scalars l))
  count : s.leafCount = s.tree.leaves.length

/-- One more leaf adds one prefix. -/
theorem TreeStore.push_known {h : Bls12381 → Bls12381 → Bls12381} {t : TreeStore}
    (ht : ∀ r, t.knownRoot r = true ↔ r = zeroWord ∨ ∃ l, l ≠ [] ∧ l <+: t.leaves ∧
      r = frToBytes (Merkle.root h 0 t.depth (LeanIMT.scalars l))) (c r : Bytes32) :
    (t.push h c).knownRoot r = true ↔ r = zeroWord ∨ ∃ l, l ≠ [] ∧ l <+: (t.push h c).leaves ∧
      r = frToBytes (Merkle.root h 0 (t.push h c).depth (LeanIMT.scalars l)) := by
  have hstep : (t.push h c).knownRoot r = true ↔ t.knownRoot r = true ∨
      r = frToBytes (Merkle.root h 0 t.depth (LeanIMT.scalars (t.leaves ++ [c]))) := by
    by_cases he : r = frToBytes (Merkle.root h 0 t.depth (LeanIMT.scalars (t.leaves ++ [c])))
    · simp [TreeStore.push, ← he]
    · simp [TreeStore.push, he]
  rw [hstep, ht, push_leaves, push_depth]
  constructor
  · rintro ((rfl | ⟨l, hne, hl, rfl⟩) | rfl)
    · exact .inl rfl
    · exact .inr ⟨l, hne, hl.trans (List.prefix_append _ _), rfl⟩
    · exact .inr ⟨_, by simp, List.prefix_refl _, rfl⟩
  · rintro (rfl | ⟨l, hne, hl, rfl⟩)
    · exact .inl (.inl rfl)
    · rcases List.prefix_concat_iff.1 hl with rfl | hl
      · exact .inr rfl
      · exact .inl (.inr ⟨l, hne, hl, rfl⟩)

section
variable {E : Env}

/-- Appending a sequence. -/
theorem TreeStore.foldl_push_known {h : Bls12381 → Bls12381 → Bls12381} (cs : List Bytes32)
    {t : TreeStore} (ht : ∀ r, t.knownRoot r = true ↔ r = zeroWord ∨ ∃ l, l ≠ [] ∧ l <+: t.leaves ∧
      r = frToBytes (Merkle.root h 0 t.depth (LeanIMT.scalars l))) :
    ∀ r, (cs.foldl (fun t c => t.push h c) t).knownRoot r = true ↔ r = zeroWord ∨
      ∃ l, l ≠ [] ∧ l <+: (cs.foldl (fun t c => t.push h c) t).leaves ∧
        r = frToBytes (Merkle.root h 0 (cs.foldl (fun t c => t.push h c) t).depth
          (LeanIMT.scalars l)) := by
  induction cs generalizing t with
  | nil => exact ht
  | cons c cs ih => exact ih (TreeStore.push_known ht c)

/-- What it appends. -/
theorem TreeStore.foldl_push_leaves {h : Bls12381 → Bls12381 → Bls12381} (cs : List Bytes32)
    (t : TreeStore) : (cs.foldl (fun t c => t.push h c) t).leaves = t.leaves ++ cs ∧
      (cs.foldl (fun t c => t.push h c) t).depth = t.depth := by
  induction cs generalizing t with
  | nil => simp
  | cons c cs ih => simpa using ih (t.push h c)

/-- The step lemma. -/
theorem Roots.summary {s s' : State} {ns : List Bytes32} (h : Roots E s)
    (hs : Summary E ns s s') : Roots E s' := by
  obtain ⟨cs, htree, hcount⟩ := hs.tree
  have hknown := TreeStore.foldl_push_known cs h.known
  obtain ⟨hleaves, -⟩ := @TreeStore.foldl_push_leaves (hash2 E.poseidon) cs s.tree
  rw [← htree] at hknown hleaves
  exact ⟨hknown, by rw [hcount, h.count, hleaves, List.length_append]⟩

/-- **Known roots over runs.** -/
theorem roots_run (admin usdc verifier : Address) (depth poolId chainId : ℕ)
    (balance : Address → Address → ℤ) (ledger : ℕ) (ts : List Step) :
    Roots E (run E ts (construct admin usdc verifier depth poolId chainId balance ledger)).1 := by
  refine @run_induct E _ (fun s _ => Roots E s) (fun h hc => h.summary (Call.invoke_summary hc))
    (fun h => ⟨h.known, h.count⟩) (fun h => ⟨h.known, h.count⟩) ts [] ⟨fun r => ?_, rfl⟩
  by_cases hr : r = zeroWord
  · simp [construct, hr]
  · simp [construct, hr]

end

end ShadePay.Stellar
