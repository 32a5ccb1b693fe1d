import ShadePay.Stellar.Runs

/-!
# The event log against the tree

Every call that appends leaves publishes them: a deposit and a transfer one commitment with its leaf
index, a committee settlement two. `Call.invoke_announced` says so per call, and `replays_run` that
after every run the log, read in order, spells the stored leaves, with the stored root over them
(`leafRoot`).
-/

namespace ShadePay.Stellar

open Guard

/-! ## Events -/

/-- The first topic of an event. -/
def Event.topic : Event → String
  | .deposit .. => "deposit"
  | .withdraw .. => "withdraw"
  | .xfer .. => "xfer"
  | .regasset .. => "regasset"
  | .cctpout .. => "cctpout"
  | .rfq .. => "rfq"
  | .rfqswap .. => "rfqswap"
  | .mpc .. => "mpc"
  | .mpcprice .. => "mpcprice"

/-- The leaves an event announces. -/
def Event.leaves : Event → List Bytes32
  | .deposit _ _ _ _ c _ _ _ _ => [c]
  | .xfer _ c _ _ => [c]
  | .mpc _ _ _ a b _ => [a, b]
  | .mpcprice _ _ _ a b _ => [a, b]
  | _ => []

/-- The leaf index an event names, if any, is `n`. -/
def Event.IndexIs (n : ℕ) : Event → Prop
  | .deposit _ _ _ _ _ _ _ i _ => i = n
  | .xfer _ _ i _ => i = n
  | _ => True

/-- The events of a log name the number of leaves announced before them, and of `n` more. -/
def IndexedFrom : ℕ → List Event → Prop
  | _, [] => True
  | n, e :: es => e.IndexIs n ∧ IndexedFrom (n + e.leaves.length) es

theorem indexedFrom_append {n : ℕ} {es fs : List Event} : IndexedFrom n (es ++ fs) ↔
    IndexedFrom n es ∧ IndexedFrom (n + (es.flatMap Event.leaves).length) fs := by
  induction es generalizing n with
  | nil => simp [IndexedFrom]
  | cons e es ih => simp [IndexedFrom, ih, and_assoc, Nat.add_assoc]

/-! ## Calls -/

/-- The calls other than a deposit that append leaves. -/
def Call.settles : Call → Bool
  | .privateTransferSettle .. => true
  | .mpcSettle .. => true
  | .mpcSettlePriced .. => true
  | _ => false

/-- What a call wrote to the log and to the tree. -/
structure Announced (E : Env) (call : Call) (s s' : State) (es : List Event) : Prop where
  events : s'.events = s.events ++ es
  tree : s'.tree =
    (es.flatMap Event.leaves).foldl (fun t c => t.push (hash2 E.poseidon) c) s.tree
  leafCount : s'.leafCount = s.leafCount + (es.flatMap Event.leaves).length
  indexed : IndexedFrom s.leafCount es
  room : es.flatMap Event.leaves ≠ [] →
    s.tree.leaves.length + (es.flatMap Event.leaves).length ≤ capacity s.tree.depth
  deposits : call.settles = false → ∀ e ∈ es, e.leaves ≠ [] → e.topic = "deposit"

section
variable {E : Env} {call : Call} {s s' : State}

/-- A call that publishes nothing. -/
theorem Announced.silent (hevents : s'.events = s.events) (htree : s'.tree = s.tree)
    (hcount : s'.leafCount = s.leafCount) : Announced E call s s' [] :=
  ⟨by simpa using hevents, by simpa using htree, by simpa using hcount, trivial, by simp, by simp⟩

/-- A call that publishes one event without leaves. -/
theorem Announced.leafless {e : Event} (hevents : s'.events = s.events ++ [e])
    (htree : s'.tree = s.tree) (hcount : s'.leafCount = s.leafCount) (hleaves : e.leaves = [])
    (hindex : ∀ n, e.IndexIs n) : Announced E call s s' [e] :=
  ⟨hevents, by simpa [hleaves] using htree, by simpa [hleaves] using hcount,
    ⟨hindex _, trivial⟩, by simp [hleaves], by simp [hleaves]⟩

/-- **The announcement of a call.** -/
theorem Call.invoke_announced {auth : Address → Bool} (h : call.invoke E auth s = .ok s') :
    ∃ es, Announced E call s s' es := by
  cases call with
  | receiveCctpDeposit d n a amt c r enc pol proof pub =>
      simp only [Call.invoke, bind_eq_ok, Prod.exists, pure_eq_ok] at h
      obtain ⟨i, _, h, rfl⟩ := h
      obtain ⟨signals, v, op, src, dst, a6, a7, p, h⟩ := State.receiveCctpDeposit_inv h
      obtain ⟨c', h⟩ := h
      obtain ⟨-, -, -, -, -, -, -, h⟩ := h
      obtain ⟨-, -, -, -, -, -, -, h⟩ := h
      obtain ⟨-, -, -, -, -, -, -, h⟩ := h
      obtain ⟨hroom, -, -, -, rfl⟩ := h
      exact ⟨_, rfl, rfl, rfl, ⟨rfl, trivial⟩, fun _ => hroom, by simp [Event.topic]⟩
  | withdraw a proof pub =>
      obtain ⟨signals, nh, value, fee, asset, token, -, h⟩ := State.withdraw_inv h
      obtain ⟨-, -, -, -, -, -, -, h⟩ := h
      obtain ⟨-, -, -, -, rfl⟩ := h
      exact ⟨_, .leafless rfl rfl rfl rfl fun _ => trivial⟩
  | privateTransferSettle proof pub r =>
      obtain ⟨signals, nh, out, v, p, c, h⟩ := State.privateTransferSettle_inv h
      obtain ⟨-, -, -, -, -, -, -, h⟩ := h
      obtain ⟨-, -, -, hroom, -, rfl⟩ := h
      exact ⟨_, rfl, rfl, rfl, ⟨rfl, trivial⟩, fun _ => hroom, by simp [Call.settles]⟩
  | withdrawCctp a proof pub d r fee fin =>
      simp only [Call.invoke, bind_eq_ok, Prod.exists, pure_eq_ok] at h
      obtain ⟨i, _, h, rfl⟩ := h
      obtain ⟨signals, nh, value, fee', fin', token, -, h⟩ := State.withdrawCctp_inv h
      obtain ⟨-, -, -, -, -, -, -, h⟩ := h
      obtain ⟨-, -, -, -, -, -, -, rfl⟩ := h
      exact ⟨_, .leafless rfl rfl rfl rfl fun _ => trivial⟩
  | rfqSettle a proof pub q i f pk sig =>
      obtain ⟨signals, nh, value, -, -, -, -, rfl⟩ := State.rfqSettle_inv h
      exact ⟨_, .leafless rfl rfl rfl rfl fun _ => trivial⟩
  | rfqSettleAtomicSwap u v proof pub q i f o qo mo ps pk sig =>
      obtain ⟨signals, nh, value, fee, asset, t, t', h⟩ := State.rfqSettleAtomicSwap_inv h
      obtain ⟨-, -, -, -, -, -, -, h⟩ := h
      obtain ⟨-, -, -, -, -, -, -, h⟩ := h
      obtain ⟨-, -, rfl⟩ := h
      exact ⟨_, .leafless rfl rfl rfl rfl fun _ => trivial⟩
  | mpcSettle na nb oa ob r b pks sigs proof pub =>
      obtain ⟨sb, signals, hf, -, rfl⟩ := State.mpcSettle_inv h
      exact ⟨_, rfl, rfl, rfl, ⟨trivial, trivial⟩, fun _ => hf.room, by simp [Call.settles]⟩
  | mpcSettlePriced na nb oa ob r b pks sigs proof pub =>
      obtain ⟨sb, signals, hf, -, rfl⟩ := State.mpcSettlePriced_inv h
      exact ⟨_, rfl, rfl, rfl, ⟨trivial, trivial⟩, fun _ => hf.room, by simp [Call.settles]⟩
  | registerAsset id token =>
      simp only [Call.invoke, State.registerAsset, bind_eq_ok, exists_unit, pure_eq_ok] at h
      obtain ⟨-, -, rfl⟩ := h
      exact ⟨_, .leafless rfl rfl rfl rfl fun _ => trivial⟩
  | registrySpend x n =>
      simp only [Call.invoke, State.registrySpend, bind_eq_ok, exists_unit, Registry.spend_eq_ok,
        pure_eq_ok] at h
      obtain ⟨-, -, _, -, rfl⟩ := h
      exact ⟨_, .silent rfl rfl rfl⟩
  | admin c =>
      have hf := AdminCall.invoke_frame h
      exact ⟨_, .silent hf.events hf.tree hf.leafCount⟩

end

/-! ## Runs -/

/-- The root word of a leaf sequence: the zero word of the constructor for the empty one, else the
root of the full tree over the zero-padded scalars. -/
def leafRoot (E : Env) (depth : ℕ) (leaves : List Bytes32) : Bytes32 :=
  if leaves = [] then zeroWord
  else frToBytes (Merkle.root (hash2 E.poseidon) 0 depth (LeanIMT.scalars leaves))

/-- The log of a pool of a depth spells its tree. -/
structure Replays (E : Env) (depth : ℕ) (s : State) : Prop where
  depth_eq : s.tree.depth = depth
  leaves : s.tree.leaves = s.events.flatMap Event.leaves
  root : s.tree.root = leafRoot E depth s.tree.leaves
  leafCount : s.leafCount = s.tree.leaves.length
  indexed : IndexedFrom 0 s.events
  fits : s.tree.leaves.length ≤ capacity depth

section
variable {E : Env} {depth : ℕ} {s s' : State}

theorem TreeStore.foldl_push_root {h : Bls12381 → Bls12381 → Bls12381} (cs : List Bytes32)
    (t : TreeStore) (hcs : cs ≠ []) :
    (cs.foldl (fun t c => t.push h c) t).root =
      frToBytes (Merkle.root h 0 t.depth (LeanIMT.scalars (t.leaves ++ cs))) := by
  induction cs generalizing t with
  | nil => exact absurd rfl hcs
  | cons c cs ih =>
      cases cs with
      | nil => rfl
      | cons c' cs => simpa using ih (t.push h c) (by simp)

/-- The step lemma. -/
theorem Replays.announced {call : Call} {es : List Event} (h : Replays E depth s)
    (ha : Announced E call s s' es) : Replays E depth s' := by
  obtain ⟨hleaves, hdepth⟩ := @TreeStore.foldl_push_leaves (hash2 E.poseidon)
    (es.flatMap Event.leaves) s.tree
  rw [← ha.tree] at hleaves hdepth
  refine ⟨hdepth.trans h.depth_eq, ?_, ?_, ?_, ?_, ?_⟩
  · rw [hleaves, h.leaves, ha.events, List.flatMap_append]
  · by_cases hes : es.flatMap Event.leaves = []
    · rw [hleaves, ha.tree, hes, List.foldl_nil, List.append_nil, h.root]
    · rw [hleaves, leafRoot, if_neg (by simp [hes]), ha.tree, TreeStore.foldl_push_root _ _ hes,
        h.depth_eq]
  · rw [ha.leafCount, h.leafCount, hleaves, List.length_append]
  · rw [ha.events, indexedFrom_append, ← h.leaves, ← h.leafCount, Nat.zero_add]
    exact ⟨h.indexed, ha.indexed⟩
  · rw [hleaves, List.length_append]
    by_cases hes : es.flatMap Event.leaves = []
    · simpa [hes] using h.fits
    · simpa [h.depth_eq] using ha.room hes

/-- **The log over runs.** It spells the tree, and in a run without transfers and committee settlements
every leaf in it comes from a deposit. -/
theorem replays_run (admin usdc verifier : Address) (depth poolId chainId : ℕ)
    (balance : Address → Address → ℤ) (ledger : ℕ) (ts : List Step) :
    Replays E depth
        (run E ts (construct admin usdc verifier depth poolId chainId balance ledger)).1 ∧
      ((∀ i ∈ (run E ts (construct admin usdc verifier depth poolId chainId balance ledger)).2,
          i.call.settles = false) →
        ∀ e ∈ (run E ts
          (construct admin usdc verifier depth poolId chainId balance ledger)).1.events,
          e.leaves ≠ [] → e.topic = "deposit") := by
  refine @run_induct E (construct admin usdc verifier depth poolId chainId balance ledger)
    (fun s is => Replays E depth s ∧ ((∀ i ∈ is, i.call.settles = false) →
      ∀ e ∈ s.events, e.leaves ≠ [] → e.topic = "deposit")) ?_ ?_ ?_ ts [] ?_
  · rintro s is auth call s' ⟨h, hdep⟩ hc
    obtain ⟨es, ha⟩ := Call.invoke_announced hc
    refine ⟨h.announced ha, fun hall e he => ?_⟩
    rw [ha.events, List.mem_append] at he
    rcases he with he | he
    · exact hdep (fun i hi => hall i (List.mem_append_left _ hi)) e he
    · exact ha.deposits (hall _ (List.mem_append_right _ (List.mem_singleton_self _))) e he
  · rintro s is token holder amount ⟨h, hdep⟩
    exact ⟨⟨h.depth_eq, h.leaves, h.root, h.leafCount, h.indexed, h.fits⟩, hdep⟩
  · rintro s is ⟨h, hdep⟩
    exact ⟨⟨h.depth_eq, h.leaves, h.root, h.leafCount, h.indexed, h.fits⟩, hdep⟩
  · exact ⟨⟨rfl, rfl, rfl, rfl, trivial, Nat.zero_le _⟩, by simp [construct]⟩

end

end ShadePay.Stellar
