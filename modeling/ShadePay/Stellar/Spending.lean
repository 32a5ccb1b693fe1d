import ShadePay.Stellar.Runs
import ShadePay.Stellar.Deposit

/-!
# Notes spent on the Soroban pool

The registry is keyed by the nullifier word of the signals, while the circuits see that word and the
two domain words as scalars. `Call.inputs` are the input notes of a call, and `Input.Plain` says that
its words say what the circuit reads: a canonical nullifier and domain words without a high half.
`spent_run` is the invariant, the nullifier words of a run are distinct; on plain inputs one note has
one word (`Input.key_eq`), so no note is consumed twice (`consumed_once_of_plain`). A second word for
the same scalar spends the note again (`respent_under_other_word`).
-/

namespace ShadePay

/-! ## Records of words -/

section
variable {α : Type}

/-- The record a list of signals spells. -/
def WithdrawPub.ofList : List α → Option (WithdrawPub α)
  | [a0, a1, a2, a3, a4, a5, a6, a7, a8, a9, a10, a11, a12, a13, a14, a15, a16, a17] =>
      some ⟨a0, a1, a2, a3, a4, a5, a6, a7, a8, a9, a10, a11, a12, a13, a14, a15, a16, a17⟩
  | _ => none

/-- The record a list of signals spells. -/
def TransferPub.ofList : List α → Option (TransferPub α)
  | [a0, a1, a2, a3, a4, a5, a6, a7, a8] => some ⟨a0, a1, a2, a3, a4, a5, a6, a7, a8⟩
  | _ => none

/-- The record a list of signals spells. -/
def MpcPub.ofList : List α → Option (MpcPub α)
  | [a0, a1, a2, a3, a4, a5, a6, a7, a8, a9, a10, a11] =>
      some ⟨a0, a1, a2, a3, a4, a5, a6, a7, a8, a9, a10, a11⟩
  | _ => none

/-- The record a list of signals spells. -/
def MpcPricedPub.ofList : List α → Option (MpcPricedPub α)
  | [a0, a1, a2, a3, a4, a5, a6, a7, a8, a9, a10, a11, a12, a13, a14, a15, a16, a17, a18, a19] =>
      some ⟨a0, a1, a2, a3, a4, a5, a6, a7, a8, a9, a10, a11, a12, a13, a14, a15, a16, a17, a18, a19⟩
  | _ => none

/-- The signals of a withdrawal are read back. -/
theorem WithdrawPub.ofList_toList (x : WithdrawPub α) : ofList x.toList = some x := rfl
/-- The signals of a transfer are read back. -/
theorem TransferPub.ofList_toList (x : TransferPub α) : ofList x.toList = some x := rfl
/-- The signals of a committee settlement are read back. -/
theorem MpcPub.ofList_toList (x : MpcPub α) : ofList x.toList = some x := rfl
theorem MpcPricedPub.ofList_toList (x : MpcPricedPub α) : ofList x.toList = some x := rfl

end

namespace Stellar

open Guard

/-! ## Input notes -/

/-- An input note of a call: the word the registry is asked about, the two domain words, and the
notes that a satisfying assignment for the signals may spend there. -/
structure Input where
  key : Bytes32
  poolId : Bytes32
  chainId : Bytes32
  opens : Note Bls12381 → Prop

/-- The words say what the circuit reads. -/
structure Input.Plain (i : Input) : Prop where
  key : i.key.toNat < bls12381
  poolId : i.poolId.toNat < 2 ^ 128
  chainId : i.chainId.toNat < 2 ^ 128

/-- The inputs a signal string describes, through the record of its words. -/
def inputsOf {β : Type} (ofList : List Bytes32 → Option β) (f : β → List Input) (pub : List UInt8) :
    List Input :=
  match parsePublicSignals pub with
  | .ok signals => (ofList signals).elim [] f
  | .error _ => []

variable (E : Env)

/-- The input of a call on the withdraw circuit. -/
def withdrawInputs (x : WithdrawPub Bytes32) : List Input :=
  [⟨x.nullifierHash, x.poolId, x.chainId, fun n => ∃ w,
    Withdraw E.poseidon 12 2 (x.map frFromBytes) w ∧ n = w.note (x.map frFromBytes)⟩]

/-- The input of a private transfer. -/
def transferInputs (x : TransferPub Bytes32) : List Input :=
  [⟨x.nullifierHash, x.poolId, x.chainId, fun n => ∃ w,
    PrivateTransfer E.poseidon 12 2 (x.map frFromBytes) w ∧ n = w.note (x.map frFromBytes)⟩]

/-- The two inputs of a committee settlement. -/
def mpcInputs (x : MpcPub Bytes32) : List Input :=
  [⟨x.nullifierHashA, x.poolId, x.chainId, fun n => ∃ w,
    MpcSettlement E.poseidon 12 2 (x.map frFromBytes) w ∧ n = w.noteA (x.map frFromBytes)⟩,
  ⟨x.nullifierHashB, x.poolId, x.chainId, fun n => ∃ w,
    MpcSettlement E.poseidon 12 2 (x.map frFromBytes) w ∧ n = w.noteB (x.map frFromBytes)⟩]

/-- The two inputs of a priced settlement. -/
def mpcPricedInputs (x : MpcPricedPub Bytes32) : List Input :=
  [⟨x.nullifierHashA, x.poolId, x.chainId, fun n => ∃ w,
    MpcPricedSettlement E.poseidon 12 2 (x.map frFromBytes) w ∧ n = w.noteA (x.map frFromBytes)⟩,
  ⟨x.nullifierHashB, x.poolId, x.chainId, fun n => ∃ w,
    MpcPricedSettlement E.poseidon 12 2 (x.map frFromBytes) w ∧ n = w.noteB (x.map frFromBytes)⟩]

/-- The input notes of a call. -/
def Call.inputs : Call → List Input
  | .withdraw _ _ pub => inputsOf WithdrawPub.ofList (withdrawInputs E) pub
  | .withdrawCctp _ _ pub _ _ _ _ => inputsOf WithdrawPub.ofList (withdrawInputs E) pub
  | .rfqSettle _ _ pub _ _ _ _ _ => inputsOf WithdrawPub.ofList (withdrawInputs E) pub
  | .rfqSettleAtomicSwap _ _ _ pub _ _ _ _ _ _ _ _ _ =>
      inputsOf WithdrawPub.ofList (withdrawInputs E) pub
  | .privateTransferSettle _ pub _ => inputsOf TransferPub.ofList (transferInputs E) pub
  | .mpcSettle _ _ _ _ _ _ _ _ _ pub => pub.elim [] (inputsOf MpcPub.ofList (mpcInputs E))
  | .mpcSettlePriced _ _ _ _ _ _ _ _ _ pub =>
      pub.elim [] (inputsOf MpcPricedPub.ofList (mpcPricedInputs E))
  | _ => []

/-- What the checks of a successful call say of its inputs, in a pool of a domain: their keys are
nullifiers it spends, the low halves of the domain words are those of the domain, each opens some
note, and the key as a scalar is the nullifier hash of every note it opens. -/
structure InputsOk (nullifiers : List Bytes32) (poolId chainId : ℕ) (is : List Input) : Prop where
  keys : (is.map Input.key).Sublist nullifiers
  pool : ∀ i ∈ is, fr32ToI128 i.poolId = poolId
  chain : ∀ i ∈ is, fr32ToI128 i.chainId = chainId
  some_note : ∀ i ∈ is, ∃ n, i.opens n
  hash : ∀ i ∈ is, ∀ n, i.opens n → frFromBytes i.key =
    n.nullifierHash E.poseidon (frFromBytes i.poolId) (frFromBytes i.chainId)

section
variable {E} {s s' : State}

/-- The inputs of signals that parse. -/
theorem inputsOf_eq {β : Type} {ofList : List Bytes32 → Option β} {f : β → List Input}
    {pub : List UInt8} {signals : List Bytes32} {x : β}
    (hp : parsePublicSignals pub = .ok signals) (hx : ofList signals = some x) :
    inputsOf ofList f pub = f x := by
  simp [inputsOf, hp, hx]

theorem InputsOk.nil (ns : List Bytes32) (p c : ℕ) : InputsOk E ns p c [] :=
  ⟨by simp, by simp, by simp, by simp, by simp⟩

/-- One input, whichever circuit binds it. -/
theorem InputsOk.one {nh p c : Bytes32} {poolId chainId : ℕ} {f : Note Bls12381 → Prop}
    (hp : fr32ToI128 p = poolId) (hc : fr32ToI128 c = chainId) (hf : ∃ n, f n)
    (hhash : ∀ n, f n → frFromBytes nh =
      n.nullifierHash E.poseidon (frFromBytes p) (frFromBytes c)) :
    InputsOk E [nh] poolId chainId [⟨nh, p, c, f⟩] := by
  refine ⟨List.Sublist.refl _, ?_, ?_, ?_, ?_⟩
  · simpa using hp
  · simpa using hc
  · simpa using hf
  · intro i hi
    obtain rfl := List.mem_singleton.1 hi
    exact hhash

/-- The entry points on the withdraw circuit. -/
theorem WithdrawFamily.inputsOk {proof pub : List UInt8} {signals : List Bytes32} {nh : Bytes32}
    (hE : E.Sound) (h : WithdrawFamily E s proof pub signals nh) :
    InputsOk E (firstSignal pub) s.poolId s.chainId
      (inputsOf WithdrawPub.ofList (withdrawInputs E) pub) := by
  obtain ⟨x, w, rfl, hw⟩ := (E.holds_of_verify hE h.verified h.parsed).withdraw
  obtain ⟨p, c, hp, hc, hpool, hchain⟩ := h.domain
  obtain rfl : x.poolId = p := Option.some.inj hp
  obtain rfl : x.chainId = c := Option.some.inj hc
  rw [inputsOf_eq h.parsed x.ofList_toList, firstSignal_eq h.parsed rfl]
  refine .one hpool hchain ⟨_, w, hw, rfl⟩ ?_
  rintro _ ⟨w', hw', rfl⟩
  exact hw'.spends.nullifier

/-- The two inputs of a settlement, whichever circuit binds them. -/
theorem InputsOk.pair {na nb p c : Bytes32} {poolId chainId : ℕ} {f g : Note Bls12381 → Prop}
    (hp : fr32ToI128 p = poolId) (hc : fr32ToI128 c = chainId) (hf : ∃ n, f n) (hg : ∃ n, g n)
    (hA : ∀ n, f n → frFromBytes na = n.nullifierHash E.poseidon (frFromBytes p) (frFromBytes c))
    (hB : ∀ n, g n → frFromBytes nb = n.nullifierHash E.poseidon (frFromBytes p) (frFromBytes c)) :
    InputsOk E [na, nb] poolId chainId [⟨na, p, c, f⟩, ⟨nb, p, c, g⟩] := by
  refine ⟨List.Sublist.refl _, ?_, ?_, ?_, ?_⟩
  · simpa using hp
  · simpa using hc
  · simpa using ⟨hf, hg⟩
  · intro i hi
    rcases List.mem_pair.1 hi with rfl | rfl
    · exact hA
    · exact hB

/-- **The inputs of a successful call.** -/
theorem Call.inputsOk (hE : E.Sound) {auth : Address → Bool} {call : Call}
    (h : call.invoke E auth s = .ok s') :
    InputsOk E call.nullifiers s.poolId s.chainId (call.inputs E) := by
  cases call with
  | withdraw a proof pub =>
      obtain ⟨signals, nh, _, _, _, _, hf, -⟩ := State.withdraw_inv h
      exact hf.inputsOk hE
  | withdrawCctp a proof pub d r fee fin =>
      simp only [Call.invoke, bind_eq_ok, Prod.exists, pure_eq_ok] at h
      obtain ⟨_, _, h, -⟩ := h
      obtain ⟨signals, nh, _, _, _, _, hf, -⟩ := State.withdrawCctp_inv h
      exact hf.inputsOk hE
  | rfqSettle a proof pub q i f pk sig =>
      obtain ⟨signals, nh, _, hf, -⟩ := State.rfqSettle_inv h
      exact hf.inputsOk hE
  | rfqSettleAtomicSwap u v proof pub q i f o qo mo ps pk sig =>
      obtain ⟨signals, nh, _, _, _, _, _, hf, -⟩ := State.rfqSettleAtomicSwap_inv h
      exact hf.inputsOk hE
  | privateTransferSettle proof pub r =>
      obtain ⟨signals, nh, out, v, p, c, h⟩ := State.privateTransferSettle_inv h
      obtain ⟨hp, h0, -, h5, h6, hpool, hchain, h⟩ := h
      obtain ⟨-, hver, -⟩ := h
      obtain ⟨x, w, rfl, hw⟩ := (E.holds_of_verify hE hver hp).transfer
      obtain rfl : x.poolId = p := Option.some.inj h5
      obtain rfl : x.chainId = c := Option.some.inj h6
      rw [Call.inputs, Call.nullifiers, inputsOf_eq hp x.ofList_toList, firstSignal_eq hp rfl]
      refine .one hpool hchain ⟨_, w, hw, rfl⟩ ?_
      rintro _ ⟨w', hw', rfl⟩
      exact hw'.spends.nullifier
  | mpcSettle na nb oa ob r b pks sigs proof pub =>
      obtain ⟨sb, signals, hf, -⟩ := State.mpcSettle_inv h
      obtain ⟨v, pb, -, -, hver⟩ := hf.verified
      obtain ⟨x, w, rfl, hw⟩ := (E.holds_of_verify hE hver hf.parsed).mpc
      obtain ⟨p, c, hp, hc, hpool, hchain⟩ := hf.domain
      obtain rfl : x.poolId = p := Option.some.inj hp
      obtain rfl : x.chainId = c := Option.some.inj hc
      obtain rfl : x.nullifierHashA = na := Option.some.inj hf.nullifierA
      obtain rfl : x.nullifierHashB = nb := Option.some.inj hf.nullifierB
      rw [Call.inputs, Call.nullifiers, hf.given, Option.elim_some,
        inputsOf_eq hf.parsed x.ofList_toList]
      refine .pair hpool hchain ⟨_, w, hw, rfl⟩ ⟨_, w, hw, rfl⟩ ?_ ?_
      · rintro _ ⟨w', hw', rfl⟩
        exact hw'.spendsA.nullifier
      · rintro _ ⟨w', hw', rfl⟩
        exact hw'.spendsB.nullifier
  | mpcSettlePriced na nb oa ob r b pks sigs proof pub =>
      obtain ⟨sb, signals, hf, -⟩ := State.mpcSettlePriced_inv h
      obtain ⟨v, pb, -, -, hver⟩ := hf.verified
      obtain ⟨x, w, rfl, hw⟩ := (E.holds_of_verify hE hver hf.parsed).mpcPriced
      obtain ⟨p, c, hp, hc, hpool, hchain⟩ := hf.domain
      obtain rfl : x.poolId = p := Option.some.inj hp
      obtain rfl : x.chainId = c := Option.some.inj hc
      obtain rfl : x.nullifierHashA = na := Option.some.inj hf.nullifierA
      obtain rfl : x.nullifierHashB = nb := Option.some.inj hf.nullifierB
      rw [Call.inputs, Call.nullifiers, hf.given, Option.elim_some,
        inputsOf_eq hf.parsed x.ofList_toList]
      refine .pair hpool hchain ⟨_, w, hw, rfl⟩ ⟨_, w, hw, rfl⟩ ?_ ?_
      · rintro _ ⟨w', hw', rfl⟩
        exact hw'.spendsA.nullifier
      · rintro _ ⟨w', hw', rfl⟩
        exact hw'.spendsB.nullifier
  | _ => exact .nil _ _ _

/-! ## The invariant -/

/-- The calls so far had good inputs in the pool's domain, spent distinct nullifiers, and the
registry holds them. -/
structure Spent (E : Env) (poolId chainId : ℕ) (s : State) (is : List Invocation) : Prop where
  pool : s.poolId = poolId
  chain : s.chainId = chainId
  inputs : ∀ c ∈ is, InputsOk E c.call.nullifiers poolId chainId (c.call.inputs E)
  nodup : (is.flatMap fun c => c.call.nullifiers).Nodup
  spent : ∀ n ∈ is.flatMap fun c => c.call.nullifiers, s.registry.spent n = true

/-- One more call. -/
theorem Spent.invoke (hE : E.Sound) {poolId chainId : ℕ} {is : List Invocation}
    {auth : Address → Bool} {call : Call} (h : Spent E poolId chainId s is)
    (hc : call.invoke E auth s = .ok s') :
    Spent E poolId chainId s' (is ++ [⟨call, s, s'⟩]) := by
  have hs : Summary E call.nullifiers s s' := Call.invoke_summary hc
  have hin := Call.inputsOk hE hc
  rw [h.pool, h.chain] at hin
  refine ⟨hs.poolId.trans h.pool, hs.chainId.trans h.chain, ?_, ?_, ?_⟩
  · intro c hmem
    rcases List.mem_append.1 hmem with hmem | hmem
    · exact h.inputs c hmem
    · obtain rfl := List.mem_singleton.1 hmem
      exact hin
  · rw [List.flatMap_append, List.flatMap_singleton, List.nodup_append]
    refine ⟨h.nodup, hs.nodup, ?_⟩
    rintro a ha b hb rfl
    have h1 := hs.fresh a hb
    rw [h.spent a ha] at h1
    cases h1
  · intro n hn
    rw [List.flatMap_append, List.flatMap_singleton, List.mem_append] at hn
    rw [hs.spent]
    rcases hn with hn | hn
    · exact .inl (h.spent n hn)
    · exact .inr hn

/-- **Nullifiers over runs.** -/
theorem spent_run (hE : E.Sound) (ts : List Step) (s : State) :
    Spent E s.poolId s.chainId (run E ts s).1 (run E ts s).2 := by
  refine @run_induct E s (fun s' is => Spent E s.poolId s.chainId s' is)
    (fun h hc => h.invoke hE hc) (fun h => ⟨h.pool, h.chain, h.inputs, h.nodup, h.spent⟩)
    (fun h => ⟨h.pool, h.chain, h.inputs, h.nodup, h.spent⟩) ts []
    ⟨rfl, rfl, by simp, by simp, by simp⟩

/-- The registry key of a note: its nullifier hash under the pool's domain. -/
def noteKey (E : Env) (poolId chainId : ℕ) (n : Note Bls12381) : Bytes32 :=
  frToBytes (n.nullifierHash E.poseidon poolId chainId)

/-- **One key per note.** A plain input reveals the key of every note it may open. -/
theorem Input.key_eq {ns : List Bytes32} {poolId chainId : ℕ} {is : List Input}
    (h : InputsOk E ns poolId chainId is) {i : Input} (hi : i ∈ is) (hplain : i.Plain)
    {n : Note Bls12381} (hn : i.opens n) : i.key = noteKey E poolId chainId n := by
  have hp : i.poolId.toNat = poolId := by
    exact_mod_cast toNat_of_fr32ToI128 hplain.poolId (h.pool i hi) (by positivity)
  have hc : i.chainId.toNat = chainId := by
    exact_mod_cast toNat_of_fr32ToI128 hplain.chainId (h.chain i hi) (by positivity)
  have hkey := h.hash i hi n hn
  rw [frFromBytes, frFromBytes, frFromBytes, hp, hc] at hkey
  rw [noteKey, ← hkey]
  exact (frToBytes_frFromBytes hplain.key).symm

/-- **Single spend on plain words.** In a run whose successful calls present plain inputs, every input
consumes a note, and no note is consumed by two inputs: neither of two calls nor of one. -/
theorem consumed_once_of_plain (hE : E.Sound) (ts : List Step) (s : State)
    (hplain : ∀ c ∈ (run E ts s).2, ∀ i ∈ c.call.inputs E, i.Plain) :
    (∀ c ∈ (run E ts s).2, ∀ i ∈ c.call.inputs E, ∃ n, i.opens n) ∧
      ((run E ts s).2.flatMap fun c => c.call.inputs E).Pairwise
        fun i j => ∀ n, ¬ (i.opens n ∧ j.opens n) := by
  have hI := spent_run hE ts s
  refine ⟨fun c hc i hi => (hI.inputs c hc).some_note i hi, ?_⟩
  have hsub : List.Sublist (((run E ts s).2.flatMap fun c => c.call.inputs E).map Input.key)
      ((run E ts s).2.flatMap fun c => c.call.nullifiers) := by
    rw [List.map_flatMap]
    exact List.Sublist.flatMap_right _ fun c hc => (hI.inputs c hc).keys
  have hnd := hI.nodup.sublist hsub
  rw [List.nodup_iff_pairwise_ne, List.pairwise_map] at hnd
  refine hnd.imp_of_mem fun {i j} hi hj hne n hn => hne ?_
  obtain ⟨c, hc, hi⟩ := List.mem_flatMap.1 hi
  obtain ⟨d, hd, hj⟩ := List.mem_flatMap.1 hj
  rw [Input.key_eq (hI.inputs c hc) hi (hplain c hc i hi) hn.1,
    Input.key_eq (hI.inputs d hd) hj (hplain d hd j hj) hn.2]

end

/-! ## Words of one scalar -/

/-- The other word of a scalar. -/
def otherWord (x : Bls12381) : Bytes32 := word (x.val + bls12381)

/-- The other word of a scalar is one of 32 bytes. -/
theorem otherWord_lt (x : Bls12381) : x.val + bls12381 < 256 ^ 32 := by
  have hx : x.val < bls12381 := ZMod.val_lt x
  have hr : bls12381 + bls12381 ≤ 256 ^ 32 := by decide
  omega

/-- The other word is read as the same scalar. -/
theorem frFromBytes_otherWord (x : Bls12381) : frFromBytes (otherWord x) = x := by
  rw [otherWord, frFromBytes_word (otherWord_lt x), Nat.cast_add, ZMod.natCast_zmod_val,
    ZMod.natCast_self, add_zero]

/-- The other word is not the canonical one. -/
theorem frToBytes_ne_otherWord (x : Bls12381) : frToBytes x ≠ otherWord x := by
  intro h
  have hnat := congrArg BytesN.toNat h
  have hr : 0 < bls12381 := by decide
  rw [toNat_frToBytes, otherWord, toNat_word (otherWord_lt x)] at hnat
  omega

/-- The input of a withdrawal is that of its signals. -/
theorem withdrawCallAt_inputs (E : Env) (root : Bytes32) (amount : ℕ) (a : Address)
    (proof : List UInt8) (w : Bytes32) : (withdrawCallAt E root amount a proof w).inputs E =
      withdrawInputs E (spendWordsAt E root 1 amount (E.recipientHash a) w) := by
  rw [withdrawCallAt, Call.inputs, inputsOf_eq (parse_withdrawWords _) (WithdrawPub.ofList_toList _)]

/-- What the two nullifier words of a deposited note open. -/
theorem withdrawCall_opens {E : Env} {nullifier : Bls12381} {a : Address} {proof : List UInt8}
    {w : Bytes32} (hw : frFromBytes w = (usdcNote E (100 : ℕ) nullifier).nullifierHash E.poseidon
      (frFromBytes (word 0)) (frFromBytes (word 0))) :
    ∃ f, (withdrawCall E (usdcNote E (100 : ℕ) nullifier) 40 a proof w).inputs E =
      [⟨w, word 0, word 0, f⟩] ∧ f (usdcNote E (100 : ℕ) nullifier) := by
  have hsat := @withdraw_spendWords E 1 100 40 nullifier (E.recipientHash a) w (by norm_num)
    (by norm_num) hw
  exact ⟨_, withdrawCallAt_inputs .., spendWitness E (usdcNote E (100 : ℕ) nullifier), hsat, rfl⟩

/-- The calls that configure the pool have no inputs. -/
theorem inputs_setup {E : Env} {is : List Invocation} {cs : List Call}
    (h : is.map Invocation.call = (run E (setup E) fresh).2.map Invocation.call ++ cs) :
    (is.flatMap fun c => c.call.inputs E) = cs.flatMap (Call.inputs E) := by
  have hmap : (is.flatMap fun c => c.call.inputs E) =
      (is.map Invocation.call).flatMap (Call.inputs E) := by rw [List.flatMap_map]
  have hsetup : ((run E (setup E) fresh).2.map Invocation.call).flatMap (Call.inputs E) = [] := by
    rw [run_setup_calls]
    rfl
  rw [hmap, h, List.flatMap_append, hsetup, List.nil_append]

/-- The inputs of a run through `run_respend`: those of its withdrawals. -/
theorem inputs_respend {E : Env} {is : List Invocation} {n : Note Bls12381} {a : Address}
    {proof proof' : List UInt8} {ws : List Bytes32}
    (his : is.map Invocation.call = depositCall E n proof :: ws.map (withdrawCall E n 40 a proof')) :
    (((run E (setup E) fresh).2 ++ is).flatMap fun c => c.call.inputs E) =
      ws.flatMap fun w => (withdrawCall E n 40 a proof' w).inputs E := by
  rw [inputs_setup (by rw [List.map_append, his]), List.flatMap_cons, List.flatMap_map]
  rfl

/-- The nullifier word that a wallet computes of the `i`-th note. -/
noncomputable def sampleKey (i : ℕ) : Bytes32 :=
  frToBytes ((usdcNote sampleEnv (100 : ℕ) i).nullifierHash sampleEnv.poseidon
    (frFromBytes (word 0)) (frFromBytes (word 0)))

/-- The two notes of the run have different keys. -/
theorem sampleKey_ne : sampleKey 0 ≠ sampleKey 1 := by
  intro h
  have hfr := congrArg frFromBytes h
  simp [sampleKey, Note.nullifierHash, usdcNote, sampleEnv, idealEnv, Env.withVerifier] at hfr

/-- Two deposits, a withdrawal out of each note under the canonical words, and the first withdrawal once
more, which is refused: the two inputs of the run consume different notes. -/
theorem consumed_once_of_plain_withdrawals : ∃ ts first,
    first ∈ (run sampleEnv ts fresh).2.map Invocation.call ∧
      (run sampleEnv (ts ++ [.invoke (fun _ => true) first]) fresh).2 = (run sampleEnv ts fresh).2 ∧
      ((run sampleEnv ts fresh).2.flatMap fun c => c.call.inputs sampleEnv).length = 2 ∧
      (∀ c ∈ (run sampleEnv ts fresh).2, ∀ i ∈ c.call.inputs sampleEnv, ∃ n, i.opens n) ∧
      ((run sampleEnv ts fresh).2.flatMap fun c => c.call.inputs sampleEnv).Pairwise
        fun i j => ∀ n, ¬ (i.opens n ∧ j.opens n) := by
  have hE : sampleEnv.Exact := exact_idealVerifier _
  have h0 : (word 0).toNat < 2 ^ 128 := by
    rw [toNat_word (by norm_num)]
    norm_num
  have hkey : ∀ i, (sampleKey i).toNat < bls12381 := fun i => by
    rw [sampleKey, toNat_frToBytes]
    exact ZMod.val_lt _
  obtain ⟨ts, p₁, p₂, p₃, p₄, root, root', hcalls, hrefused⟩ := run_twoSpends hE 0 1 (acct 5)
    sampleKey_ne (frFromBytes_frToBytes _) (frFromBytes_frToBytes _)
  have hins := inputs_setup hcalls
  simp only [List.flatMap_cons, List.flatMap_nil, List.append_nil, withdrawCallAt_inputs] at hins
  refine ⟨ts, withdrawCallAt sampleEnv root 40 (acct 5) p₃ (sampleKey 0), ?_, hrefused, ?_,
    consumed_once_of_plain hE.sound ts fresh fun c hc i hi => ?_⟩
  · rw [hcalls]
    simp
  · rw [hins]
    rfl
  · have hmem : i ∈ (run sampleEnv ts fresh).2.flatMap fun c => c.call.inputs sampleEnv :=
      List.mem_flatMap.2 ⟨c, hc, hi⟩
    rw [hins] at hmem
    rcases List.mem_pair.1 hmem with rfl | rfl
    · exact ⟨hkey 0, h0, h0⟩
    · exact ⟨hkey 1, h0, h0⟩

/-- Whatever the hashes, with exact verifiers a deposited note can be withdrawn from twice: once under
the canonical word of its nullifier hash, and once under the other. -/
theorem respent_under_other_word :
    ¬ ∃ E₀ : Env, ∀ g, (E₀.withVerifier g).Exact → ∀ ts,
      ((run (E₀.withVerifier g) ts fresh).2.flatMap fun c =>
        c.call.inputs (E₀.withVerifier g)).Pairwise fun i j => ∀ n, ¬ (i.opens n ∧ j.opens n) := by
  rintro ⟨E₀, h⟩
  set E := E₀.withVerifier (idealVerifier E₀.poseidon)
  have hE : E.Exact := exact_idealVerifier E₀
  set x := (usdcNote E (100 : ℕ) 0).nullifierHash E.poseidon (frFromBytes (word 0))
    (frFromBytes (word 0))
  obtain ⟨proof, proof', ts, is, hrun, his⟩ := @run_respend E hE 0 (acct 5)
    [frToBytes x, otherWord x] (by simpa using frToBytes_ne_otherWord x) le_rfl (by
      intro w hw
      rcases List.mem_pair.1 hw with rfl | rfl
      · exact frFromBytes_frToBytes x
      · exact frFromBytes_otherWord x)
  obtain ⟨f, hf, hf'⟩ := @withdrawCall_opens E 0 (acct 5) proof' _ (frFromBytes_frToBytes x)
  obtain ⟨g, hg, hg'⟩ := @withdrawCall_opens E 0 (acct 5) proof' _ (frFromBytes_otherWord x)
  have hpair := h _ hE ts
  rw [hrun, inputs_respend his, List.flatMap_cons, List.flatMap_singleton, hf, hg] at hpair
  have htwo := List.rel_of_pairwise_cons hpair (List.mem_singleton.2 rfl)
  exact htwo _ ⟨hf', hg'⟩

end Stellar

end ShadePay
